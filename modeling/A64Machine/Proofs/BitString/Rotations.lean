import A64Machine.Proofs.BitString.Canonical

/-!
Rotation and replication of bit strings, bit by bit.  The rules are the same whether the operand and
the result are kept in one word or in several.
-/

namespace A64Machine

namespace BitString

variable {b : BitString}

/-- A rotation to the right moves every bit down, and the lowest ones around to the top. -/
theorem hasBits_rotateRight (hcanonical : b.Canonical) (amount : Nat) :
    (b.rotateRight amount).HasBits b.width fun i => b.bit ((i + amount) % b.width) := by
  unfold rotateRight
  split
  next hstays =>
    refine hcanonical.hasBits.congr fun i hbelow => ?_
    have hmultiple : amount % b.width = 0 := by
      rcases hstays with hempty | hmultiple
      · omega
      · exact hmultiple
    rw [← Nat.add_mod_mod, hmultiple, Nat.add_zero, Nat.mod_eq_of_lt hbelow]
  next hmoves =>
    have hpos : 0 < b.width := Nat.pos_of_ne_zero (not_or.1 hmoves).1
    have hamount := Nat.mod_lt amount hpos
    have hlow := hasBits_shiftRight hcanonical (amount % b.width)
    have hhigh := hasBits_shiftLeft hcanonical (b.width - amount % b.width)
    have hboth := hasBits_zipWith (f := (· ||| ·)) (g := (· || ·)) (fun x y i => BitVec.getLsbD_or)
      (b.shiftRight (amount % b.width)) (b.shiftLeft (b.width - amount % b.width))
    rw [hlow.width_eq, hhigh.width_eq, Nat.max_self] at hboth
    refine hboth.congr fun i hbelow => ?_
    rw [hlow.bit_eq, hhigh.bit_eq, decide_eq_true hbelow, Bool.true_and, Bool.true_and,
      ← Nat.add_mod_mod]
    -- one of the two shifts has moved the bit out
    by_cases hinside : i + amount % b.width < b.width
    · rw [Nat.mod_eq_of_lt hinside, decide_eq_false (by omega), Bool.false_and, Bool.or_false]
    · have haround : (i + amount % b.width) % b.width = i - (b.width - amount % b.width) := by
        rw [Nat.mod_eq_sub_mod (Nat.not_lt.1 hinside), Nat.mod_eq_of_lt (by omega)]
        omega
      rw [haround, hcanonical.clear _ (Nat.not_lt.1 hinside), Bool.false_or,
        decide_eq_true (by omega), Bool.true_and]

/-- Copies of a string, one above the other, repeat its bits. -/
theorem hasBits_replicate (hcanonical : b.Canonical) (count : Nat) :
    (b.replicate count).HasBits (count * b.width) fun i => b.bit (i % b.width) := by
  induction count with
  | zero =>
    refine ⟨(hasBits_zeros 0).canonical, (Nat.zero_mul _).symm, fun i => ?_⟩
    rw [replicate, (hasBits_zeros 0).bit_eq, Nat.zero_mul]
    rfl
  | succ count ih =>
    have hconcat := hasBits_concat ih.canonical hcanonical
    rw [ih.width_eq, ← Nat.succ_mul] at hconcat
    refine hconcat.congr fun i hbelow => ?_
    rw [ih.bit_eq]
    by_cases hlow : i < b.width
    · rw [decide_eq_false (Nat.not_le.2 hlow), Bool.false_and, Bool.false_or,
        Nat.mod_eq_of_lt hlow]
    · have hle : b.width ≤ i := Nat.not_lt.1 hlow
      have hrest : i - b.width < count * b.width := by
        rw [Nat.succ_mul] at hbelow
        omega
      rw [decide_eq_true hle, decide_eq_true hrest, Bool.true_and, Bool.true_and,
        hcanonical.clear i hle, Bool.or_false, ← Nat.mod_eq_sub_mod hle]

/-- The value of a string of at most 64 bits has its bits. -/
theorem HasBits.toDoubleword_eq {width : Nat} {f : Nat → Bool} (hb : b.HasBits width f)
    (hwidth : width ≤ 64) {value : BitVec 64}
    (hvalue : ∀ i < 64, value.getLsbD i = (decide (i < width) && f i)) :
    b.toDoubleword = .ok value := by
  have hword : b.word 0 = value := by
    apply BitVec.eq_of_getLsbD_eq
    intro i hi
    rw [hvalue i hi, ← hb.bit_eq, bit_of_lt hi]
  rw [toDoubleword, hb.width_eq, if_pos hwidth, hword]

end BitString

end A64Machine
