import Mathlib.Data.List.DropRight
import Mathlib.Data.Nat.Digits.Lemmas
import A64Machine.Proofs.BitString.Numerals
import A64Machine.Proofs.BitString.Reachable

/-!
Bit strings are compared by their values.  The significant words of a string are the digits of its
value at base two to the sixty-fourth, so that equality, the comparison with one word and hashing
all depend on the value alone; the comparison of words from the highest one on is the order of the
values.
-/

namespace A64Machine

/-- Words are the digits of a number that has their bits. -/
theorem testBit_ofDigits (words : List (BitVec 64)) (i : Nat) :
    (Nat.ofDigits (2 ^ 64) (words.map BitVec.toNat)).testBit i = bitAt words i := by
  induction words generalizing i with
  | nil => exact (Nat.zero_testBit i).trans (bitAt_of_le [] (Nat.zero_le _)).symm
  | cons word rest ih =>
    rw [List.map_cons, Nat.ofDigits_cons, Nat.add_comm,
      Nat.testBit_two_pow_mul_add _ word.isLt, ih, BitVec.testBit_toNat, bitAt_cons]
    split
    next hlow => rw [decide_eq_false (Nat.not_le.2 hlow), Bool.false_and, Bool.or_false]
    next hhigh =>
      have hpast : 64 ≤ i := Nat.le_of_not_lt hhigh
      rw [BitVec.getLsbD_of_ge word i hpast, decide_eq_true hpast, Bool.true_and, Bool.false_or]

/-- Numbers put together from a high and a low part are compared by the high parts first. -/
theorem compare_mul_add {modulus low low' : Nat} (high high' : Nat) (hlow : low < modulus)
    (hlow' : low' < modulus) :
    compare (low + modulus * high) (low' + modulus * high') =
      (compare high high').then (compare low low') := by
  rcases Nat.lt_trichotomy high high' with hless | rfl | hgreater
  · have hstep : modulus * (high + 1) ≤ modulus * high' := Nat.mul_le_mul_left modulus hless
    rw [Nat.mul_succ] at hstep
    have hsum : low + modulus * high < low' + modulus * high' := by omega
    rw [Nat.compare_eq_lt.2 hless, Nat.compare_eq_lt.2 hsum]
    rfl
  · rw [Nat.compare_eq_eq.2 rfl]
    rcases Nat.lt_trichotomy low low' with hless | rfl | hgreater
    · rw [Nat.compare_eq_lt.2 hless, Nat.compare_eq_lt.2 (Nat.add_lt_add_right hless _)]
      rfl
    · rw [Nat.compare_eq_eq.2 rfl, Nat.compare_eq_eq.2 rfl]
      rfl
    · rw [Nat.compare_eq_gt.2 hgreater, Nat.compare_eq_gt.2 (Nat.add_lt_add_right hgreater _)]
      rfl
  · have hstep : modulus * (high' + 1) ≤ modulus * high := Nat.mul_le_mul_left modulus hgreater
    rw [Nat.mul_succ] at hstep
    have hsum : low' + modulus * high' < low + modulus * high := by omega
    rw [Nat.compare_eq_gt.2 hgreater, Nat.compare_eq_gt.2 hsum]
    rfl

namespace BitString

theorem trimZeros_concat (words : List (BitVec 64)) (word : BitVec 64) :
    trimZeros (words ++ [word]) = if word = 0 then trimZeros words else words ++ [word] := by
  have hconcat := List.rdropWhile_concat (· == 0) words word
  simp only [beq_iff_eq] at hconcat
  exact hconcat

/-- Without the zero words at the high end, words are the digits of their number. -/
theorem map_trimZeros (words : List (BitVec 64)) :
    (trimZeros words).map BitVec.toNat =
      Nat.digits (2 ^ 64) (Nat.ofDigits (2 ^ 64) (words.map BitVec.toNat)) := by
  -- Words are trimmed at the high end, so the induction takes them from there.
  induction words using List.reverseRecOn with
  | nil => exact (Nat.digits_zero _).symm
  | append_singleton words word ih =>
    rw [trimZeros_concat]
    split
    next hzero =>
      rw [ih, List.map_append, Nat.ofDigits_append, hzero]
      rfl
    next hsignificant =>
      refine (Nat.digits_ofDigits _ (by decide) _ ?_ ?_).symm
      · intro digit hdigit
        obtain ⟨source, -, rfl⟩ := List.mem_map.1 hdigit
        exact source.isLt
      · intro _
        simp only [List.map_append, List.map_singleton, List.getLast_append_singleton]
        exact fun hzero => hsignificant (BitVec.eq_of_toNat_eq hzero)

/-- Trimmed words are the same when they write the same number. -/
theorem trimZeros_eq_iff (left right : List (BitVec 64)) :
    trimZeros left = trimZeros right ↔
      Nat.ofDigits (2 ^ 64) (left.map BitVec.toNat) =
        Nat.ofDigits (2 ^ 64) (right.map BitVec.toNat) := by
  have hinjective := List.map_injective_iff.2 fun (x y : BitVec 64) => BitVec.eq_of_toNat_eq
  rw [← hinjective.eq_iff, map_trimZeros, map_trimZeros, Nat.digits_inj_iff]

section Values

variable {a b : BitString} (ha : a.Canonical) (hb : b.Canonical)

include hb

theorem value_eq_ofDigits : b.value = Nat.ofDigits (2 ^ 64) (b.words.map BitVec.toNat) := by
  apply Nat.eq_of_testBit_eq
  intro i
  rw [hb.testBit_value, hb.bit_eq_bitAt, testBit_ofDigits]

/-- The significant words are the digits of the value. -/
theorem map_significantWords :
    b.significantWords.map BitVec.toNat = Nat.digits (2 ^ 64) b.value := by
  rw [significantWords, map_trimZeros, value_eq_ofDigits hb]

/-- A word of a string is a digit of its value. -/
theorem toNat_word (j : Nat) : (b.word j).toNat = b.value / 2 ^ (64 * j) % 2 ^ 64 := by
  apply Nat.eq_of_testBit_eq
  intro k
  rw [BitVec.testBit_toNat, Nat.testBit_mod_two_pow, Nat.testBit_div_two_pow, hb.testBit_value, bit]
  by_cases hk : k < 64
  · have hplace : (k + 64 * j) / 64 = j := by omega
    have hwithin : (k + 64 * j) % 64 = k := by omega
    rw [hplace, hwithin, decide_eq_true hk, Bool.true_and]
  · rw [BitVec.getLsbD_of_ge _ _ (Nat.le_of_not_lt hk), decide_eq_false hk, Bool.false_and]

theorem hasValue_iff (n : BitVec 64) : b.hasValue n = true ↔ b.value = n.toNat := by
  rw [hasValue, beq_iff_eq, significantWords, trimZeros_eq_iff, ← value_eq_ofDigits hb,
    List.map_singleton, Nat.ofDigits_singleton]

include ha

theorem beq_iff_value_eq : (a == b) = true ↔ a.value = b.value := by
  change (a.significantWords == b.significantWords) = true ↔ _
  rw [beq_iff_eq, significantWords, significantWords, trimZeros_eq_iff, ← value_eq_ofDigits ha,
    ← value_eq_ofDigits hb]

/-- The words below one compare as the low parts of the values do. -/
theorem compareWords_eq (n : Nat) :
    compareWords a b n = compare (a.value % 2 ^ (64 * n)) (b.value % 2 ^ (64 * n)) := by
  induction n with
  | zero => rw [Nat.mul_zero, Nat.pow_zero, Nat.mod_one, Nat.mod_one]; rfl
  | succ n ih =>
    have hpos : 0 < 2 ^ (64 * n) := Nat.two_pow_pos (64 * n)
    rw [compareWords, ih, toNat_word ha, toNat_word hb, Nat.mul_succ, Nat.pow_add, Nat.mod_mul,
      Nat.mod_mul, compare_mul_add _ _ (Nat.mod_lt _ hpos) (Nat.mod_lt _ hpos)]

/-- Comparing two strings is comparing their values. -/
theorem compare_eq : compare a b = compare a.value b.value := by
  have hwords : 2 ^ max a.width b.width ≤ 2 ^ (64 * wordsFor (max a.width b.width)) := by
    apply Nat.pow_le_pow_right Nat.two_pos
    unfold wordsFor
    omega
  have hfits {s : BitString} (hwidth : s.width ≤ max a.width b.width) :
      s.value < 2 ^ (64 * wordsFor (max a.width b.width)) :=
    Nat.lt_of_lt_of_le s.value_lt
      (Nat.le_trans (Nat.pow_le_pow_right Nat.two_pos hwidth) hwords)
  have hleft := hfits (Nat.le_max_left a.width b.width)
  have hright := hfits (Nat.le_max_right a.width b.width)
  change compareWords a b (wordsFor (max a.width b.width)) = _
  rw [compareWords_eq ha hb, Nat.mod_eq_of_lt hleft, Nat.mod_eq_of_lt hright]

end Values

/-- Strings are compared by their values, whatever their widths and forms.  They are equal when
their values are, they are ordered as their values are, one word is compared with the value, and
what is hashed are the digits of the value, which equal strings share. -/
theorem compares_by_value {a b c : BitString} (ha : a.Reachable) (hb : b.Reachable)
    (hc : c.Reachable) :
    ((a == b) = true ↔ a.value = b.value) ∧
    (compare a b = compare a.value b.value ∧
      ((compare a b).isLE = true ∨ (compare b a).isLE = true) ∧
      ((compare a b).isLE = true → (compare b c).isLE = true → (compare a c).isLE = true) ∧
      (compare a b = .eq ↔ (a == b) = true)) ∧
    (∀ n : BitVec 64, a.hasValue n = true ↔ a.value = n.toNat) ∧
    (a.significantWords.map BitVec.toNat = Nat.digits (2 ^ 64) a.value ∧
      ((a == b) = true → a.significantWords = b.significantWords ∧ hash a = hash b)) := by
  have hequal := beq_iff_value_eq ha.canonical hb.canonical
  refine ⟨hequal, ⟨compare_eq ha.canonical hb.canonical, ?_, ?_, ?_⟩, hasValue_iff ha.canonical,
    map_significantWords ha.canonical, fun hsame => ?_⟩
  · rw [compare_eq ha.canonical hb.canonical, compare_eq hb.canonical ha.canonical,
      Nat.isLE_compare, Nat.isLE_compare]
    exact Nat.le_total a.value b.value
  · rw [compare_eq ha.canonical hb.canonical, compare_eq hb.canonical hc.canonical,
      compare_eq ha.canonical hc.canonical, Nat.isLE_compare, Nat.isLE_compare, Nat.isLE_compare]
    exact Nat.le_trans
  · rw [compare_eq ha.canonical hb.canonical, Nat.compare_eq_eq, hequal]
  · have hwords : a.significantWords = b.significantWords := beq_iff_eq.1 hsame
    refine ⟨hwords, ?_⟩
    change hash (a.significantWords.map BitVec.toNat) = hash (b.significantWords.map BitVec.toNat)
    rw [hwords]

/-- Five in four bits, five in a hundred, and five moved up past the first word. -/
theorem compares_by_value_across_forms :
    let narrow := ofDoubleword 4 5
    let wide := ofDoubleword 100 5
    let raised := wide.shiftLeft 70
    (narrow.Reachable ∧ wide.Reachable ∧ raised.Reachable) ∧
    narrow.isInline = true ∧ wide.isInline = false ∧
    (narrow == wide) = true ∧ hash narrow = hash wide ∧ narrow.hasValue 5 = true ∧
    compare narrow raised = .lt ∧ (compare wide raised).isLE = true := by
  intro narrow wide raised
  have hnarrow : narrow.Reachable := .ofDoubleword 4 5
  have hwide : wide.Reachable := .ofDoubleword 100 5
  have hraised : raised.Reachable := hwide.shiftLeft 70
  obtain ⟨hequal, -, hword, -, hshared⟩ := compares_by_value hnarrow hwide hraised
  obtain ⟨-, ⟨hless, -⟩, -⟩ := compares_by_value hnarrow hraised hwide
  have hsame : (narrow == wide) = true := hequal.2 (by decide +kernel)
  refine ⟨⟨hnarrow, hwide, hraised⟩, rfl, rfl, hsame, (hshared hsame).2,
    (hword 5).2 (by decide +kernel), hless.trans (by decide +kernel), ?_⟩
  obtain ⟨-, ⟨hordered, -⟩, -⟩ := compares_by_value hwide hraised hnarrow
  rw [hordered]
  decide +kernel

end BitString

end A64Machine
