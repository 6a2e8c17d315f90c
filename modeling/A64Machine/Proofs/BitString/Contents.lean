import Mathlib.Data.List.GetD
import Mathlib.Data.List.Rotate
import A64Machine.Proofs.BitString.Rotations

/-!
The list of the bits of a string.  Together with the proper form it says everything about a string,
and the operations that move bits about are operations on lists: concatenation appends, replication
repeats, rotation rotates.
-/

namespace A64Machine

/-- As many words with the same bits are the same words. -/
theorem eq_of_bitAt_eq {left right : List (BitVec 64)} (hlength : left.length = right.length)
    (hbits : ∀ i, bitAt left i = bitAt right i) : left = right := by
  apply List.ext_getElem hlength
  intro j hleft hright
  apply BitVec.eq_of_getLsbD_eq
  intro k hk
  have hplace : (64 * j + k) / 64 = j := by omega
  have hwithin : (64 * j + k) % 64 = k := by omega
  have hbit := hbits (64 * j + k)
  rwa [bitAt, bitAt, hplace, hwithin, List.getD_eq_getElem _ _ hleft,
    List.getD_eq_getElem _ _ hright] at hbit

namespace BitString

variable {b : BitString}

theorem length_bits (b : BitString) : b.bits.length = b.width := by
  rw [bits, List.length_map, List.length_range]

theorem getElem_bits {i : Nat} (hin : i < b.bits.length) : b.bits[i] = b.bit i := by
  simp only [bits, List.getElem_map, List.getElem_range]

/-- The bits that a rule says are the bits of the list. -/
theorem HasBits.bits_eq {width : Nat} {f : Nat → Bool} (hb : b.HasBits width f) :
    b.bits = (List.range width).map f := by
  rw [bits, hb.width_eq]
  apply List.map_congr_left
  intro i hi
  rw [hb.bit_eq, decide_eq_true (List.mem_range.1 hi), Bool.true_and]

/-- Strings of one width in their proper form differ in a bit if at all. -/
theorem Canonical.eq_of_bit_eq {a : BitString} (ha : a.Canonical) (hb : b.Canonical)
    (hwidth : a.width = b.width) (hbit : ∀ i, a.bit i = b.bit i) : a = b := by
  obtain ⟨width, store⟩ := a
  obtain ⟨width', store'⟩ := b
  obtain rfl : width = width' := hwidth
  -- The width decides the form, so that the mixed cases do not arise.
  cases store with
  | inline left =>
    cases store' with
    | inline right =>
      have hsame : left = right := by
        apply BitVec.eq_of_getLsbD_eq
        intro i _
        rw [← bit_inline width, ← bit_inline width, hbit]
      rw [hsame]
    | wide right => exact absurd (ha.inline_iff.1 rfl) (hb.wide rfl)
  | wide left =>
    cases store' with
    | inline right => exact absurd (hb.inline_iff.1 rfl) (ha.wide rfl)
    | wide right =>
      have hlength : left.length = right.length := by
        rw [ha.length_eq left rfl, hb.length_eq right rfl]
      rw [eq_of_bitAt_eq hlength hbit]

/-- Strings in their proper form are the same when their bits are. -/
theorem Canonical.eq_of_bits_eq {a : BitString} (ha : a.Canonical) (hb : b.Canonical)
    (hbits : a.bits = b.bits) : a = b := by
  have hwidth : a.width = b.width := by
    rw [← length_bits, hbits, length_bits]
  refine ha.eq_of_bit_eq hb hwidth fun i => ?_
  by_cases hin : i < a.width
  · have hleft : i < a.bits.length := by rwa [length_bits]
    have hright : i < b.bits.length := hbits ▸ hleft
    rw [← getElem_bits hleft, ← getElem_bits hright]
    simp only [hbits]
  · have hpast : a.width ≤ i := Nat.le_of_not_lt hin
    rw [ha.clear i hpast, hb.clear i (hwidth ▸ hpast)]

/-- Concatenation puts the bits of the low operand before those of the high one. -/
theorem bits_concat {high low : BitString} (hhigh : high.Canonical) (hlow : low.Canonical) :
    (high.concat low).bits = low.bits ++ high.bits := by
  rw [(hasBits_concat hhigh hlow).bits_eq, Nat.add_comm, List.range_add, List.map_append,
    List.map_map]
  congr 1
  · apply List.map_congr_left
    intro i hi
    rw [decide_eq_false (Nat.not_le.2 (List.mem_range.1 hi)), Bool.false_and, Bool.false_or]
  · apply List.map_congr_left
    intro i _
    have hpast : low.width ≤ low.width + i := Nat.le_add_right _ i
    rw [Function.comp_apply, decide_eq_true hpast, Bool.true_and, Nat.add_sub_cancel_left,
      hlow.clear _ hpast, Bool.or_false]

theorem bits_not (hcanonical : b.Canonical) : b.not.bits = b.bits.map (!·) := by
  rw [(hasBits_not hcanonical).bits_eq, bits, List.map_map]
  rfl

theorem bits_zeros (width : Nat) : (zeros width).bits = List.replicate width false := by
  rw [(hasBits_zeros width).bits_eq, List.map_const', List.length_range]

/-- Replication repeats the bits. -/
theorem bits_replicate (hcanonical : b.Canonical) (count : Nat) :
    (b.replicate count).bits = (List.replicate count b.bits).flatten := by
  induction count with
  | zero => exact bits_zeros 0
  | succ count ih =>
    have hcopies := (hasBits_replicate hcanonical count).canonical
    rw [replicate, bits_concat hcopies hcanonical, ih, List.replicate_succ, List.flatten_cons]

/-- A rotation to the right rotates the bits, which stand in the list from the lowest one on. -/
theorem bits_rotateRight (hcanonical : b.Canonical) (amount : Nat) :
    (b.rotateRight amount).bits = b.bits.rotate amount := by
  rw [(hasBits_rotateRight hcanonical amount).bits_eq]
  apply List.ext_getElem
  · rw [List.length_map, List.length_range, List.length_rotate, length_bits]
  · intro i _ hrotated
    rw [List.getElem_map, List.getElem_range, List.getElem_rotate, getElem_bits]
    simp only [length_bits]

end BitString

end A64Machine
