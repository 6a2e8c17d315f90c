import Mathlib.Data.Bool.Count
import Mathlib.Data.List.Count
import A64Machine.Proofs.BitString.Contents
import A64Machine.Proofs.BitString.Reachable

/-!
The number of set bits.  It is counted word by word and is the count in the list of bits, so that it
is kept by rotation, multiplied by replication, added up by concatenation and complemented by
inversion.
-/

namespace A64Machine

namespace BitString

/-- Places from which on nothing counts make no difference to a count. -/
theorem countP_range_of_le {p : Nat → Bool} {width n : Nat} (hle : width ≤ n)
    (hclear : ∀ i, width ≤ i → p i = false) :
    (List.range n).countP p = (List.range width).countP p := by
  have hnone : ((List.range (n - width)).map (width + ·)).countP p = 0 := by
    rw [List.countP_eq_zero]
    intro i hi
    obtain ⟨j, -, rfl⟩ := List.mem_map.1 hi
    rw [hclear _ (Nat.le_add_right width j)]
    exact Bool.false_ne_true
  rw [← Nat.add_sub_cancel' hle, List.range_add, List.countP_append, hnone, Nat.add_zero]

/-- Counting word by word counts the bits of all words. -/
theorem foldr_onesOf (words : List (BitVec 64)) :
    words.foldr (onesOf · + ·) 0 = (List.range (64 * words.length)).countP (bitAt words) := by
  induction words with
  | nil => rfl
  | cons word rest ih =>
    have hlow : (List.range 64).countP (bitAt (word :: rest)) = onesOf word := by
      apply List.countP_congr
      intro i hi
      have hbelow : ¬64 ≤ i := Nat.not_le.2 (List.mem_range.1 hi)
      rw [bitAt_cons, decide_eq_false hbelow, Bool.false_and, Bool.or_false]
    have hhigh : ((List.range (64 * rest.length)).map (64 + ·)).countP (bitAt (word :: rest)) =
        (List.range (64 * rest.length)).countP (bitAt rest) := by
      rw [List.countP_map]
      apply List.countP_congr
      intro i _
      have hpast : 64 ≤ 64 + i := Nat.le_add_right 64 i
      rw [Function.comp_apply, bitAt_cons, BitVec.getLsbD_of_ge word _ hpast, decide_eq_true hpast,
        Bool.true_and, Bool.false_or, Nat.add_sub_cancel_left]
    rw [List.foldr_cons, ih, List.length_cons, Nat.mul_succ, Nat.add_comm (64 * rest.length),
      List.range_add, List.countP_append, hlow, hhigh]

section Counting

variable {b : BitString} (hcanonical : b.Canonical)

theorem count_bits (b : BitString) : b.bits.count true = (List.range b.width).countP b.bit := by
  rw [bits, List.count, List.countP_map]
  apply List.countP_congr
  intro i _
  rw [Function.comp_apply, beq_true]

include hcanonical

/-- The number of set bits is their count in the list of bits, whichever form the string has. -/
theorem countOnes_eq_count : b.countOnes = b.bits.count true := by
  rw [count_bits]
  obtain ⟨width, bits | words⟩ := b
  · have hnarrow : width ≤ 64 := hcanonical.inline_iff.1 rfl
    have hbit : bit ⟨width, .inline bits⟩ = bits.getLsbD := funext (bit_inline width bits)
    have hclear := hcanonical.clear
    rw [hbit] at hclear ⊢
    exact countP_range_of_le hnarrow hclear
  · have hroom : width ≤ 64 * words.length := by
      rw [hcanonical.length_eq words rfl, wordsFor]
      change width ≤ 64 * ((width + 63) / 64)
      omega
    have hbit : bit ⟨width, .wide words⟩ = bitAt words := funext (bit_wide width words)
    have hclear := hcanonical.clear
    rw [hbit] at hclear ⊢
    exact (foldr_onesOf words).trans (countP_range_of_le hroom hclear)

theorem countOnes_le : b.countOnes ≤ b.width := by
  rw [countOnes_eq_count hcanonical, ← length_bits]
  exact List.count_le_length

theorem countOnes_rotateRight (amount : Nat) : (b.rotateRight amount).countOnes = b.countOnes := by
  have hrotated := (hasBits_rotateRight hcanonical amount).canonical
  rw [countOnes_eq_count hrotated, bits_rotateRight hcanonical, countOnes_eq_count hcanonical]
  exact (List.rotate_perm b.bits amount).count_eq true

theorem countOnes_replicate (count : Nat) :
    (b.replicate count).countOnes = count * b.countOnes := by
  have hcopies := (hasBits_replicate hcanonical count).canonical
  rw [countOnes_eq_count hcopies, bits_replicate hcanonical, countOnes_eq_count hcanonical,
    List.count_flatten, List.map_replicate, List.sum_replicate_nat]

theorem countOnes_concat {low : BitString} (hlow : low.Canonical) :
    (b.concat low).countOnes = b.countOnes + low.countOnes := by
  have hboth := (hasBits_concat hcanonical hlow).canonical
  rw [countOnes_eq_count hboth, bits_concat hcanonical hlow, countOnes_eq_count hcanonical,
    countOnes_eq_count hlow, List.count_append, Nat.add_comm]

theorem countOnes_not : b.not.countOnes = b.width - b.countOnes := by
  have hinverted := (hasBits_not hcanonical).canonical
  have hzeros : (b.bits.map (!·)).count true = b.bits.count false :=
    List.count_map_of_injective b.bits (!·) (fun _ _ => Bool.not_inj) false
  have hboth := List.count_not_add_count b.bits true
  rw [length_bits, Bool.not_true] at hboth
  rw [countOnes_eq_count hinverted, bits_not hcanonical, countOnes_eq_count hcanonical, hzeros]
  omega

end Counting

theorem onesOf_eq_zero_iff (word : BitVec 64) : onesOf word = 0 ↔ word = 0 := by
  rw [onesOf, List.countP_eq_zero]
  constructor
  · intro hclear
    apply BitVec.eq_of_getLsbD_eq
    intro i hi
    rw [Bool.eq_false_iff.2 (hclear i (List.mem_range.2 hi))]
    exact BitVec.getLsbD_zero.symm
  · rintro rfl i _
    rw [show (0 : BitVec 64).getLsbD i = false from BitVec.getLsbD_zero]
    exact Bool.false_ne_true

/-- A bit is set when some are counted. -/
theorem any_eq (b : BitString) : b.any = decide (0 < b.countOnes) := by
  obtain ⟨width, bits | words⟩ := b
  · have hzero := onesOf_eq_zero_iff bits
    simp only [any, countOnes, Nat.pos_iff_ne_zero, ne_eq, hzero, decide_not]
    rfl
  · change words.any (· != 0) = decide (0 < words.foldr (onesOf · + ·) 0)
    induction words with
    | nil => rfl
    | cons word rest ih =>
      have hzero := onesOf_eq_zero_iff word
      rw [List.any_cons, ih, List.foldr_cons, Bool.eq_iff_iff]
      simp only [Bool.or_eq_true, bne_iff_ne, ne_eq, ← hzero, decide_eq_true_iff]
      omega

theorem none_eq (b : BitString) : b.none = decide (b.countOnes = 0) := by
  rw [none, any_eq, ← decide_not, decide_eq_decide]
  exact Nat.not_lt.trans Nat.le_zero

section Rotations

variable {b : BitString} (hcanonical : b.Canonical)

include hcanonical

theorem rotateRight_rotateRight (first second : Nat) :
    (b.rotateRight first).rotateRight second = b.rotateRight (first + second) := by
  have hfirst := (hasBits_rotateRight hcanonical first).canonical
  apply (hasBits_rotateRight hfirst second).canonical.eq_of_bits_eq
    (hasBits_rotateRight hcanonical (first + second)).canonical
  rw [bits_rotateRight hfirst, bits_rotateRight hcanonical, bits_rotateRight hcanonical,
    List.rotate_rotate]

theorem rotateRight_width : b.rotateRight b.width = b := by
  apply (hasBits_rotateRight hcanonical b.width).canonical.eq_of_bits_eq hcanonical
  rw [bits_rotateRight hcanonical, ← length_bits, List.rotate_length]

end Rotations

/-- Rotation, replication and population.  Rotation takes bit `i` from bit `i + amount` around the
width, so that amounts add up and the width is no rotation at all; replication repeats the bits.
The set bits are as many after a rotation, a multiple of them after a replication, the sum for a
concatenation and the rest of the width for the inverse, and their number decides whether all, some
or none of the bits are set.  These are rules about bits, for operands and results in either form:
the bits of a string determine it, its form included. -/
theorem rotation_replication_population {b : BitString} (hb : b.Reachable) :
    ((∀ amount, (b.rotateRight amount).HasBits b.width fun i => b.bit ((i + amount) % b.width)) ∧
      (∀ first second,
        (b.rotateRight first).rotateRight second = b.rotateRight (first + second)) ∧
      b.rotateRight b.width = b) ∧
    (∀ count, (b.replicate count).HasBits (count * b.width) fun i => b.bit (i % b.width)) ∧
    (b.countOnes = b.bits.count true ∧ b.countOnes ≤ b.width ∧
      (∀ amount, (b.rotateRight amount).countOnes = b.countOnes) ∧
      (∀ count, (b.replicate count).countOnes = count * b.countOnes) ∧
      (∀ low : BitString, low.Reachable →
        (b.concat low).countOnes = b.countOnes + low.countOnes) ∧
      b.not.countOnes = b.width - b.countOnes) ∧
    (b.all = decide (b.countOnes = b.width) ∧ b.any = decide (0 < b.countOnes) ∧
      b.none = decide (b.countOnes = 0)) ∧
    ((b.isInline = true ↔ b.width ≤ inlineWidth) ∧
      ∀ other : BitString, other.Reachable → other.bits = b.bits → other = b) := by
  have hcanonical := hb.canonical
  refine ⟨⟨hasBits_rotateRight hcanonical, rotateRight_rotateRight hcanonical,
    rotateRight_width hcanonical⟩, hasBits_replicate hcanonical, ⟨countOnes_eq_count hcanonical,
    countOnes_le hcanonical, countOnes_rotateRight hcanonical, countOnes_replicate hcanonical,
    fun low hlow => countOnes_concat hcanonical hlow.canonical, countOnes_not hcanonical⟩,
    ⟨?_, any_eq b, none_eq b⟩, hcanonical.inline_iff,
    fun other hother => hother.canonical.eq_of_bits_eq hcanonical⟩
  rw [all, Bool.eq_iff_iff, beq_iff_eq, decide_eq_true_iff]

/-- Two copies of forty bits do not fit in one word; one copy and its rotations do. -/
theorem rotation_replication_population_across_words :
    let element := ofDoubleword 40 0x8000000003
    let pair := element.replicate 2
    element.Reachable ∧ element.isInline = true ∧ pair.isInline = false ∧
    element.rotateRight 43 = element.rotateRight 3 ∧ pair.rotateRight 80 = pair ∧
    pair.countOnes = 6 ∧ (pair.rotateRight 65).countOnes = 6 ∧
    (element.concat pair).countOnes = 9 ∧ pair.not.countOnes = 74 ∧
    pair.bit 79 = true ∧ (pair.rotateRight 65).bit 14 = true := by
  intro element pair
  have helement : element.Reachable := .ofDoubleword 40 0x8000000003
  have hpair : pair.Reachable := helement.replicate 2
  have hthree : element.countOnes = 3 := by decide +kernel
  obtain ⟨⟨-, hadds, hwhole⟩, hcopies, ⟨-, -, -, hcopied, hjoined, -⟩, -⟩ :=
    rotation_replication_population helement
  obtain ⟨⟨hturned, -, hround⟩, -, ⟨-, -, hkept, -, -, hinverted⟩, -⟩ :=
    rotation_replication_population hpair
  have hwidth : pair.width = 80 := (hcopies 2).width_eq
  have hsix : pair.countOnes = 6 := by rw [hcopied, hthree]
  have htop : pair.bit 79 = true := by
    rw [(hcopies 2).bit_eq]
    decide +kernel
  refine ⟨helement, rfl, by decide +kernel, ?_, hwidth ▸ hround, hsix, (hkept 65).trans hsix, ?_,
    ?_, htop, ?_⟩
  · rw [← hadds 40 3]
    exact congrArg (rotateRight · 3) hwhole
  · rw [hjoined pair hpair, hthree, hsix]
  · rw [hinverted, hwidth, hsix]
  · rw [(hturned 65).bit_eq, hwidth]
    exact htop

end BitString

end A64Machine
