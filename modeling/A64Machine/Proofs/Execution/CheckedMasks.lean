import A64Machine.Proofs.Execution.CheckedArithmetic

/-!
The bit masks of immediates, computed step by step in checked arithmetic.
-/

namespace A64Machine

namespace Checked

/-- A shift to the left of the bits of a string that is kept in one word. -/
def shiftWordLeft (value : Doubleword) (amount : Nat) : Except Stop Doubleword :=
  if 64 ≤ amount then pure 0 else shiftLeft value amount

/-- A shift to the right of the bits of a string that is kept in one word. -/
def shiftWordRight (value : Doubleword) (amount : Nat) : Except Stop Doubleword :=
  if 64 ≤ amount then pure 0 else shiftRight value amount

/-- The bits of an element of the given size, rotated to the right. -/
def rotated (size : Nat) (element : Doubleword) (amount : Nat) : Except Stop Doubleword :=
  if size = 0 then pure element
  else do
    let amount ← remainder amount size
    if amount = 0 then pure element
    else do
      let mask ← ones size
      let low ← shiftWordRight element amount
      let back ← difference size amount
      let high ← shiftWordLeft element back
      pure (low &&& mask ||| high &&& mask)

/-- The width and the bits of an element repeated a number of times. -/
def replicated (size : Nat) (element : Doubleword) : Nat → Except Stop (Nat × Doubleword)
  | 0 => pure (0, 0)
  | count + 1 => do
    let (width, value) ← replicated size element count
    let width ← sum UInt64.size width size
    let raised ← shiftWordLeft value size
    let mask ← ones width
    pure (width, (raised ||| element) &&& mask)

/-- The bits of a string of the given width, unless they do not fit in one word. -/
def oneWord : Nat × Doubleword → Except Stop Doubleword
  | (width, value) => if 64 < width then throw (.fault .undefinedInstruction) else pure value

/-- The two masks of elements with `s + 1` ones, rotated by `r`, and with `d + 1` ones. -/
def elementMasks (length s r d : Nat) (width : OperandWidth) :
    Except Stop (Doubleword × Doubleword) := do
  let esize ← shiftLeft 1#64 length
  let size := esize.toNat
  let copies ← quotient width.bits size
  let mask ← ones size
  let first ← ones (← sum UInt32.size s 1)
  let second ← ones (← sum UInt32.size d 1)
  let turned ← rotated size (first &&& mask) r
  let wmask ← oneWord (← replicated size turned copies)
  let tmask ← oneWord (← replicated size (second &&& mask) copies)
  pure (wmask, tmask)

/-- The two masks that fields of an instruction encode. -/
def bitMasks (n : Bool) (imms immr : Word) (immediate : Bool) (width : OperandWidth) :
    Except Stop (Doubleword × Doubleword) := do
  let high ← shiftLeft ((BitVec.ofBool n).setWidth 32) 6
  let combined := high ||| (~~~imms &&& 0x3F#32)
  if combined = 0 then throw (.fault .undefinedInstruction)
  else do
    let length ← difference 31 combined.clz.toNat
    let size ← shiftLeft 1#32 length
    if length < 1 ∨ width.bits < size.toNat then throw (.fault .undefinedInstruction)
    else do
      let levels ← below 32 length
      if immediate ∧ imms &&& levels = levels then throw (.fault .undefinedInstruction)
      else do
        let s := imms &&& levels
        let r := immr &&& levels
        let d := (s - r) &&& levels
        elementMasks length s.toNat r.toNat d.toNat width

section Elements

variable {size : Nat} (hsize : size ≤ 64) (hpositive : 0 < size) (x : BitVec size)

include hsize hpositive

theorem rotated_eq (amount : Nat) :
    rotated size (x.setWidth 64) amount = pure ((x.rotateRight amount).setWidth 64) := by
  have hamount := Nat.mod_lt amount hpositive
  have hmod := rotateRight_mod x amount
  rw [rotated, if_neg (Nat.ne_of_gt hpositive), remainder_eq (Nat.ne_of_gt hpositive), pure_bind]
  split
  next hzero =>
    have hsame : x.rotateRight (amount % size) = x := apply_zero .ror x hzero
    rw [← hmod, hsame]
  next hsome =>
    have hlow : ¬64 ≤ amount % size := by omega
    have hback : ¬64 ≤ size - amount % size := by omega
    have hmasks (y z mask : Doubleword) : y &&& mask ||| z &&& mask = (y ||| z) &&& mask := by
      ext i
      simp [Bool.and_or_distrib_right]
    rw [ones_eq, pure_bind, shiftWordRight, if_neg hlow, shiftRight_eq _ (by omega), pure_bind,
      difference_eq (Nat.le_of_lt hamount), pure_bind, shiftWordLeft, if_neg hback,
      shiftLeft_eq _ (by omega), pure_bind, hmasks, and_lowOnes, rotateRight_low hsize x hamount,
      hmod]

theorem replicated_eq (count : Nat) (hcount : size * count ≤ 64) :
    replicated size (x.setWidth 64) count =
      pure (size * count, (x.replicate count).setWidth 64) := by
  induction count with
  | zero =>
    have hnone : (x.replicate 0).setWidth 64 = 0 := by
      apply BitVec.eq_of_getLsbD_eq
      intro i hi
      simp
    rw [replicated, hnone, Nat.mul_zero]
  | succ count ih =>
    have hwidth : size * count + size = size * (count + 1) := (Nat.mul_succ size count).symm
    have hlimit : size * count + size < UInt64.size := by
      have hword : 64 < UInt64.size := by decide
      omega
    have hraised : shiftWordLeft ((x.replicate count).setWidth 64) size =
        pure ((x.replicate count).setWidth 64 <<< size) := by
      unfold shiftWordLeft
      split
      next hwhole =>
        rw [BitVec.shiftLeft_eq_zero hwhole]
        rfl
      next hpart => exact shiftLeft_eq _ (by omega)
    rw [replicated, ih (by omega), pure_bind]
    dsimp only
    rw [sum_eq hlimit, pure_bind, hraised, pure_bind, ones_eq, pure_bind, hwidth]
    congr 2
    apply BitVec.eq_of_getLsbD_eq
    intro i hi
    simp only [BitVec.getLsbD_and, BitVec.getLsbD_or, BitVec.getLsbD_shiftLeft,
      BitVec.getLsbD_setWidth, BitVec.getLsbD_replicate, getLsbD_lowOnes, hi, decide_true,
      Bool.true_and, true_and]
    by_cases hlow : i < size
    · have hmod : i % size = i := Nat.mod_eq_of_lt hlow
      simp [hlow, hmod, Bool.and_comm]
    · have hmod : (i - size) % size = i % size := (Nat.mod_eq_sub_mod (by omega)).symm
      have hinside : (i - size < size * count) = (i < size * (count + 1)) := by
        rw [eq_iff_iff]
        omega
      have hplace : i - size < 64 := by omega
      have hpast : x.getLsbD i = false := BitVec.getLsbD_of_ge x i (by omega)
      simp only [hlow, hmod, hinside, hplace, hpast, decide_true, decide_false, Bool.not_false,
        Bool.true_and, Bool.or_false]
      cases decide (i < size * (count + 1)) <;> simp

end Elements

/-- The selector of the element size, and its highest bit. -/
theorem selector_eq : ∀ (n : Bool) (imms : BitVec 6),
    ((BitVec.ofBool n).setWidth 32 <<< 6 ||| (~~~(imms.setWidth 32) &&& 0x3F#32)).toNat =
        64 * n.toNat + (63 - imms.toNat % 64) ∧
      (64 * n.toNat + (63 - imms.toNat % 64) ≠ 0 →
        ((BitVec.ofBool n).setWidth 32 <<< 6 ||| (~~~(imms.setWidth 32) &&& 0x3F#32)).clz.toNat =
          31 - (64 * n.toNat + (63 - imms.toNat % 64)).log2) ∧
      (64 * n.toNat + (63 - imms.toNat % 64)).log2 ≤ 6 := by
  decide +kernel

theorem elementSize_pos (length : Nat) : 0 < 1 <<< length := by
  rw [Nat.one_shiftLeft]
  exact Nat.two_pow_pos length

section Levels

variable {length : Nat} (hlength : length ≤ 6)

include hlength

theorem elementSize_le : 1 <<< length ≤ 64 := by
  rw [Nat.one_shiftLeft]
  exact Nat.pow_le_pow_right (by decide) hlength

theorem toNat_power {w : Nat} (hw : 32 ≤ w) : (1#w <<< length).toNat = 1 <<< length := by
  rw [← BitVec.twoPow_eq, BitVec.toNat_twoPow, Nat.one_shiftLeft, Nat.mod_eq_of_lt]
  exact Nat.pow_lt_pow_right Nat.one_lt_two (by omega)

/-- The levels keep the remainder by the element size. -/
theorem toNat_and_levels (value : Word) :
    (value &&& lowOnes 32 length).toNat = value.toNat % (1 <<< length) := by
  rw [Nat.one_shiftLeft, ← Nat.and_two_pow_sub_one_eq_mod, BitVec.toNat_and]
  congr 1
  rw [lowOnes, if_neg (by omega), BitVec.toNat_setWidth_of_le (by omega), BitVec.toNat_allOnes]

theorem levels_toNat : (lowOnes 32 length).toNat = 1 <<< length - 1 := by
  rw [lowOnes, if_neg (by omega), BitVec.toNat_setWidth_of_le (by omega), BitVec.toNat_allOnes,
    Nat.one_shiftLeft]

theorem toNat_low (value : BitVec 6) :
    (value.setWidth 32 &&& lowOnes 32 length).toNat = value.toNat % 1 <<< length := by
  rw [toNat_and_levels hlength, BitVec.toNat_setWidth_of_le (by decide)]

theorem levels_full_iff (value : BitVec 6) :
    value.setWidth 32 &&& lowOnes 32 length = lowOnes 32 length ↔
      value.toNat % 1 <<< length = 1 <<< length - 1 := by
  rw [← BitVec.toNat_inj, toNat_low hlength, levels_toNat hlength]

/-- The difference of two remainders, taken modulo the element size. -/
theorem toNat_difference {s r : Word} (hs : s.toNat < 1 <<< length) (hr : r.toNat < 1 <<< length) :
    ((s - r) &&& lowOnes 32 length).toNat =
      (s.toNat + 1 <<< length - r.toNat) % (1 <<< length) := by
  rw [toNat_and_levels hlength, BitVec.toNat_sub]
  -- The modulus has to be a numeral before the two sides can be compared.
  have hcases : length = 0 ∨ length = 1 ∨ length = 2 ∨ length = 3 ∨ length = 4 ∨ length = 5 ∨
      length = 6 := by omega
  rcases hcases with rfl | rfl | rfl | rfl | rfl | rfl | rfl <;>
    simp only [Nat.reduceShiftLeft, Nat.reducePow] at hs hr ⊢ <;> omega

end Levels

/-- The ones of an element. -/
theorem ones_and_mask (count size : Nat) (hsize : size ≤ 64) :
    lowOnes 64 count &&& lowOnes 64 size = (lowOnes size count).setWidth 64 := by
  rw [and_lowOnes]
  congr 1
  apply BitVec.eq_of_getLsbD_eq
  intro i hi
  have hwide : i < 64 := by omega
  simp only [BitVec.getLsbD_setWidth, getLsbD_lowOnes, hi, hwide, true_and, decide_true,
    Bool.true_and]

/-- An element that is turned and repeated over a width. -/
theorem mask_eq {size : Nat} (hsize : size ≤ 64) (hpositive : 0 < size) (x : BitVec size)
    {width : Nat} (hwidth : width ≤ 64) :
    (do oneWord (← replicated size (x.setWidth 64) (width / size))) =
      pure (((x.replicate (width / size)).setWidth width).setWidth 64) := by
  have htotal : size * (width / size) ≤ width := Nat.mul_div_le width size
  rw [replicated_eq hsize hpositive x _ (by omega), pure_bind, oneWord, if_neg (by omega)]
  congr 1
  apply BitVec.eq_of_toNat_eq
  rw [BitVec.toNat_setWidth_of_le (by omega), BitVec.toNat_setWidth_of_le hwidth,
    BitVec.toNat_setWidth_of_le htotal]

/-- The checked computation ends with the masks of the elements. -/
theorem elementMasks_eq {length s r d : Nat} (hlength : length ≤ 6) (hs : s < 64) (hd : d < 64)
    (width : OperandWidth) :
    elementMasks length s r d width = pure
      ((((((lowOnes (1 <<< length) (s + 1)).rotateRight r).replicate
          (width.bits / 1 <<< length)).setWidth width.bits).setWidth 64),
        (((lowOnes (1 <<< length) (d + 1)).replicate
          (width.bits / 1 <<< length)).setWidth width.bits).setWidth 64) := by
  have hwidth := bits_le_64 width
  have hpositive := elementSize_pos length
  have hsize := elementSize_le hlength
  have hlimit (count : Nat) (hcount : count < 64) : count + 1 < UInt32.size := by
    have hword : 65 < UInt32.size := by decide
    omega
  rw [elementMasks, shiftLeft_eq _ (by omega), pure_bind]
  dsimp only
  rw [toNat_power hlength (by decide), quotient_eq (Nat.ne_of_gt hpositive), pure_bind, ones_eq,
    pure_bind, sum_eq (hlimit s hs), pure_bind, ones_eq, pure_bind, sum_eq (hlimit d hd), pure_bind,
    ones_eq, pure_bind, ones_and_mask _ _ hsize, ones_and_mask _ _ hsize,
    rotated_eq hsize hpositive, pure_bind]
  generalize (lowOnes (1 <<< length) (s + 1)).rotateRight r = first
  generalize lowOnes (1 <<< length) (d + 1) = second
  have hfirst := mask_eq hsize hpositive first hwidth
  have hsecond := mask_eq hsize hpositive second hwidth
  rw [← bind_assoc, hfirst, pure_bind, ← bind_assoc, hsecond, pure_bind]

/-- The fields of an instruction encode the masks that the checked computation ends with. -/
theorem bitMasks_eq (n : Bool) (imms immr : BitVec 6) (immediate : Bool) (width : OperandWidth) :
    bitMasks n (imms.setWidth 32) (immr.setWidth 32) immediate width =
      match bitMasks? width.bits n imms.toNat immr.toNat immediate with
      | some masks => pure (masks.1.setWidth 64, masks.2.setWidth 64)
      | none => throw (.fault .undefinedInstruction) := by
  rcases selector_eq n imms with ⟨hselector, hzeros, hlength⟩
  unfold bitMasks bitMasks?
  rw [shiftLeft_eq _ (by decide), pure_bind]
  dsimp only
  generalize (BitVec.ofBool n).setWidth 32 <<< 6 ||| (~~~(imms.setWidth 32) &&& 0x3F#32) = combined
    at *
  generalize 64 * n.toNat + (63 - imms.toNat % 64) = selector at *
  generalize selector.log2 = length at *
  by_cases hnone : selector = 0
  · have hzero : combined = 0 := BitVec.eq_of_toNat_eq (hselector.trans hnone)
    rw [if_pos hzero, if_pos (.inl hnone)]
  have hsome : ¬combined = 0 := by
    rintro rfl
    exact hnone hselector.symm
  have hdifference : difference 31 combined.clz.toNat = pure length := by
    rw [hzeros hnone, difference_eq (Nat.sub_le 31 length), Nat.sub_sub_self (by omega)]
  rw [if_neg hsome, hdifference, pure_bind, shiftLeft_eq _ (by omega), pure_bind,
    toNat_power hlength (by decide)]
  -- An element of one bit is reserved, and so is one that is wider than the operands.
  have hshort : 1 <<< length < 2 ↔ length < 1 := by
    rw [Nat.one_shiftLeft]
    exact Nat.pow_lt_pow_iff_right (m := 1) Nat.one_lt_two
  by_cases hreserved : length < 1 ∨ width.bits < 1 <<< length
  · have hrefused : selector = 0 ∨ 1 <<< length < 2 ∨ width.bits < 1 <<< length := by
      rw [hshort]
      exact .inr hreserved
    rw [if_pos hreserved, if_pos hrefused]
  have hadmitted : ¬(selector = 0 ∨ 1 <<< length < 2 ∨ width.bits < 1 <<< length) := by
    rw [hshort]
    rintro (hzero | hbad)
    · exact hnone hzero
    · exact hreserved hbad
  rw [if_neg hreserved, if_neg hadmitted, below_eq (by omega), pure_bind]
  simp only [levels_full_iff hlength]
  by_cases hones : immediate ∧ imms.toNat % 1 <<< length = 1 <<< length - 1
  · rw [if_pos hones, if_pos hones]
  have hsize := elementSize_le hlength
  have hbelow (value : Nat) : value % 1 <<< length < 1 <<< length :=
    Nat.mod_lt value (elementSize_pos length)
  have hs := hbelow imms.toNat
  have hr := hbelow immr.toNat
  have hd := hbelow (imms.toNat % 1 <<< length + 1 <<< length - immr.toNat % 1 <<< length)
  rw [if_neg hones, if_neg hones, toNat_difference hlength
    (by rwa [toNat_low hlength]) (by rwa [toNat_low hlength]), toNat_low hlength,
    toNat_low hlength]
  exact elementMasks_eq hlength (by omega) (by omega) width

end Checked

end A64Machine
