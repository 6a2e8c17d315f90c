import A64Machine.Arithmetic
import A64Machine.Encoding.Field
import A64Machine.Fault
import A64Machine.Memory.Contract

/-!
Arithmetic on numbers of fixed widths in which an operation without an answer stops the
computation: a sum, difference or product that does not fit, a shift by the width or more, a
division by zero, an index past the end.  The helpers of the instruction set, computed step by step
with these operations, never stop there and give what their definitions say.
-/

namespace A64Machine

/-- An operation on numbers of a fixed width that has no answer. -/
inductive Trap where
  | sum | difference | product | quotient | shift | index
  deriving Repr, DecidableEq

/-- Why a checked computation stops: with a fault of the instruction, in an operation without an
answer, or because a memory was used against its contract. -/
inductive Stop where
  | fault (cause : FaultCode)
  | trap (cause : Trap)
  | violation (cause : Violation)
  deriving Repr, DecidableEq

namespace Checked

/-- The sum of two numbers below `limit`. -/
def sum (limit x y : Nat) : Except Stop Nat :=
  if x + y < limit then pure (x + y) else throw (.trap .sum)

/-- The difference of two numbers without a sign. -/
def difference (x y : Nat) : Except Stop Nat :=
  if y ≤ x then pure (x - y) else throw (.trap .difference)

/-- The product of two numbers below `limit`. -/
def product (limit x y : Nat) : Except Stop Nat :=
  if x * y < limit then pure (x * y) else throw (.trap .product)

def quotient (x y : Nat) : Except Stop Nat :=
  if y = 0 then throw (.trap .quotient) else pure (x / y)

def remainder (x y : Nat) : Except Stop Nat :=
  if y = 0 then throw (.trap .quotient) else pure (x % y)

def elementAt {α : Type} (list : List α) (place : Nat) : Except Stop α :=
  match list[place]? with
  | some element => pure element
  | none => throw (.trap .index)

section Words

variable {w : Nat}

/-- The sum of two values without a sign. -/
def add (x y : BitVec w) : Except Stop (BitVec w) :=
  if x.uaddOverflow y then throw (.trap .sum) else pure (x + y)

/-- The sum of two values with a sign. -/
def addSigned (x y : BitVec w) : Except Stop (BitVec w) :=
  if x.saddOverflow y then throw (.trap .sum) else pure (x + y)

def subtract (x y : BitVec w) : Except Stop (BitVec w) :=
  if x.usubOverflow y then throw (.trap .difference) else pure (x - y)

def shiftLeft (x : BitVec w) (amount : Nat) : Except Stop (BitVec w) :=
  if amount < w then pure (x <<< amount) else throw (.trap .shift)

/-- A shift to the right that brings in zeros. -/
def shiftRight (x : BitVec w) (amount : Nat) : Except Stop (BitVec w) :=
  if amount < w then pure (x >>> amount) else throw (.trap .shift)

/-- A shift to the right that brings in copies of the sign. -/
def shiftRightSigned (x : BitVec w) (amount : Nat) : Except Stop (BitVec w) :=
  if amount < w then pure (x.sshiftRight amount) else throw (.trap .shift)

/-- The quotient of two values with a sign, wrapped around. -/
def quotientSigned (x y : BitVec w) : Except Stop (BitVec w) :=
  if y = 0 then throw (.trap .quotient) else pure (x.sdiv y)

end Words

section Operations

variable {limit x y : Nat}

theorem sum_eq (hfits : x + y < limit) : sum limit x y = pure (x + y) := if_pos hfits

theorem difference_eq (hle : y ≤ x) : difference x y = pure (x - y) := if_pos hle

theorem product_eq (hfits : x * y < limit) : product limit x y = pure (x * y) := if_pos hfits

theorem quotient_eq (hy : y ≠ 0) : quotient x y = pure (x / y) := if_neg hy

theorem remainder_eq (hy : y ≠ 0) : remainder x y = pure (x % y) := if_neg hy

variable {w amount : Nat}

theorem shiftLeft_eq (value : BitVec w) (hamount : amount < w) :
    shiftLeft value amount = pure (value <<< amount) := if_pos hamount

theorem shiftRight_eq (value : BitVec w) (hamount : amount < w) :
    shiftRight value amount = pure (value >>> amount) := if_pos hamount

theorem shiftRightSigned_eq (value : BitVec w) (hamount : amount < w) :
    shiftRightSigned value amount = pure (value.sshiftRight amount) := if_pos hamount

theorem subtract_eq {value other : BitVec w} (hle : other.toNat ≤ value.toNat) :
    subtract value other = pure (value - other) := by
  rw [subtract, if_neg]
  simpa [BitVec.usubOverflow] using hle

end Operations

/-- A power of two less one, as a value of width `w`. -/
def below (w count : Nat) : Except Stop (BitVec w) := do
  let power ← shiftLeft 1#w count
  subtract power 1#w

theorem below_eq {w count : Nat} (hcount : count < w) : below w count = pure (lowOnes w count) := by
  have hpower : (1#w <<< count).toNat = 2 ^ count := by
    rw [← BitVec.twoPow_eq, BitVec.toNat_twoPow,
      Nat.mod_eq_of_lt (Nat.pow_lt_pow_right Nat.one_lt_two hcount)]
  have hpositive : 0 < 2 ^ count := Nat.two_pow_pos count
  have hone : (1#w).toNat = 1 := BitVec.toNat_one (by omega)
  have hle : (1#w).toNat ≤ (1#w <<< count).toNat := by omega
  rw [below, shiftLeft_eq _ hcount, pure_bind, subtract_eq hle]
  congr 1
  apply BitVec.eq_of_getLsbD_eq
  intro i hi
  rw [getLsbD_lowOnes, BitVec.getLsbD, BitVec.toNat_sub_of_le hle, hpower, hone,
    Nat.testBit_two_pow_sub_one]
  simp [hi]

/-- The value with its low `count` bits set. -/
def ones (count : Nat) : Except Stop Doubleword :=
  if 64 ≤ count then pure (BitVec.allOnes 64) else below 64 count

theorem ones_eq (count : Nat) : ones count = pure (lowOnes 64 count) := by
  unfold ones
  split
  next hall => rw [lowOnes, if_pos hall]
  next hsome => exact below_eq (Nat.lt_of_not_le hsome)

theorem bits_le_64 (width : OperandWidth) : width.bits ≤ 64 := by
  cases width <;> decide

theorem bits_pos (width : OperandWidth) : 0 < width.bits := by
  cases width <;> decide

theorem setWidth_beq_zero {w : Nat} (hw : w ≤ 64) (value : BitVec w) :
    (value.setWidth 64 == 0) = (value == 0) := by
  rw [Bool.eq_iff_iff, beq_iff_eq, beq_iff_eq, ← BitVec.toNat_inj, ← BitVec.toNat_inj,
    BitVec.toNat_setWidth_of_le hw]
  rfl

def truncate (width : OperandWidth) (value : Doubleword) : Except Stop Doubleword := do
  let mask ← ones width.bits
  pure (value &&& mask)

theorem and_lowOnes (value : Doubleword) (count : Nat) :
    value &&& lowOnes 64 count = (value.setWidth count).setWidth 64 := by
  apply BitVec.eq_of_getLsbD_eq
  intro i hi
  simp only [BitVec.getLsbD_and, getLsbD_lowOnes, BitVec.getLsbD_setWidth, hi, decide_true,
    Bool.true_and, true_and]
  exact Bool.and_comm _ _

theorem truncate_eq (width : OperandWidth) (value : Doubleword) :
    truncate width value = pure ((value.setWidth width.bits).setWidth 64) := by
  rw [truncate, ones_eq, pure_bind, and_lowOnes]

def bits (word : Word) (offset width : Nat) : Except Stop Word := do
  let shifted ← shiftRight word offset
  let mask ← below 32 width
  pure (shifted &&& mask)

theorem bits_eq (word : Word) {offset width : Nat} (hoffset : offset < 32) (hwidth : width < 32) :
    bits word offset width = pure ((word.extractLsb' offset width).setWidth 32) := by
  rw [bits, shiftRight_eq word hoffset, pure_bind, below_eq hwidth, pure_bind]
  congr 1
  apply BitVec.eq_of_getLsbD_eq
  intro i hi
  simp only [BitVec.getLsbD_and, BitVec.getLsbD_ushiftRight, getLsbD_lowOnes,
    BitVec.getLsbD_setWidth, BitVec.getLsbD_extractLsb', hi, decide_true, Bool.true_and, true_and]
  exact Bool.and_comm _ _

def field (word : Word) (field : InstructionField) : Except Stop Word :=
  bits word field.offset field.width

theorem field_eq (word : Word) (name : InstructionField) :
    field word name = pure ((name.extract word).setWidth 32) := by
  have hlayout : name.offset < 32 ∧ name.width < 32 := by
    cases name <;> decide
  exact bits_eq word hlayout.1 hlayout.2

def bit (word : Word) (position : Nat) : Except Stop Bool := do
  let shifted ← shiftRight word position
  pure (shifted &&& 1#32 == 1#32)

theorem and_one_eq {w : Nat} (hw : 0 < w) (value : BitVec w) :
    (value &&& 1#w == 1#w) = value.getLsbD 0 := by
  rw [Bool.eq_iff_iff, beq_iff_eq, ← BitVec.toNat_inj, BitVec.toNat_and, BitVec.toNat_one hw,
    Nat.and_one_is_mod, BitVec.getLsbD, Nat.testBit_zero, decide_eq_true_iff]

theorem bit_eq (word : Word) {position : Nat} (hposition : position < 32) :
    bit word position = pure (word.getLsbD position) := by
  rw [bit, shiftRight_eq word hposition, pure_bind, and_one_eq (by decide),
    BitVec.getLsbD_ushiftRight, Nat.add_zero]

/-- The low `count` bits of a value with their sign. -/
def signExtend (value : Doubleword) (count : Nat) : Except Stop Doubleword :=
  if count = 0 ∨ 64 ≤ count then pure value
  else do
    let amount ← difference 64 count
    let raised ← shiftLeft value amount
    shiftRightSigned raised amount

theorem signExtend_eq (value : Doubleword) (count : Nat) :
    signExtend value count = pure (A64Machine.signExtend value count) := by
  unfold signExtend A64Machine.signExtend
  split
  · rfl
  next hcount =>
    have hamount : 64 - count < 64 := by omega
    rw [difference_eq (by omega), pure_bind, shiftLeft_eq value hamount, pure_bind,
      shiftRightSigned_eq _ hamount]
    congr 1
    apply BitVec.eq_of_getLsbD_eq
    intro i hi
    rw [BitVec.getLsbD_sshiftRight, BitVec.getLsbD_signExtend, BitVec.msb_eq_getLsbD_last,
      BitVec.msb_eq_getLsbD_last, BitVec.getLsbD_shiftLeft, BitVec.getLsbD_shiftLeft,
      BitVec.getLsbD_setWidth, BitVec.getLsbD_setWidth]
    have hnot : ¬64 ≤ i := by omega
    have hlast : ¬64 - 1 < 64 - count := by omega
    have htop : 64 - 1 - (64 - count) = count - 1 := by omega
    have hbelow : count - 1 < count := by omega
    simp only [hi, hnot, decide_false, decide_true, Bool.not_false, Bool.true_and, hlast, htop,
      hbelow]
    by_cases hlow : i < count
    · have hshift : 64 - count + i < 64 := by omega
      have hraised : ¬64 - count + i < 64 - count := by omega
      have hplace : 64 - count + i - (64 - count) = i := by omega
      simp [hlow, hshift]
    · have hshift : ¬64 - count + i < 64 := by omega
      simp [hlow, hshift]

/-- A carry as a value of 128 bits. -/
def carried (carry : Bool) : BitVec 128 :=
  (BitVec.ofBool carry).setWidth 128

/-- The sum of two values and a carry at a width, with the flags of the addition. -/
def addWithCarry (x y : Doubleword) (carry : Bool) (width : OperandWidth) :
    Except Stop (Doubleword × Flags) := do
  let x ← truncate width x
  let y ← truncate width y
  let both ← add (x.setWidth 128) (y.setWidth 128)
  let exact ← add both (carried carry)
  let result ← truncate width (exact.setWidth 64)
  let signedX ← signExtend x width.bits
  let signedY ← signExtend y width.bits
  let signedBoth ← addSigned (signedX.signExtend 128) (signedY.signExtend 128)
  let signedExact ← addSigned signedBoth (carried carry)
  let signedResult ← signExtend result width.bits
  let top ← difference width.bits 1
  let sign ← shiftRight result top
  pure (result,
    { n := sign &&& 1#64 == 1#64
      z := result == 0
      c := exact != result.setWidth 128
      v := signedExact != signedResult.signExtend 128 })

theorem signExtend_setWidth (width : OperandWidth) (value : BitVec width.bits) :
    A64Machine.signExtend (value.setWidth 64) width.bits = value.signExtend 64 := by
  cases width with
  | w32 =>
    rw [A64Machine.signExtend, if_neg (by decide)]
    exact congrArg (BitVec.signExtend 64) (BitVec.setWidth_setWidth_of_le value (by decide))
  | w64 =>
    rw [A64Machine.signExtend, if_pos (by decide)]
    rw [BitVec.setWidth_eq, BitVec.signExtend_eq]

section Carry

variable {w : Nat} (hw : w ≤ 64) (a b : BitVec w) (carry : Bool)

/-- The exact sum without a sign, in 128 bits. -/
def exactSum : BitVec 128 :=
  (a.setWidth 64).setWidth 128 + (b.setWidth 64).setWidth 128 + carried carry

/-- The exact sum with a sign, in 128 bits. -/
def exactSignedSum : BitVec 128 :=
  (a.signExtend 64).signExtend 128 + (b.signExtend 64).signExtend 128 + carried carry

theorem toNat_carried : (carried carry).toNat = carry.toNat := by
  cases carry <;> rfl

theorem toInt_carried : (carried carry).toInt = carry.toNat := by
  cases carry <;> rfl

include hw

theorem toNat_widened : ((a.setWidth 64).setWidth 128).toNat = a.toNat := by
  have hbound : a.toNat < 2 ^ 64 := Nat.lt_of_lt_of_le a.isLt (Nat.pow_le_pow_right (by decide) hw)
  rw [BitVec.toNat_setWidth, BitVec.toNat_setWidth, Nat.mod_eq_of_lt hbound,
    Nat.mod_eq_of_lt (by omega)]

theorem toInt_widened : ((a.signExtend 64).signExtend 128).toInt = a.toInt := by
  rw [BitVec.toInt_signExtend_of_le (by decide), BitVec.toInt_signExtend_of_le hw]

theorem exactSum_eq :
    add ((a.setWidth 64).setWidth 128) ((b.setWidth 64).setWidth 128) =
        pure ((a.setWidth 64).setWidth 128 + (b.setWidth 64).setWidth 128) ∧
      add ((a.setWidth 64).setWidth 128 + (b.setWidth 64).setWidth 128) (carried carry) =
        pure (exactSum a b carry) ∧
      (exactSum a b carry).toNat = a.toNat + b.toNat + carry.toNat := by
  have hone : carry.toNat ≤ 1 := Bool.toNat_le carry
  have hbound (x : BitVec w) : x.toNat < 2 ^ 64 :=
    Nat.lt_of_lt_of_le x.isLt (Nat.pow_le_pow_right (by decide) hw)
  have ha := hbound a
  have hb := hbound b
  have hfirst : ¬((a.setWidth 64).setWidth 128).uaddOverflow ((b.setWidth 64).setWidth 128) := by
    simp only [BitVec.uaddOverflow, toNat_widened hw, decide_eq_true_iff]
    omega
  have hboth := BitVec.toNat_add_of_not_uaddOverflow hfirst
  rw [toNat_widened hw, toNat_widened hw] at hboth
  have hsecond : ¬((a.setWidth 64).setWidth 128 + (b.setWidth 64).setWidth 128).uaddOverflow
      (carried carry) := by
    simp only [BitVec.uaddOverflow, hboth, toNat_carried, decide_eq_true_iff]
    omega
  have hexact := BitVec.toNat_add_of_not_uaddOverflow hsecond
  rw [hboth, toNat_carried] at hexact
  exact ⟨if_neg hfirst, if_neg hsecond, hexact⟩

theorem exactSignedSum_eq :
    addSigned ((a.signExtend 64).signExtend 128) ((b.signExtend 64).signExtend 128) =
        pure ((a.signExtend 64).signExtend 128 + (b.signExtend 64).signExtend 128) ∧
      addSigned ((a.signExtend 64).signExtend 128 + (b.signExtend 64).signExtend 128)
        (carried carry) = pure (exactSignedSum a b carry) ∧
      (exactSignedSum a b carry).toInt = a.toInt + b.toInt + carry.toNat := by
  have hone : carry.toNat ≤ 1 := Bool.toNat_le carry
  have hbound (x : BitVec w) : -(2 ^ 63) ≤ x.toInt ∧ x.toInt < 2 ^ 63 := by
    have hwide : (x.signExtend 64).toInt = x.toInt := BitVec.toInt_signExtend_of_le hw
    have hlow := BitVec.le_toInt (x.signExtend 64)
    have hhigh := BitVec.toInt_lt (x := x.signExtend 64)
    omega
  have ha := hbound a
  have hb := hbound b
  have hfirst : ¬((a.signExtend 64).signExtend 128).saddOverflow
      ((b.signExtend 64).signExtend 128) := by
    simp only [BitVec.saddOverflow, toInt_widened hw, Bool.or_eq_true, decide_eq_true_iff]
    omega
  have hboth := BitVec.toInt_add_of_not_saddOverflow hfirst
  rw [toInt_widened hw, toInt_widened hw] at hboth
  have hsecond : ¬((a.signExtend 64).signExtend 128 + (b.signExtend 64).signExtend 128).saddOverflow
      (carried carry) := by
    simp only [BitVec.saddOverflow, hboth, toInt_carried, Bool.or_eq_true, decide_eq_true_iff]
    omega
  have hexact := BitVec.toInt_add_of_not_saddOverflow hsecond
  rw [hboth, toInt_carried] at hexact
  exact ⟨if_neg hfirst, if_neg hsecond, hexact⟩

/-- The low bits of the exact sum are the sum at the width. -/
theorem exactSum_low :
    ((exactSum a b carry).setWidth 64).setWidth w = a + b + BitVec.ofNat w carry.toNat := by
  rw [BitVec.setWidth_setWidth_of_le _ hw]
  apply BitVec.eq_of_toNat_eq
  rw [BitVec.toNat_setWidth, (exactSum_eq hw a b carry).2.2, BitVec.toNat_add, BitVec.toNat_add,
    BitVec.toNat_ofNat, Nat.add_mod_mod, Nat.mod_add_mod]

/-- The exact sum differs from its low bits when there is a carry out of the width. -/
theorem exactSum_ne (result : BitVec w) (hresult : result = a + b + BitVec.ofNat w carry.toNat) :
    (exactSum a b carry != (result.setWidth 64).setWidth 128) = BitVec.carry w a b carry := by
  have hvalue : result.toNat = (a.toNat + b.toNat + carry.toNat) % 2 ^ w := by
    rw [hresult, BitVec.toNat_add, BitVec.toNat_add, BitVec.toNat_ofNat, Nat.add_mod_mod,
      Nat.mod_add_mod]
  rw [Bool.eq_iff_iff, bne_iff_ne, Ne, ← BitVec.toNat_inj, (exactSum_eq hw a b carry).2.2,
    toNat_widened hw, hvalue, BitVec.carry_width, decide_eq_true_iff]
  constructor
  · intro hne
    apply Nat.le_of_not_lt
    intro hlt
    exact hne (Nat.mod_eq_of_lt hlt).symm
  · intro hle heq
    have hlt := Nat.mod_lt (a.toNat + b.toNat + carry.toNat) (Nat.two_pow_pos w)
    omega

/-- The exact sum differs from the sign-extended result when the signed sum overflows. -/
theorem exactSignedSum_ne (result : BitVec w) :
    (exactSignedSum a b carry != (result.signExtend 64).signExtend 128) =
      decide (a.toInt + b.toInt + carry.toNat ≠ result.toInt) := by
  rw [Bool.eq_iff_iff, bne_iff_ne, decide_eq_true_iff, Ne, Ne, ← BitVec.toInt_inj,
    (exactSignedSum_eq hw a b carry).2.2, toInt_widened hw]

end Carry

theorem addWithCarry_eq (x y : Doubleword) (carry : Bool) (width : OperandWidth) :
    addWithCarry x y carry width = pure
      ((A64Machine.addWithCarry (x.setWidth width.bits) (y.setWidth width.bits) carry).1.setWidth
          64,
        (A64Machine.addWithCarry (x.setWidth width.bits) (y.setWidth width.bits) carry).2) := by
  have hw := bits_le_64 width
  have hpositive := bits_pos width
  simp only [addWithCarry, truncate_eq, pure_bind]
  generalize x.setWidth width.bits = a
  generalize y.setWidth width.bits = b
  rcases exactSum_eq hw a b carry with ⟨hboth, hexact, -⟩
  rcases exactSignedSum_eq hw a b carry with ⟨hsignedBoth, hsignedExact, -⟩
  simp only [hboth, hexact, pure_bind, exactSum_low hw, signExtend_eq, signExtend_setWidth,
    hsignedBoth, hsignedExact, difference_eq hpositive]
  rw [shiftRight_eq _ (by omega), pure_bind, and_one_eq (by decide), exactSum_ne hw a b carry _ rfl,
    exactSignedSum_ne hw a b carry]
  have hsign (result : BitVec width.bits) :
      ((result.setWidth 64) >>> (width.bits - 1)).getLsbD 0 = result.msb := by
    rw [BitVec.getLsbD_ushiftRight, BitVec.msb_eq_getLsbD_last, BitVec.getLsbD_setWidth,
      Nat.add_zero, decide_eq_true (by omega), Bool.true_and]
  rw [hsign, setWidth_beq_zero hw]
  rfl

/-- A value shifted at a width, where the amount counts modulo the width. -/
def shiftValue (value : Doubleword) (kind : ShiftKind) (amount : Nat) (width : OperandWidth) :
    Except Stop Doubleword := do
  let value ← truncate width value
  let amount ← remainder amount width.bits
  if amount = 0 then pure value
  else do
    let shifted ← match kind with
      | .lsl => shiftLeft value amount
      | .lsr => shiftRight value amount
      | .asr => do
        let extended ← signExtend value width.bits
        shiftRightSigned extended amount
      | .ror => do
        let low ← shiftRight value amount
        let back ← difference width.bits amount
        let high ← shiftLeft value back
        pure (low ||| high)
    truncate width shifted

section Shifts

variable {w amount : Nat} (hw : w ≤ 64) (x : BitVec w)

include hw

theorem shiftLeft_low : ((x.setWidth 64) <<< amount).setWidth w = x <<< amount := by
  apply BitVec.eq_of_getLsbD_eq
  intro i hi
  have hwide : i < 64 := by omega
  have hplace : i - amount < 64 := by omega
  simp only [BitVec.getLsbD_setWidth, BitVec.getLsbD_shiftLeft, hi, hwide, hplace, decide_true,
    Bool.true_and]

theorem shiftRight_low : ((x.setWidth 64) >>> amount).setWidth w = x >>> amount := by
  apply BitVec.eq_of_getLsbD_eq
  intro i hi
  rw [BitVec.getLsbD_setWidth, BitVec.getLsbD_ushiftRight, BitVec.getLsbD_setWidth,
    BitVec.getLsbD_ushiftRight, decide_eq_true hi, Bool.true_and]
  by_cases hplace : amount + i < 64
  · simp [hplace]
  · have hpast : w ≤ amount + i := by omega
    simp [hplace, hpast]

theorem msb_extended : (x.signExtend 64).msb = x.msb := by
  rw [BitVec.msb_signExtend, decide_eq_true (by decide), Bool.true_and]
  split
  next hfull =>
    obtain rfl : w = 64 := Nat.le_antisymm hw hfull
    rfl
  next => rfl

theorem shiftRightSigned_low :
    ((x.signExtend 64).sshiftRight amount).setWidth w = x.sshiftRight amount := by
  apply BitVec.eq_of_getLsbD_eq
  intro i hi
  have hwide : ¬64 ≤ i := by omega
  have hnarrow : ¬w ≤ i := by omega
  rw [BitVec.getLsbD_setWidth, BitVec.getLsbD_sshiftRight, BitVec.getLsbD_sshiftRight,
    msb_extended hw, BitVec.getLsbD_signExtend]
  by_cases hplace : amount + i < 64
  · simp [hi, hwide, hnarrow, hplace]
  · have hpast : ¬amount + i < w := by omega
    simp [hi, hwide, hnarrow, hplace, hpast]

theorem rotateRight_low (hamount : amount < w) :
    ((x.setWidth 64) >>> amount ||| (x.setWidth 64) <<< (w - amount)).setWidth w =
      x.rotateRight amount := by
  rw [BitVec.setWidth_or, shiftRight_low hw, shiftLeft_low hw, BitVec.rotateRight_def,
    Nat.mod_eq_of_lt hamount]

end Shifts

theorem rotateRight_mod {w : Nat} (value : BitVec w) (amount : Nat) :
    value.rotateRight (amount % w) = value.rotateRight amount := by
  rw [BitVec.rotateRight_def, BitVec.rotateRight_def, Nat.mod_mod]

/-- A shift by no bits. -/
theorem apply_zero {w : Nat} (kind : ShiftKind) (x : BitVec w) {amount : Nat}
    (hamount : amount % w = 0) : kind.apply x amount = x := by
  cases kind with
  | lsl => rw [ShiftKind.apply, hamount, BitVec.shiftLeft_zero]
  | lsr => rw [ShiftKind.apply, hamount, BitVec.ushiftRight_zero]
  | asr => rw [ShiftKind.apply, hamount, BitVec.sshiftRight_zero]
  | ror =>
    rw [ShiftKind.apply, hamount, BitVec.rotateRight_def, Nat.zero_mod, BitVec.ushiftRight_zero,
      Nat.sub_zero, BitVec.shiftLeft_eq_zero (Nat.le_refl w), BitVec.or_zero]

theorem shiftValue_eq (value : Doubleword) (kind : ShiftKind) (amount : Nat)
    (width : OperandWidth) :
    shiftValue value kind amount width =
      pure ((kind.apply (value.setWidth width.bits) amount).setWidth 64) := by
  have hw := bits_le_64 width
  have hpositive := bits_pos width
  have hamount := Nat.mod_lt amount hpositive
  simp only [shiftValue, truncate_eq, pure_bind, remainder_eq (Nat.ne_of_gt hpositive)]
  generalize value.setWidth width.bits = x
  split
  next hzero => rw [apply_zero kind x hzero]
  next hsome =>
    have hsmall : amount % width.bits < 64 := by omega
    have hback : width.bits - amount % width.bits < 64 := by omega
    cases kind with
    | lsl => simp only [shiftLeft_eq _ hsmall, pure_bind, shiftLeft_low hw, ShiftKind.apply]
    | lsr => simp only [shiftRight_eq _ hsmall, pure_bind, shiftRight_low hw, ShiftKind.apply]
    | asr =>
      simp only [signExtend_eq, signExtend_setWidth, shiftRightSigned_eq _ hsmall, pure_bind,
        shiftRightSigned_low hw, ShiftKind.apply]
    | ror =>
      simp only [shiftRight_eq _ hsmall, difference_eq (Nat.le_of_lt hamount),
        shiftLeft_eq _ hback, pure_bind, rotateRight_low hw _ hamount, ShiftKind.apply]

end Checked

end A64Machine
