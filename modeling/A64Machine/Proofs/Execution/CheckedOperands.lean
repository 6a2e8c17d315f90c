import A64Machine.Execution.Plan
import A64Machine.Proofs.Execution.CheckedMasks

/-!
The operands of plans in checked arithmetic: fields of the instruction word, displacements,
condition codes and flags.  They are values of 32 or 64 bits here, whatever the width of the
operation is, so this module also has what keeping the low bits of such a value amounts to.
-/

namespace A64Machine

section Values

variable {w : Nat}

/-- Zeros above a value make no difference to what is kept of it. -/
theorem setWidth_widened {middle : Nat} (hmiddle : w ≤ middle) (value : BitVec w) (n : Nat) :
    (value.setWidth middle).setWidth n = value.setWidth n := by
  apply BitVec.eq_of_getLsbD_eq
  intro i hi
  rw [BitVec.getLsbD_setWidth, BitVec.getLsbD_setWidth, BitVec.getLsbD_setWidth]
  by_cases hplace : i < middle
  · rw [decide_eq_true hplace, Bool.true_and]
  · rw [BitVec.getLsbD_of_ge value i (by omega), Bool.and_false]

/-- Two fields side by side. -/
theorem append_setWidth {low : Nat} (x : BitVec w) (y : BitVec low) (n : Nat) :
    x.setWidth n <<< low ||| y.setWidth n = (x ++ y).setWidth n := by
  apply BitVec.eq_of_getLsbD_eq
  intro i hi
  have hplace : i - low < n := by omega
  simp only [BitVec.getLsbD_or, BitVec.getLsbD_shiftLeft, BitVec.getLsbD_setWidth,
    BitVec.getLsbD_append, hi, hplace, decide_true, Bool.true_and]
  by_cases hlow : i < low
  · simp [hlow]
  · simp [hlow, BitVec.getLsbD_of_ge y i (by omega)]

/-- A field with zeros below it. -/
theorem shiftLeft_setWidth (x : BitVec w) (k n : Nat) :
    x.setWidth n <<< k = (x ++ 0#k).setWidth n := by
  rw [← append_setWidth, BitVec.setWidth_zero, BitVec.or_zero]

theorem signExtend_field (hpositive : 0 < w) (hw : w < 64) (value : BitVec w) :
    signExtend (value.setWidth 64) w = value.signExtend 64 := by
  have hinside : ¬(w = 0 ∨ 64 ≤ w) := by omega
  rw [signExtend, if_neg hinside, setWidth_widened (Nat.le_of_lt hw), BitVec.setWidth_eq]

/-- The low bits of a value shifted to the left. -/
theorem setWidth_shiftLeft_low (hw : w ≤ 64) (value : Doubleword) (amount : Nat) :
    (value <<< amount).setWidth w = value.setWidth w <<< amount := by
  apply BitVec.eq_of_getLsbD_eq
  intro i hi
  have hwide : i < 64 := by omega
  have hplace : i - amount < w := by omega
  simp only [BitVec.getLsbD_setWidth, BitVec.getLsbD_shiftLeft, hi, hwide, hplace, decide_true,
    Bool.true_and]

/-- The quotient without a sign of two values with zeros above them. -/
theorem udiv_widened (hw : w ≤ 64) (x y : BitVec w) :
    x.setWidth 64 / y.setWidth 64 = (x / y).setWidth 64 := by
  apply BitVec.eq_of_toNat_eq
  rw [BitVec.toNat_udiv, BitVec.toNat_setWidth_of_le hw, BitVec.toNat_setWidth_of_le hw,
    BitVec.toNat_setWidth_of_le hw, BitVec.toNat_udiv]

/-- The quotient of two values with copies of their signs above them. -/
theorem sdiv_widened (hw : w ≤ 64) (x y : BitVec w) :
    ((x.signExtend 64).sdiv (y.signExtend 64)).setWidth w = x.sdiv y := by
  apply BitVec.eq_of_toInt_eq
  have hdvd : 2 ^ w ∣ 2 ^ 64 := Nat.pow_dvd_pow 2 hw
  have hlow (value : Doubleword) : (value.setWidth w).toInt = value.toInt.bmod (2 ^ w) := by
    rw [BitVec.toInt_setWidth, BitVec.toInt_eq_toNat_bmod, Int.bmod_bmod_of_dvd hdvd]
  rw [hlow, BitVec.toInt_sdiv, BitVec.toInt_sdiv, Int.bmod_bmod_of_dvd hdvd,
    BitVec.toInt_signExtend_of_le hw, BitVec.toInt_signExtend_of_le hw]

theorem setWidth_sub_low (hw : w ≤ 64) (x y : Doubleword) :
    (x - y).setWidth w = x.setWidth w - y.setWidth w := by
  rw [BitVec.sub_eq_add_neg, BitVec.setWidth_add _ _ hw, BitVec.setWidth_neg_of_le hw,
    BitVec.sub_eq_add_neg]

end Values

namespace Checked

/-! Fields of the instruction word, as the plans read them. -/

def operandWidth (word : Word) : Except Stop OperandWidth := do
  let sf ← bit word 31
  pure (.ofBit sf)

def register (word : Word) (name : InstructionField) : Except Stop Nat := do
  let number ← field word name
  pure (number.setWidth 8).toNat

/-- Two fields side by side, the low one of the given width. -/
def fieldPair (word : Word) (high low : InstructionField) (lowWidth : Nat) : Except Stop Word := do
  let raised ← shiftLeft (← field word high) lowWidth
  let lower ← field word low
  pure (raised ||| lower)

/-- The displacement of a branch, which counts words. -/
def branchOffset (word : Word) (name : InstructionField) (bits : Nat) : Except Stop Doubleword := do
  let displacement ← field word name
  let scaled ← shiftLeft (displacement.setWidth 64) 2
  let width ← sum UInt32.size bits 2
  signExtend scaled width

/-- The sixteen condition codes. -/
def conditions : List Condition :=
  [.eq, .ne, .cs, .cc, .mi, .pl, .vs, .vc, .hi, .ls, .ge, .lt, .gt, .le, .al, .nv]

def condition (code : Word) : Except Stop Condition :=
  elementAt conditions (code &&& 0xF#32).toNat

def logicalFlags (width : OperandWidth) (result : Doubleword) : Except Stop Flags := do
  let top ← difference width.bits 1
  let sign ← shiftRight result top
  pure { n := sign &&& 1#64 == 1#64, z := result == 0 }

def addOrSubtract (subtract : Bool) (x y : Doubleword) (width : OperandWidth) :
    Except Stop (Doubleword × Flags) :=
  if subtract then addWithCarry x (~~~y) true width else addWithCarry x y false width

def byteMask (bytes : Nat) : Except Stop Doubleword := do
  let count ← product UInt32.size bytes 8
  ones count

/-- A value of some width is what is kept of it with zeros above. -/
theorem setWidth_bits (width : OperandWidth) (value : BitVec width.bits) :
    (value.setWidth 64).setWidth width.bits = value := by
  rw [BitVec.setWidth_setWidth_of_le _ (bits_le_64 width), BitVec.setWidth_eq]

section Fields

variable (word : Word) {name : InstructionField}

theorem toNat_field (name : InstructionField) :
    ((name.extract word).setWidth 32).toNat = (name.extract word).toNat := by
  have hwidth : name.width ≤ 32 := by
    cases name <;> decide
  exact BitVec.toNat_setWidth_of_le hwidth

@[simp] theorem operandWidth_eq : operandWidth word = pure (Operand.width word) := by
  rw [operandWidth, bit_eq word (by decide), pure_bind]
  rfl

theorem register_eq (hname : name.width ≤ 8) :
    register word name = pure (name.extract word).toNat := by
  rw [register, field_eq, pure_bind, setWidth_widened (by omega), BitVec.toNat_setWidth_of_le hname]

@[simp] theorem register_rd : register word .rd = pure (Operand.rd word) :=
  register_eq word (by decide)

@[simp] theorem register_rn : register word .rn = pure (Operand.rn word) :=
  register_eq word (by decide)

@[simp] theorem register_rm : register word .rm = pure (Operand.rm word) :=
  register_eq word (by decide)

@[simp] theorem register_ra : register word .ra = pure (Operand.ra word) :=
  register_eq word (by decide)

@[simp] theorem register_rt : register word .rt = pure (Operand.rt word) :=
  register_eq word (by decide)

@[simp] theorem register_rt2 : register word .rt2 = pure (Operand.rt2 word) :=
  register_eq word (by decide)

theorem fieldPair_eq (high : InstructionField) {low : InstructionField} (hlow : low.width < 32) :
    fieldPair word high low low.width =
      pure ((high.extract word ++ low.extract word).setWidth 32) := by
  rw [fieldPair, field_eq, pure_bind, shiftLeft_eq _ hlow, pure_bind, field_eq, pure_bind,
    append_setWidth]

theorem branchOffset_eq (hpositive : 0 < name.width) (hname : name.width ≤ 30) :
    branchOffset word name name.width = pure ((name.extract word ++ 0#2).signExtend 64) := by
  have hlimit : name.width + 2 < UInt32.size := by
    have hword : 32 < UInt32.size := by decide
    omega
  rw [branchOffset, field_eq, pure_bind, setWidth_widened (by omega), shiftLeft_eq _ (by decide),
    pure_bind, sum_eq hlimit, pure_bind, signExtend_eq, shiftLeft_setWidth,
    signExtend_field (by omega) (by omega)]

theorem condition_eq (code : Word) : condition code = pure (Condition.ofBits code.toNat) := by
  have hcode : (code &&& 0xF#32).toNat = code.toNat % 16 := Nat.and_two_pow_sub_one_eq_mod _ 4
  have hall : ∀ number : Fin 16, conditions[number.val]? = some (Condition.ofBits number.val) := by
    decide
  have hnumber := hall ⟨code.toNat % 16, Nat.mod_lt _ (by decide)⟩
  have hmod : Condition.ofBits (code.toNat % 16) = Condition.ofBits code.toNat := by
    rw [Condition.ofBits, Condition.ofBits, Nat.mod_mod]
  rw [condition, elementAt, hcode, hnumber, hmod]

@[simp] theorem logicalFlags_eq (width : OperandWidth) (result : Doubleword) :
    logicalFlags width result = pure (A64Machine.logicalFlags width result) := by
  have hwidth := bits_le_64 width
  have hpositive := bits_pos width
  have htop : width.bits - 1 < 64 := by omega
  rw [logicalFlags, difference_eq hpositive, pure_bind, shiftRight_eq _ htop, pure_bind,
    and_one_eq (by decide), BitVec.getLsbD_ushiftRight, Nat.add_zero]
  rfl

theorem addOrSubtract_eq (subtract : Bool) (x y : Doubleword) (width : OperandWidth) :
    addOrSubtract subtract x y width = pure
      ((A64Machine.addOrSubtract subtract (x.setWidth width.bits)
          (y.setWidth width.bits)).1.setWidth 64,
        (A64Machine.addOrSubtract subtract (x.setWidth width.bits) (y.setWidth width.bits)).2) := by
  unfold addOrSubtract A64Machine.addOrSubtract
  cases subtract with
  | false => exact addWithCarry_eq x y false width
  | true =>
    rw [if_pos rfl, if_pos rfl, addWithCarry_eq, BitVec.setWidth_not (bits_le_64 width)]

theorem byteMask_eq {bytes : Nat} (hbytes : bytes ≤ 8) :
    byteMask bytes = pure (lowOnes 64 (8 * bytes)) := by
  have hlimit : bytes * 8 < UInt32.size := by
    have hword : 64 < UInt32.size := by decide
    omega
  rw [byteMask, product_eq hlimit, pure_bind, ones_eq, Nat.mul_comm]

end Fields

end Checked

end A64Machine
