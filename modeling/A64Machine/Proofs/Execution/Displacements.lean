import A64Machine.Proofs.Encoding.Assembly
import A64Machine.Proofs.Execution.Comparisons
import A64Machine.Proofs.Execution.OperandWidths
import A64Machine.Proofs.Execution.WordExecution

/-!
Displacements from the program counter.  The forms differ in where they keep a displacement, how wide
it is and in which unit it counts; each of them gives back every displacement within its reach, with
its sign and modulo the number of byte addresses.
-/

namespace A64Machine

/-- A load of a literal: a zero-extended word, a sign-extended one, or two words. -/
inductive LiteralLoad where
  | word | signedWord | doubleword
  deriving Repr, DecidableEq

namespace LiteralLoad

def bytes : LiteralLoad → Nat
  | .word | .signedWord => 4
  | .doubleword => 8

/-- What the load leaves in its register when memory answers `value`. -/
def result (load : LiteralLoad) (value : Doubleword) : Doubleword :=
  match load with
  | .word | .doubleword => value
  | .signedWord => (value.setWidth 32).signExtend 64

end LiteralLoad

/-- The operations that name an address by its displacement from the program counter: B and BL,
B.cond, CBZ and CBNZ, TBZ and TBNZ, LDR of a literal, ADR, ADRP. -/
inductive RelativeOperation where
  | branch (link : Bool)
  | conditional
  | compare (width : OperandWidth) (nonzero : Bool)
  | test (isSet : Bool)
  | literal (load : LiteralLoad)
  | address
  | page
  deriving Repr, DecidableEq

/-- What these operations work on beside their displacement; each uses what it has a field for. -/
structure RelativeOperands where
  register : BitVec 5 := 0
  condition : BitVec 4 := 0
  bit : BitVec 6 := 0
  deriving Repr, DecidableEq

namespace RelativeOperation

/-- The unit of a displacement. -/
def unit : RelativeOperation → Nat
  | .address => 1
  | .page => 4096
  | _ => 4

/-- How far a displacement goes in both directions. -/
def reach : RelativeOperation → Nat
  | .branch _ => 2 ^ 27
  | .test _ => 2 ^ 15
  | .page => 2 ^ 32
  | _ => 2 ^ 20

/-- Whether an operation can encode a displacement. -/
def Encodes (operation : RelativeOperation) (d : Int) : Prop :=
  (operation.unit : Int) ∣ d ∧ -(operation.reach : Int) ≤ d ∧ d < operation.reach

instance (operation : RelativeOperation) (d : Int) : Decidable (operation.Encodes d) :=
  inferInstanceAs (Decidable (_ ∧ _))

/-- The instruction of an operation whose operands and displacement are zero. -/
def template : RelativeOperation → Instruction
  | .branch false => ⟨0x14000000, .branchExceptionSystem, .unconditionalBranchImmediate, .b⟩
  | .branch true => ⟨0x94000000, .branchExceptionSystem, .unconditionalBranchImmediate, .bl⟩
  | .conditional => ⟨0x54000000, .branchExceptionSystem, .conditionalBranch, .bCond⟩
  | .compare .w32 false => ⟨0x34000000, .branchExceptionSystem, .compareAndBranch, .cbzW⟩
  | .compare .w32 true => ⟨0x35000000, .branchExceptionSystem, .compareAndBranch, .cbnzW⟩
  | .compare .w64 false => ⟨0xB4000000, .branchExceptionSystem, .compareAndBranch, .cbzX⟩
  | .compare .w64 true => ⟨0xB5000000, .branchExceptionSystem, .compareAndBranch, .cbnzX⟩
  | .test false => ⟨0x36000000, .branchExceptionSystem, .testAndBranch, .tbz⟩
  | .test true => ⟨0x37000000, .branchExceptionSystem, .testAndBranch, .tbnz⟩
  | .literal .word => ⟨0x18000000, .loadStore, .loadRegisterLiteral, .ldrW⟩
  | .literal .doubleword => ⟨0x58000000, .loadStore, .loadRegisterLiteral, .ldrX⟩
  | .literal .signedWord => ⟨0x98000000, .loadStore, .loadRegisterLiteral, .ldrsw⟩
  | .address => ⟨0x10000000, .dataProcessingImmediate, .pcRelativeAddressing, .adr⟩
  | .page => ⟨0x90000000, .dataProcessingImmediate, .pcRelativeAddressing, .adrp⟩

def fields : RelativeOperation → List InstructionField
  | .branch _ => [.imm26]
  | .conditional => [.imm19, .cond]
  | .compare .. | .literal _ => [.imm19, .rt]
  | .test _ => [.b5, .b40, .imm14, .rt]
  | .address | .page => [.immHi, .immLo, .rd]

/-- The operands and the displacement, which counts in its unit, in their fields. -/
def placements (operation : RelativeOperation) (operands : RelativeOperands) (d : Int) :
    List Placement :=
  let count := d / operation.unit
  match operation with
  | .branch _ => [⟨.imm26, .ofInt 26 count⟩]
  | .conditional => [⟨.imm19, .ofInt 19 count⟩, ⟨.cond, operands.condition⟩]
  | .compare .. | .literal _ => [⟨.imm19, .ofInt 19 count⟩, ⟨.rt, operands.register⟩]
  | .test _ =>
    [⟨.b5, operands.bit.extractLsb' 5 1⟩, ⟨.b40, operands.bit.extractLsb' 0 5⟩,
      ⟨.imm14, .ofInt 14 count⟩, ⟨.rt, operands.register⟩]
  | .address | .page =>
    [⟨.immHi, (BitVec.ofInt 21 count).extractLsb' 2 19⟩,
      ⟨.immLo, (BitVec.ofInt 21 count).extractLsb' 0 2⟩, ⟨.rd, operands.register⟩]

def word (operation : RelativeOperation) (operands : RelativeOperands) (d : Int) : Word :=
  assemble operation.template.word (operation.placements operands d)

/-- The address at a displacement: from the program counter, or from the start of its page. -/
def target (operation : RelativeOperation) (d : Int) (pc : Doubleword) : Doubleword :=
  match operation with
  | .page => BitVec.ofNat 64 (pc.toNat / 4096 * 4096) + BitVec.ofInt 64 d
  | _ => pc + BitVec.ofInt 64 d

def taken (operation : RelativeOperation) (operands : RelativeOperands) (regs : RegisterFile) :
    Bool :=
  match operation with
  | .conditional => (Condition.ofBits operands.condition.toNat).holds regs.nzcv
  | .compare width nonzero =>
    let value := regs.read width.bits operands.register.toNat
    if nonzero then value != 0 else value == 0
  | .test isSet =>
    let bit := (regs.gpr operands.register.toNat).getLsbD operands.bit.toNat
    if isSet then bit else !bit
  | _ => true

/-- How an operation ends that is to use the address `target`: what it does to the registers, and for
a literal what it loads.  Nothing else changes, and nothing else can fault. -/
def outcome (operation : RelativeOperation) (operands : RelativeOperands) (target : Doubleword)
    (regs : RegisterFile) (memory : UnitMemory) : Except Violation (Answer RegisterFile) :=
  let next := regs.pc + 4
  let reg := operands.register.toNat
  match operation with
  | .branch false => pure (.ok (regs.setPc target), memory)
  | .branch true => pure (.ok ((regs.setGpr 30 next).setPc target), memory)
  | .conditional | .compare .. | .test _ =>
    pure (.ok (regs.setPc (if operation.taken operands regs then target else next)), memory)
  | .literal load => (memory.load target load.bytes).map fun (answer, memory) =>
    (answer.map fun value => (regs.setGpr reg (load.result value)).setPc next, memory)
  | .address | .page => pure (.ok ((regs.setGpr reg target).setPc next), memory)

end RelativeOperation

/-! ### Displacements as numbers -/

/-- A number that its field can represent comes back with its sign. -/
theorem signExtend_ofInt {w : Nat} {value : Int} (hw : 0 < w) (hvalue : Representable w value) :
    (BitVec.ofInt w value).signExtend 64 = BitVec.ofInt 64 value := by
  rw [BitVec.signExtend, BitVec.toInt_ofInt_eq_self hw hvalue.1 hvalue.2]

/-- A count that its field can represent comes back in bytes. -/
theorem signExtend_displacement {w : Nat} (k : Nat) {count : Int} (hw : 0 < w)
    (hcount : Representable w count) :
    (BitVec.ofInt w count ++ 0#k).signExtend 64 = BitVec.ofInt 64 (2 ^ k * count) := by
  have hfield : (BitVec.ofInt w count).toInt = count :=
    BitVec.toInt_ofInt_eq_self hw hcount.1 hcount.2
  have hwide : (BitVec.ofInt w count ++ 0#k).toInt = 2 ^ k * count := by
    have hwidth : (w == 0) = false := beq_false_of_ne (Nat.ne_of_gt hw)
    rw [BitVec.toInt_append, hwidth, hfield, BitVec.toNat_zero]
    simp
  rw [BitVec.signExtend, hwide]

/-- The start of a page has the low twelve bits clear. -/
theorem and_not_page (pc : Doubleword) :
    pc &&& ~~~0xFFF#64 = BitVec.ofNat 64 (pc.toNat / 4096 * 4096) := by
  have hshifts : pc &&& ~~~0xFFF#64 = (pc >>> 12) <<< 12 := by
    have hmask : 0xFFF#64 = lowOnes 64 12 := rfl
    apply BitVec.eq_of_getLsbD_eq
    intro i hi
    rw [BitVec.getLsbD_and, BitVec.getLsbD_not, hmask, getLsbD_lowOnes, BitVec.getLsbD_shiftLeft,
      BitVec.getLsbD_ushiftRight]
    by_cases hlow : i < 12
    · simp [hlow]
    · have hplace : 12 + (i - 12) = i := by omega
      simp [hi, hlow, hplace]
  rw [hshifts]
  apply BitVec.eq_of_toNat_eq
  rw [BitVec.toNat_shiftLeft, BitVec.toNat_ushiftRight, BitVec.toNat_ofNat, Nat.shiftLeft_eq,
    Nat.shiftRight_eq_div_pow]

namespace RelativeOperation

variable {operation : RelativeOperation} {d : Int}

def displacementBits : RelativeOperation → Nat
  | .branch _ => 26
  | .test _ => 14
  | .address | .page => 21
  | _ => 19

/-- The displacement counted in its unit fits the field. -/
theorem Encodes.representable (hencodes : operation.Encodes d) :
    Representable operation.displacementBits (d / operation.unit) := by
  obtain ⟨hmultiple, hleast, hmost⟩ := hencodes
  obtain ⟨count, rfl⟩ := hmultiple
  unfold Representable
  cases operation <;> simp only [unit, reach, displacementBits] at * <;> omega

theorem template_fields (operation : RelativeOperation) :
    operation.template.Template operation.fields := by
  cases operation with
  | branch link =>
    cases link <;> exact Instruction.template_of_closed rfl (by decide +kernel)
  | compare width nonzero =>
    cases width <;> cases nonzero <;> exact Instruction.template_of_closed rfl (by decide +kernel)
  | test isSet => cases isSet <;> exact Instruction.template_of_closed rfl (by decide +kernel)
  | literal load => cases load <;> exact Instruction.template_of_closed rfl (by decide +kernel)
  | conditional | address | page => exact Instruction.template_of_closed rfl (by decide +kernel)

section Word

variable (operation : RelativeOperation) (operands : RelativeOperands) (d : Int)

theorem placements_fields :
    (operation.placements operands d).map Placement.field = operation.fields := by
  cases operation <;> rfl

/-- The instruction that the word of an operation is. -/
def instruction : Instruction :=
  { operation.template with word := operation.word operands d }

theorem decode_word :
    decode (operation.word operands d) = .ok (operation.instruction operands d) :=
  operation.template_fields.decode_assemble (operation.placements_fields operands d)

variable {operation operands d}

theorem extract_word (placement : Placement)
    (hplacement : placement ∈ operation.placements operands d) :
    placement.field.extract (operation.word operands d) = placement.value :=
  operation.template_fields.extract_eq (operation.placements_fields operands d) hplacement

/-- A field for a count of four bytes leads to the displacement. -/
theorem branchTarget_extract {field : InstructionField} {word : Word} (hwidth : 0 < field.width)
    (hfield : field.extract word = BitVec.ofInt field.width (d / 4))
    (hcount : Representable field.width (d / 4)) (hfour : 4 ∣ d) (regs : RegisterFile) :
    branchTarget regs (field.extract word) = regs.pc + BitVec.ofInt 64 d := by
  have hwhole : (2 : Int) ^ 2 * (d / 4) = d := Int.mul_ediv_cancel' hfour
  rw [hfield, branchTarget, signExtend_displacement 2 hwidth hcount, hwhole]

end Word

/-- A number that is kept in two fields. -/
theorem append_parts (high low : Nat) (x : BitVec (high + low)) :
    x.extractLsb' low high ++ x.extractLsb' 0 low = x := by
  apply BitVec.eq_of_getLsbD_eq
  intro i hi
  rw [BitVec.getLsbD_append, BitVec.getLsbD_extractLsb', BitVec.getLsbD_extractLsb']
  by_cases hlow : i < low
  · simp [hlow]
  · have hhigh : i - low < high := by omega
    have hplace : low + (i - low) = i := by omega
    simp [hlow, hhigh, hplace]

/-! ### Plans -/

section Plans

variable {operation : RelativeOperation} {operands : RelativeOperands} {d : Int}
  (regs : RegisterFile)

theorem plan_branch (link : Bool) (hencodes : (branch link).Encodes d) :
    plan ((branch link).instruction operands d) regs =
      .ok (.jump (regs.pc + .ofInt 64 d) (if link then [linkWrite regs] else [])) := by
  have himm : InstructionField.imm26.extract ((branch link).word operands d) = .ofInt 26 (d / 4) :=
    extract_word ⟨.imm26, _⟩ (.head _)
  rw [← branchTarget_extract (by decide) himm hencodes.representable hencodes.1]
  cases link <;> rfl

theorem plan_conditional (hencodes : conditional.Encodes d) :
    plan (conditional.instruction operands d) regs =
      .ok (.branch regs (conditional.taken operands regs) (regs.pc + .ofInt 64 d)) := by
  have himm : InstructionField.imm19.extract (conditional.word operands d) = .ofInt 19 (d / 4) :=
    extract_word ⟨.imm19, _⟩ (.head _)
  have hcond : InstructionField.cond.extract (conditional.word operands d) = operands.condition :=
    extract_word ⟨.cond, _⟩ (.tail _ (.head _))
  rw [← branchTarget_extract (by decide) himm hencodes.representable hencodes.1, taken, ← hcond]
  rfl

theorem plan_compare (width : OperandWidth) (nonzero : Bool)
    (hencodes : (compare width nonzero).Encodes d) :
    plan ((compare width nonzero).instruction operands d) regs =
      .ok (.branch regs ((compare width nonzero).taken operands regs) (regs.pc + .ofInt 64 d)) := by
  have himm : InstructionField.imm19.extract ((compare width nonzero).word operands d) =
      .ofInt 19 (d / 4) := extract_word ⟨.imm19, _⟩ (.head _)
  have hrt : InstructionField.rt.extract ((compare width nonzero).word operands d) =
      operands.register := extract_word ⟨.rt, _⟩ (.tail _ (.head _))
  have hwidth : Operand.width ((compare width nonzero).word operands d) = width := by
    have hcarried := operandWidth_of_decode ((compare width nonzero).decode_word operands d)
    cases width <;> cases nonzero <;> exact (Option.some.inj (hcarried rfl)).symm
  have hplan (own : OperandWidth)
      (hown : Operand.width ((compare width nonzero).word operands d) = own) :
      plan ((compare width nonzero).instruction operands d) regs =
        let value := regs.read own.bits (Operand.rt ((compare width nonzero).word operands d))
        .ok (.branch regs (if nonzero then value != 0 else value == 0)
          (target19 ((compare width nonzero).word operands d) regs)) := by
    subst hown
    cases width <;> cases nonzero <;> rfl
  rw [← branchTarget_extract (by decide) himm hencodes.representable hencodes.1, taken, ← hrt]
  exact hplan width hwidth

theorem plan_test (isSet : Bool) (hencodes : (test isSet).Encodes d) :
    plan ((test isSet).instruction operands d) regs =
      .ok (.branch regs ((test isSet).taken operands regs) (regs.pc + .ofInt 64 d)) := by
  have himm : InstructionField.imm14.extract ((test isSet).word operands d) = .ofInt 14 (d / 4) :=
    extract_word ⟨.imm14, _⟩ (.tail _ (.tail _ (.head _)))
  have hrt : InstructionField.rt.extract ((test isSet).word operands d) = operands.register :=
    extract_word ⟨.rt, _⟩ (.tail _ (.tail _ (.tail _ (.head _))))
  have hhigh : InstructionField.b5.extract ((test isSet).word operands d) =
      operands.bit.extractLsb' 5 1 := extract_word ⟨.b5, _⟩ (.head _)
  have hlow : InstructionField.b40.extract ((test isSet).word operands d) =
      operands.bit.extractLsb' 0 5 := extract_word ⟨.b40, _⟩ (.tail _ (.head _))
  have hbit : InstructionField.b5.extract ((test isSet).word operands d) ++
      InstructionField.b40.extract ((test isSet).word operands d) = operands.bit := by
    rw [hhigh, hlow]
    exact append_parts 1 5 operands.bit
  rw [← branchTarget_extract (by decide) himm hencodes.representable hencodes.1, taken, ← hbit,
    ← hrt]
  cases isSet <;> rfl

theorem plan_literal (load : LiteralLoad) (hencodes : (literal load).Encodes d) :
    plan ((literal load).instruction operands d) regs =
      .ok (.loading regs [{
        address := regs.pc + .ofInt 64 d
        bytes := load.bytes
        signed := load == .signedWord
        reg := operands.register.toNat }]) := by
  have himm : InstructionField.imm19.extract ((literal load).word operands d) = .ofInt 19 (d / 4) :=
    extract_word ⟨.imm19, _⟩ (.head _)
  have hrt : InstructionField.rt.extract ((literal load).word operands d) = operands.register :=
    extract_word ⟨.rt, _⟩ (.tail _ (.head _))
  rw [← branchTarget_extract (by decide) himm hencodes.representable hencodes.1, ← hrt]
  cases load <;> rfl

/-- The displacement of ADR and ADRP, put together from its two parts. -/
theorem immediate_word (himmediate : operation = address ∨ operation = page) :
    InstructionField.immHi.extract (operation.word operands d) ++
      InstructionField.immLo.extract (operation.word operands d) =
        BitVec.ofInt 21 (d / operation.unit) := by
  have hhigh : InstructionField.immHi.extract (operation.word operands d) =
      (BitVec.ofInt 21 (d / operation.unit)).extractLsb' 2 19 := by
    rcases himmediate with rfl | rfl <;> exact extract_word ⟨.immHi, _⟩ (.head _)
  have hlow : InstructionField.immLo.extract (operation.word operands d) =
      (BitVec.ofInt 21 (d / operation.unit)).extractLsb' 0 2 := by
    rcases himmediate with rfl | rfl <;> exact extract_word ⟨.immLo, _⟩ (.tail _ (.head _))
  rw [hhigh, hlow]
  exact append_parts 19 2 _

theorem plan_address (hencodes : address.Encodes d) :
    plan (address.instruction operands d) regs =
      .ok (.result regs operands.register.toNat (regs.pc + .ofInt 64 d)) := by
  have hrd : InstructionField.rd.extract (address.word operands d) = operands.register :=
    extract_word ⟨.rd, _⟩ (.tail _ (.tail _ (.head _)))
  have hcount : Representable 21 d := by
    rw [← Int.ediv_one d]
    exact hencodes.representable
  have hunit : d / address.unit = d := Int.ediv_one d
  have himm : InstructionField.immHi.extract (address.word operands d) ++
      InstructionField.immLo.extract (address.word operands d) = BitVec.ofInt 21 (d / address.unit) :=
    immediate_word (.inl rfl)
  rw [hunit] at himm
  rw [← signExtend_ofInt (by decide) hcount, ← himm, ← hrd]
  rfl

theorem plan_page (hencodes : page.Encodes d) :
    plan (page.instruction operands d) regs =
      .ok (.result regs operands.register.toNat
        (BitVec.ofNat 64 (regs.pc.toNat / 4096 * 4096) + .ofInt 64 d)) := by
  have hrd : InstructionField.rd.extract (page.word operands d) = operands.register :=
    extract_word ⟨.rd, _⟩ (.tail _ (.tail _ (.head _)))
  have himm : InstructionField.immHi.extract (page.word operands d) ++
      InstructionField.immLo.extract (page.word operands d) = BitVec.ofInt 21 (d / 4096) :=
    immediate_word (.inr rfl)
  have hwhole : (2 : Int) ^ 12 * (d / 4096) = d := Int.mul_ediv_cancel' hencodes.1
  have hcount : Representable 21 (d / 4096) := hencodes.representable
  have hextended := signExtend_displacement 12 (by decide) hcount
  rw [hwhole] at hextended
  rw [← and_not_page, ← hextended, ← himm, ← hrd]
  rfl

end Plans

end RelativeOperation

/-- Displacements round-trip.  The word of an operation with any displacement that it can encode
decodes to that operation, and wherever the program counter is, executing the word uses the address at
that displacement, modulo the number of byte addresses: it branches there, unless it is a branch that
is not taken, loads what is there, or leaves the address in its register. -/
theorem displacements_roundtrip (operation : RelativeOperation) (operands : RelativeOperands)
    {d : Int} (hencodes : operation.Encodes d) :
    decode (operation.word operands d) = .ok (operation.instruction operands d) ∧
      ∀ (regs : RegisterFile) (memory : UnitMemory),
        executeWord (operation.word operands d) regs memory =
          operation.outcome operands (operation.target d regs.pc) regs memory := by
  have hdecode := operation.decode_word operands d
  refine ⟨hdecode, ?_⟩
  intro regs memory
  cases operation with
  | branch link =>
    rw [executeWord_of_plan hdecode (RelativeOperation.plan_branch regs link hencodes) rfl]
    cases link <;> rfl
  | conditional =>
    rw [executeWord_of_plan hdecode (RelativeOperation.plan_conditional regs hencodes)
      (Plan.accesses_branch _ _), Plan.applyTo_branch]
    rfl
  | compare width nonzero =>
    rw [executeWord_of_plan hdecode (RelativeOperation.plan_compare regs width nonzero hencodes)
      (Plan.accesses_branch _ _), Plan.applyTo_branch]
    rfl
  | test isSet =>
    rw [executeWord_of_plan hdecode (RelativeOperation.plan_test regs isSet hencodes)
      (Plan.accesses_branch _ _), Plan.applyTo_branch]
    rfl
  | literal load =>
    rw [executeWord_of_load hdecode (RelativeOperation.plan_literal regs load hencodes)]
    cases load <;> rfl
  | address =>
    rw [executeWord_of_plan hdecode (RelativeOperation.plan_address regs hencodes) rfl]
    rfl
  | page =>
    rw [executeWord_of_plan hdecode (RelativeOperation.plan_page regs hencodes) rfl]
    rfl

/-- TBNZ X7, #63 with the farthest displacement backward, at address zero: the branch is taken when
the sign of X7 is set and wraps around. -/
theorem displacements_roundtrip_backward :
    let operation : RelativeOperation := .test true
    let operands : RelativeOperands := { register := 7, bit := 63 }
    operation.Encodes (-32768) ∧ operation.word operands (-32768) = 0xB7FC0007 ∧
      decode 0xB7FC0007 = .ok ⟨0xB7FC0007, .branchExceptionSystem, .testAndBranch, .tbnz⟩ ∧
      ∀ (regs : RegisterFile) (memory : UnitMemory), regs.pc = 0 →
        executeWord 0xB7FC0007 regs memory =
          .ok (.ok (regs.setPc (if (regs.gpr 7).getLsbD 63 then 0xFFFFFFFFFFFF8000 else 4)),
            memory) := by
  intro operation operands
  have hencodes : operation.Encodes (-32768) := by decide
  have hword : operation.word operands (-32768) = 0xB7FC0007 := by decide +kernel
  obtain ⟨hdecode, hexecute⟩ := displacements_roundtrip operation operands hencodes
  rw [RelativeOperation.instruction, hword] at hdecode
  refine ⟨hencodes, hword, hdecode, ?_⟩
  intro regs memory hpc
  have hends := hexecute regs memory
  rw [hword] at hends
  simp only [operation, operands, RelativeOperation.outcome, RelativeOperation.target,
    RelativeOperation.taken, hpc] at hends
  exact hends

end A64Machine
