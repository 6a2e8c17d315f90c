import A64Machine.Proofs.Execution.StepFaults

/-!
The 32-bit forms.  An instruction whose operands are 32 bits wide depends on the low halves of its
registers alone: where the low halves of two register files agree, it faults in both with the same
fault, or it has the same effects in both.
-/

namespace A64Machine

/-- The classes in which bit 31 of a word selects the operand width, or the half of the register in
which a bit is tested. -/
def InstructionClass.widthSelected : List InstructionClass :=
  [.addSubtractImmediate, .logicalImmediate, .moveWideImmediate, .bitfield,
    .addSubtractShiftedRegister, .logicalShiftedRegister, .dataProcessingThreeSource,
    .dataProcessingTwoSource, .conditionalSelect, .compareAndBranch, .testAndBranch]

theorem bits_of_narrow {word : Word} (hnarrow : word.getLsbD 31 = false) :
    (Operand.width word).bits = 32 := by
  rw [bits_width, hnarrow]
  rfl

/-- A tested bit lies in the low half when its number has bit 5 clear. -/
theorem testedBit_lt_of_narrow {word : Word} (hnarrow : word.getLsbD 31 = false) :
    (InstructionField.b5.extract word ++ InstructionField.b40.extract word).toNat < 32 := by
  have hbit : ∀ bit : BitVec 1, bit.getLsbD 0 = false → bit = 0 := by decide
  have hzero : InstructionField.b5.extract word = 0 := by
    apply hbit
    rw [getLsbD_extract .b5 word (by decide)]
    exact hnarrow
  have hlow : (InstructionField.b40.extract word).toNat < 32 := BitVec.isLt _
  rw [hzero, BitVec.toNat_append]
  simpa using hlow

namespace RegisterFile

/-- Two register files with the same program counter, exception level and flags, whose general
registers and stack pointer in use have the same low halves. -/
structure LowHalvesAgree (regs other : RegisterFile) : Prop where
  pc_eq : other.pc = regs.pc
  el_eq : other.el = regs.el
  nzcv_eq : other.nzcv = regs.nzcv
  gpr_eq (n : Nat) (hn : n < generalRegisterCount) :
    (other.gpr n).setWidth 32 = (regs.gpr n).setWidth 32
  sp_eq : other.sp.setWidth 32 = regs.sp.setWidth 32

namespace LowHalvesAgree

variable {regs other : RegisterFile} (hagree : regs.LowHalvesAgree other)

include hagree

theorem read_eq {w : Nat} (hw : w = 32) (n : Nat) : other.read w n = regs.read w n := by
  subst hw
  by_cases hn : n < generalRegisterCount
  · exact hagree.gpr_eq n hn
  · have hzero (file : RegisterFile) : file.gpr n = 0 := dif_neg hn
    rw [read, read, hzero, hzero]

theorem gprOrSp_eq {w : Nat} (hw : w = 32) (n : Nat) :
    (other.gprOrSp n).setWidth w = (regs.gprOrSp n).setWidth w := by
  unfold gprOrSp
  split
  · exact hagree.read_eq hw n
  · subst hw
    exact hagree.sp_eq

theorem fallThrough_eq : fallThrough other = fallThrough regs := by
  rw [fallThrough, fallThrough, hagree.pc_eq]

theorem result_eq {w : Nat} (reg : Nat) (value : BitVec w) (flags : Option Flags) :
    Plan.result other reg value flags = Plan.result regs reg value flags := by
  rw [Plan.result, Plan.result, hagree.fallThrough_eq]

theorem writing_eq (writes : List RegisterWrite) :
    Plan.writing other writes = Plan.writing regs writes := by
  rw [Plan.writing, Plan.writing, hagree.fallThrough_eq]

theorem branch_eq {w : Nat} (taken : Bool) (displacement : BitVec w) :
    Plan.branch other taken (branchTarget other displacement) =
      Plan.branch regs taken (branchTarget regs displacement) := by
  rw [Plan.branch, Plan.branch, Plan.idle, Plan.idle, hagree.fallThrough_eq, branchTarget,
    branchTarget, hagree.pc_eq]

theorem getLsbD_gpr {position : Nat} (hposition : position < 32) (n : Nat) :
    (other.gpr n).getLsbD position = (regs.gpr n).getLsbD position := by
  have hlow := congrArg (BitVec.getLsbD · position) (hagree.read_eq rfl n)
  simpa [read, hposition] using hlow

section Families

variable {word : Word} (hnarrow : word.getLsbD 31 = false) (mnemonic : Mnemonic)

include hnarrow

theorem shiftedOperand_eq (mayRotate : Bool) :
    shiftedOperand word (Operand.width word).bits other mayRotate =
      shiftedOperand word (Operand.width word).bits regs mayRotate := by
  have hwidth := bits_of_narrow hnarrow
  simp only [shiftedOperand, hagree.read_eq hwidth]

theorem planAddSubImmediate_eq :
    planAddSubImmediate word mnemonic other = planAddSubImmediate word mnemonic regs := by
  have hwidth := bits_of_narrow hnarrow
  simp only [planAddSubImmediate, hagree.gprOrSp_eq hwidth, hagree.result_eq, hagree.writing_eq]

theorem planLogicalImmediate_eq :
    planLogicalImmediate word mnemonic other = planLogicalImmediate word mnemonic regs := by
  have hwidth := bits_of_narrow hnarrow
  simp only [planLogicalImmediate, hagree.read_eq hwidth, hagree.result_eq, hagree.writing_eq]

theorem planMoveWide_eq : planMoveWide word mnemonic other = planMoveWide word mnemonic regs := by
  have hwidth := bits_of_narrow hnarrow
  simp only [planMoveWide, hagree.read_eq hwidth, hagree.result_eq]

theorem planBitfield_eq : planBitfield word mnemonic other = planBitfield word mnemonic regs := by
  have hwidth := bits_of_narrow hnarrow
  simp only [planBitfield, hagree.read_eq hwidth, hagree.result_eq]

theorem planAddSubShifted_eq :
    planAddSubShifted word mnemonic other = planAddSubShifted word mnemonic regs := by
  have hwidth := bits_of_narrow hnarrow
  simp only [planAddSubShifted, hagree.read_eq hwidth, hagree.shiftedOperand_eq hnarrow,
    hagree.result_eq]

theorem planLogicalShifted_eq :
    planLogicalShifted word mnemonic other = planLogicalShifted word mnemonic regs := by
  have hwidth := bits_of_narrow hnarrow
  simp only [planLogicalShifted, hagree.read_eq hwidth, hagree.shiftedOperand_eq hnarrow,
    hagree.result_eq]

theorem planMultiplyAdd_eq :
    planMultiplyAdd word mnemonic other = planMultiplyAdd word mnemonic regs := by
  have hwidth := bits_of_narrow hnarrow
  simp only [planMultiplyAdd, hagree.read_eq hwidth, hagree.result_eq]

theorem planTwoSource_eq :
    planTwoSource word mnemonic other = planTwoSource word mnemonic regs := by
  have hwidth := bits_of_narrow hnarrow
  simp only [planTwoSource, hagree.read_eq hwidth, hagree.result_eq]

theorem planConditionalSelect_eq :
    planConditionalSelect word mnemonic other = planConditionalSelect word mnemonic regs := by
  have hwidth := bits_of_narrow hnarrow
  simp only [planConditionalSelect, hagree.read_eq hwidth, hagree.nzcv_eq, hagree.result_eq]

theorem planCompareBranch_eq :
    planCompareBranch word mnemonic other = planCompareBranch word mnemonic regs := by
  have hwidth := bits_of_narrow hnarrow
  simp only [planCompareBranch, target19, hagree.read_eq hwidth, hagree.branch_eq]

theorem planTestBranch_eq :
    planTestBranch word mnemonic other = planTestBranch word mnemonic regs := by
  have hposition := testedBit_lt_of_narrow hnarrow
  simp only [planTestBranch, hagree.getLsbD_gpr hposition, hagree.branch_eq]

end Families

end LowHalvesAgree

end RegisterFile

/-- A 32-bit form has the same plan, or the same fault, for two register files whose low halves
agree. -/
theorem plan_of_lowHalvesAgree {instruction : Instruction} {regs other : RegisterFile}
    (hclass : instruction.cls ∈ InstructionClass.widthSelected)
    (hnarrow : instruction.word.getLsbD 31 = false) (hagree : regs.LowHalvesAgree other) :
    plan instruction other = plan instruction regs := by
  rcases instruction with ⟨word, group, cls, mnemonic⟩
  cases cls with
  | addSubtractImmediate => exact hagree.planAddSubImmediate_eq hnarrow mnemonic
  | logicalImmediate => exact hagree.planLogicalImmediate_eq hnarrow mnemonic
  | moveWideImmediate => exact hagree.planMoveWide_eq hnarrow mnemonic
  | bitfield => exact hagree.planBitfield_eq hnarrow mnemonic
  | addSubtractShiftedRegister => exact hagree.planAddSubShifted_eq hnarrow mnemonic
  | logicalShiftedRegister => exact hagree.planLogicalShifted_eq hnarrow mnemonic
  | dataProcessingThreeSource => exact hagree.planMultiplyAdd_eq hnarrow mnemonic
  | dataProcessingTwoSource => exact hagree.planTwoSource_eq hnarrow mnemonic
  | conditionalSelect => exact hagree.planConditionalSelect_eq hnarrow mnemonic
  | compareAndBranch => exact hagree.planCompareBranch_eq hnarrow mnemonic
  | testAndBranch => exact hagree.planTestBranch_eq hnarrow mnemonic
  | _ => simp [InstructionClass.widthSelected] at hclass

/-- A plan without accesses has its effects whatever is in memory, and leaves memory alone. -/
theorem Plan.perform_of_accesses_eq_nil {made : Plan} (hnone : made.accesses = [])
    (memory : UnitMemory) : made.perform memory = .ok (.ok made.effects, memory) := by
  rcases List.append_eq_nil_iff.1 hnone with ⟨hloads, hstores⟩
  rw [List.map_eq_nil_iff] at hloads hstores
  rw [Plan.perform, hloads, hstores]
  rfl

/-- The instructions of these classes have no accesses. -/
theorem accesses_of_widthSelected {word : Word} {instruction : Instruction}
    (hdecode : decode word = .ok instruction)
    (hclass : instruction.cls ∈ InstructionClass.widthSelected) {regs : RegisterFile} {made : Plan}
    (hplan : plan instruction regs = .ok made) : made.accesses = [] := by
  rw [Plan.accesses_of_decode hdecode hplan]
  rcases instruction with ⟨_, _, cls, _⟩
  cases cls with
  | loadRegisterLiteral | loadStoreUnsignedImmediate | loadStoreImmediatePreIndexed
  | loadStoreImmediatePostIndexed | loadStorePairOffset | loadStorePairPreIndexed
  | loadStorePairPostIndexed => simp [InstructionClass.widthSelected] at hclass
  | _ => rfl

/-- A 32-bit form sees only the low halves of registers: for two register files whose low halves
agree it faults with the same fault or has the same effects, whatever is in memory, and it leaves
memory alone. -/
theorem execute_of_lowHalvesAgree {word : Word} {instruction : Instruction}
    (hdecode : decode word = .ok instruction)
    (hclass : instruction.cls ∈ InstructionClass.widthSelected)
    (hnarrow : word.getLsbD 31 = false) {regs other : RegisterFile}
    (hagree : regs.LowHalvesAgree other) :
    ∃ answer, ∀ memory, execute instruction regs memory = .ok (answer, memory) ∧
      execute instruction other memory = .ok (answer, memory) := by
  have hword := (decode_eq_ok hdecode).1
  rw [← hword] at hnarrow
  have hsame := plan_of_lowHalvesAgree hclass hnarrow hagree
  refine ⟨(plan instruction regs).map Plan.effects, ?_⟩
  intro memory
  rw [execute, execute, hsame]
  cases hplan : plan instruction regs with
  | error cause => exact ⟨rfl, rfl⟩
  | ok made =>
    have hperform := Plan.perform_of_accesses_eq_nil
      (accesses_of_widthSelected hdecode hclass hplan) memory
    exact ⟨hperform, hperform⟩

/-- SDIV W0, W1, W2 divides -8 by 3 whatever is in the high halves of X1 and X2. -/
theorem execute_of_lowHalvesAgree_quotient :
    ∃ regs other : RegisterFile, regs.LowHalvesAgree other ∧ regs.gpr 1 ≠ other.gpr 1 ∧
      regs.gpr 2 ≠ other.gpr 2 ∧ ∃ instruction, decode 0x1AC20C20 = .ok instruction ∧
        ∀ memory,
          execute instruction regs memory =
            .ok (.ok { writes := [.data 0 0xFFFFFFFE], nextPc := 4 }, memory) ∧
          execute instruction other memory =
            .ok (.ok { writes := [.data 0 0xFFFFFFFE], nextPc := 4 }, memory) := by
  let low : RegisterFile := (RegisterFile.setGpr {} 1 0xFFFFFFF8).setGpr 2 3
  let high : RegisterFile := (RegisterFile.setGpr {} 1 0x1FFFFFFF8).setGpr 2 0xFFFFFFFF00000003
  let instruction : Instruction :=
    ⟨0x1AC20C20, .dataProcessingRegister, .dataProcessingTwoSource, .sdivW⟩
  have hagree : low.LowHalvesAgree high :=
    ⟨rfl, rfl, rfl, by decide +kernel, by decide +kernel⟩
  have hdecode : decode 0x1AC20C20 = .ok instruction := rfl
  have hplan : (plan instruction low).toOption = some (.result low 0 0xFFFFFFFE#32) := by
    decide +kernel
  rcases execute_of_lowHalvesAgree hdecode (by decide) (by decide) hagree with ⟨answer, hanswer⟩
  refine ⟨low, high, hagree, by decide +kernel, by decide +kernel, _, hdecode, ?_⟩
  intro memory
  have hlow : execute instruction low memory =
      .ok (.ok { writes := [.data 0 0xFFFFFFFE], nextPc := 4 }, memory) := by
    rw [execute]
    cases hmade : plan instruction low with
    | error cause =>
      rw [hmade] at hplan
      contradiction
    | ok made =>
      rw [hmade] at hplan
      obtain rfl := Option.some.inj hplan
      rfl
  rcases hanswer memory with ⟨hregs, hother⟩
  exact ⟨hlow, hother.trans (hregs.symm.trans hlow)⟩

end A64Machine
