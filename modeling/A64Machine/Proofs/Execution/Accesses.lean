import A64Machine.Execution.Plan
import A64Machine.Proofs.Memory.Replies

/-!
What an instruction asks of memory, and the faults that it raises before it asks.  Both are read off
the instruction word and the registers, for every combination of word, class and mnemonic.
-/

namespace A64Machine

/-- Some bytes at an address that an instruction loads or stores. -/
structure Access where
  address : Doubleword
  bytes : Nat
  deriving Repr, DecidableEq

def LoadRequest.access (request : LoadRequest) : Access :=
  ⟨request.address, request.bytes⟩

def PendingStore.access (pending : PendingStore) : Access :=
  ⟨pending.address, pending.bytes⟩

namespace Plan

/-- The accesses of a plan in the order in which they are checked. -/
def accesses (plan : Plan) : List Access :=
  plan.loads.map LoadRequest.access ++ plan.effects.stores.map PendingStore.access

variable {regs : RegisterFile}

@[simp] theorem accesses_idle : (idle regs).accesses = [] := rfl

@[simp] theorem accesses_writing (writes : List RegisterWrite) :
    (writing regs writes).accesses = [] := rfl

@[simp] theorem accesses_result {w : Nat} (reg : Nat) (value : BitVec w)
    (flags : Option Flags) : (result regs reg value flags).accesses = [] := rfl

@[simp] theorem accesses_jump (target : Doubleword) (writes : List RegisterWrite) :
    (jump target writes).accesses = [] := rfl

@[simp] theorem accesses_branch (taken : Bool) (target : Doubleword) :
    (branch regs taken target).accesses = [] := by
  cases taken <;> rfl

end Plan

@[simp] theorem map_throw_plan {α : Type} (f : Plan → α) (cause : FaultCode) :
    (throw cause : Except FaultCode Plan).map f = .error cause := rfl

/-- The mnemonics of a class that have semantics.  A hint, a barrier or the permanently undefined
instruction is what it is under any mnemonic. -/
def InstructionClass.operations : InstructionClass → List Mnemonic
  | .pcRelativeAddressing => [.adr, .adrp]
  | .addSubtractImmediate =>
    [.addImmW, .addImmX, .addsImmW, .addsImmX, .subImmW, .subImmX, .subsImmW, .subsImmX]
  | .logicalImmediate =>
    [.andImmW, .andImmX, .orrImmW, .orrImmX, .eorImmW, .eorImmX, .andsImmW, .andsImmX]
  | .moveWideImmediate => [.movnW, .movnX, .movzW, .movzX, .movkW, .movkX]
  | .bitfield => [.sbfmW, .sbfmX, .ubfmW, .ubfmX, .bfmW, .bfmX]
  | .conditionalBranch => [.bCond]
  | .unconditionalBranchRegister => [.br, .ret, .blr]
  | .unconditionalBranchImmediate => [.b, .bl]
  | .compareAndBranch => [.cbzW, .cbzX, .cbnzW, .cbnzX]
  | .testAndBranch => [.tbz, .tbnz]
  | .addSubtractShiftedRegister => [.addW, .addX, .addsW, .addsX, .subW, .subX, .subsW, .subsX]
  | .logicalShiftedRegister =>
    [.andW, .andX, .bicW, .bicX, .orrW, .orrX, .ornW, .ornX, .eorW, .eorX, .eonW, .eonX,
      .andsW, .andsX, .bicsW, .bicsX]
  | .dataProcessingThreeSource => [.maddW, .maddX, .msubW, .msubX]
  | .dataProcessingTwoSource =>
    [.udivW, .udivX, .sdivW, .sdivX, .lslvW, .lslvX, .lsrvW, .lsrvX, .asrvW, .asrvX, .rorvW,
      .rorvX]
  | .conditionalSelect =>
    [.cselW, .cselX, .csincW, .csincX, .csinvW, .csinvX, .csnegW, .csnegX]
  | .loadRegisterLiteral => [.ldrW, .ldrX, .ldrsw, .prfm]
  | .loadStoreUnsignedImmediate | .loadStoreImmediatePreIndexed
  | .loadStoreImmediatePostIndexed => [.strW, .strX, .ldrW, .ldrX, .ldrsw, .prfm]
  | .loadStorePairOffset | .loadStorePairPreIndexed | .loadStorePairPostIndexed =>
    [.stpW, .stpX, .ldpW, .ldpX]
  | _ => []

/-- Whether a class gives a mnemonic semantics. -/
def InstructionClass.executes (cls : InstructionClass) (mnemonic : Mnemonic) : Bool :=
  match cls with
  | .udf | .hints | .barriers => true
  | _ => cls.operations.contains mnemonic

/-- The accesses of an instruction that faults only when its class gives it no semantics. -/
def InstructionClass.surveyed (cls : InstructionClass) (mnemonic : Mnemonic)
    (accesses : Except FaultCode (List Access)) : Except FaultCode (List Access) :=
  if cls.executes mnemonic then accesses else .error .unsupportedInstruction

theorem InstructionClass.surveyed_of_executes {cls : InstructionClass} {mnemonic : Mnemonic}
    (accesses : Except FaultCode (List Access)) (hexecutes : cls.executes mnemonic = true) :
    cls.surveyed mnemonic accesses = accesses := by
  rw [surveyed, if_pos hexecutes]

/-- The sizes of what a load or store transfers, in bytes. -/
def Mnemonic.transferSizes : Mnemonic → List Nat
  | .strW | .ldrW | .ldrsw => [4]
  | .strX | .ldrX => [8]
  | .stpW | .ldpW => [4, 4]
  | .stpX | .ldpX => [8, 8]
  | _ => []

/-- Accesses of the given sizes, each where the one before ends. -/
def consecutive (address : Doubleword) : List Nat → List Access
  | [] => []
  | bytes :: rest => ⟨address, bytes⟩ :: consecutive (address + BitVec.ofNat 64 bytes) rest

/-- The offset of a load or store of one register. -/
def loadStoreOffset (word : Word) : Indexing → Doubleword
  | .offset =>
    (InstructionField.imm12.extract word).setWidth 64 <<< (InstructionField.size.extract word).toNat
  | .preIndex | .postIndex => (InstructionField.imm9.extract word).signExtend 64

def Mnemonic.isLoadPair : Mnemonic → Bool
  | .ldpW | .ldpX => true
  | _ => false

/-- The offset of a load or store of a pair, in units of the size of one of the two transfers. -/
def pairOffset (word : Word) (mnemonic : Mnemonic) : Doubleword :=
  (InstructionField.imm7.extract word).signExtend 64 *
    BitVec.ofNat 64 (mnemonic.transferSizes.headD 0)

/-- The fault of a load or store of one register whose encoding is undefined: a prefetch that updates
its base, or an update of the base that is also the transferred register. -/
def loadStoreFault (word : Word) (mnemonic : Mnemonic) (indexing : Indexing) : Option FaultCode :=
  let rt := Operand.rt word
  let rn := Operand.rn word
  if mnemonic = .prfm then
    if indexing.writesBack then some .undefinedInstruction else none
  else if indexing.writesBack ∧ rn = rt ∧ rn ≠ zeroOrSp then some .undefinedBehaviour
  else none

def loadStoreAccesses (word : Word) (mnemonic : Mnemonic) (indexing : Indexing)
    (regs : RegisterFile) : List Access :=
  let base := regs.gprOrSp (Operand.rn word)
  consecutive (indexing.address base (loadStoreOffset word indexing)) mnemonic.transferSizes

/-- The fault of a load or store of a pair whose encoding is undefined: a pair of loads into one
register, or an update of the base that is also a transferred register. -/
def pairFault (word : Word) (mnemonic : Mnemonic) (indexing : Indexing) : Option FaultCode :=
  let rt := Operand.rt word
  let rt2 := Operand.rt2 word
  let rn := Operand.rn word
  if (mnemonic.isLoadPair ∧ rt = rt2) ∨
      (indexing.writesBack ∧ (rn = rt ∨ rn = rt2) ∧ rn ≠ zeroOrSp) then
    some .undefinedBehaviour
  else none

def pairAccesses (word : Word) (mnemonic : Mnemonic) (indexing : Indexing) (regs : RegisterFile) :
    List Access :=
  let base := regs.gprOrSp (Operand.rn word)
  consecutive (indexing.address base (pairOffset word mnemonic)) mnemonic.transferSizes

/-- Accesses, unless there is a fault before them. -/
def unlessFault (fault : Option FaultCode) (accesses : List Access) :
    Except FaultCode (List Access) :=
  match fault with
  | some cause => .error cause
  | none => .ok accesses

section Families

open InstructionClass

variable (word : Word) (mnemonic : Mnemonic) (regs : RegisterFile)

theorem planPcRelative_accesses :
    (planPcRelative word mnemonic regs).map Plan.accesses =
      pcRelativeAddressing.surveyed mnemonic (.ok []) := by
  unfold planPcRelative
  extract_lets displacement rd
  split
  case h_3 => simp_all [surveyed, executes, operations]
  all_goals rfl

theorem planAddSubImmediate_accesses :
    (planAddSubImmediate word mnemonic regs).map Plan.accesses =
      addSubtractImmediate.surveyed mnemonic (.ok []) := by
  unfold planAddSubImmediate
  extract_lets w imm12 imm operand rd plain flagged
  split
  case h_9 => simp_all [surveyed, executes, operations]
  all_goals rfl

theorem planLogicalImmediate_accesses :
    (planLogicalImmediate word mnemonic regs).map Plan.accesses =
      (immediateMasks word (Operand.width word).bits true).bind fun _ =>
        logicalImmediate.surveyed mnemonic (.ok []) := by
  unfold planLogicalImmediate
  extract_lets w
  cases immediateMasks word w true with
  | error cause => rfl
  | ok masks =>
    simp only [bind, Except.bind]
    split
    case h_9 => simp_all [surveyed, executes, operations]
    all_goals rfl

theorem planMoveWide_accesses :
    (planMoveWide word mnemonic regs).map Plan.accesses =
      if (Operand.width word).bits ≤ 16 * (InstructionField.hw.extract word).toNat then
        .error .undefinedInstruction
      else moveWideImmediate.surveyed mnemonic (.ok []) := by
  unfold planMoveWide
  by_cases hshift : (Operand.width word).bits ≤ 16 * (InstructionField.hw.extract word).toNat
  · simp only [hshift]
    rfl
  · simp only [hshift, if_false]
    split
    case h_7 => simp_all [surveyed, executes, operations]
    all_goals rfl

theorem planBitfield_accesses :
    (planBitfield word mnemonic regs).map Plan.accesses =
      if (Operand.width word).bits ≤ (InstructionField.immr.extract word).toNat ∨
          (Operand.width word).bits ≤ (InstructionField.imms.extract word).toNat then
        .error .undefinedBehaviour
      else (immediateMasks word (Operand.width word).bits false).bind fun _ =>
        bitfield.surveyed mnemonic (.ok []) := by
  unfold planBitfield
  by_cases hrange : (Operand.width word).bits ≤ (InstructionField.immr.extract word).toNat ∨
      (Operand.width word).bits ≤ (InstructionField.imms.extract word).toNat
  · simp only [hrange]
    rfl
  · simp only [hrange, if_false]
    cases immediateMasks word (Operand.width word).bits false with
    | error cause => rfl
    | ok masks =>
      simp only [bind, Except.bind]
      split
      case h_7 => simp_all [surveyed, executes, operations]
      all_goals rfl

theorem planConditionalBranch_accesses :
    (planConditionalBranch word mnemonic regs).map Plan.accesses =
      conditionalBranch.surveyed mnemonic (.ok []) := by
  unfold planConditionalBranch
  split
  case h_2 => simp_all [surveyed, executes, operations]
  exact congrArg Except.ok (Plan.accesses_branch _ _)

theorem planBranchRegister_accesses :
    (planBranchRegister word mnemonic regs).map Plan.accesses =
      unconditionalBranchRegister.surveyed mnemonic (.ok []) := by
  unfold planBranchRegister
  extract_lets target
  split
  case h_4 => simp_all [surveyed, executes, operations]
  all_goals rfl

theorem planBranchImmediate_accesses :
    (planBranchImmediate word mnemonic regs).map Plan.accesses =
      unconditionalBranchImmediate.surveyed mnemonic (.ok []) := by
  unfold planBranchImmediate
  extract_lets target
  split
  case h_3 => simp_all [surveyed, executes, operations]
  all_goals rfl

theorem planCompareBranch_accesses :
    (planCompareBranch word mnemonic regs).map Plan.accesses =
      compareAndBranch.surveyed mnemonic (.ok []) := by
  unfold planCompareBranch
  extract_lets isZero
  split
  case h_5 => simp_all [surveyed, executes, operations]
  all_goals exact congrArg Except.ok (Plan.accesses_branch _ _)

theorem planTestBranch_accesses :
    (planTestBranch word mnemonic regs).map Plan.accesses =
      testAndBranch.surveyed mnemonic (.ok []) := by
  unfold planTestBranch
  extract_lets position isSet target
  split
  case h_3 => simp_all [surveyed, executes, operations]
  all_goals exact congrArg Except.ok (Plan.accesses_branch _ _)

theorem planMultiplyAdd_accesses :
    (planMultiplyAdd word mnemonic regs).map Plan.accesses =
      dataProcessingThreeSource.surveyed mnemonic (.ok []) := by
  unfold planMultiplyAdd
  extract_lets w product addend rd
  split
  case h_5 => simp_all [surveyed, executes, operations]
  all_goals rfl

theorem planTwoSource_accesses :
    (planTwoSource word mnemonic regs).map Plan.accesses =
      dataProcessingTwoSource.surveyed mnemonic (.ok []) := by
  unfold planTwoSource
  extract_lets w x y rd
  split
  case h_13 => simp_all [surveyed, executes, operations]
  all_goals rfl

theorem planConditionalSelect_accesses :
    (planConditionalSelect word mnemonic regs).map Plan.accesses =
      conditionalSelect.surveyed mnemonic (.ok []) := by
  unfold planConditionalSelect
  extract_lets w condition x y select
  split
  case h_9 => simp_all [surveyed, executes, operations]
  all_goals rfl

theorem planAddSubShifted_accesses :
    (planAddSubShifted word mnemonic regs).map Plan.accesses =
      addSubtractShiftedRegister.surveyed mnemonic
        ((shiftedOperand word (Operand.width word).bits regs false).bind fun _ => .ok []) := by
  unfold planAddSubShifted
  extract_lets w sum
  have hsum (subtract flagged : Bool) : (sum subtract flagged).map Plan.accesses =
      (shiftedOperand word w regs false).bind fun _ => .ok [] := by
    simp only [sum]
    cases shiftedOperand word w regs false with
    | error cause => rfl
    | ok operand => rfl
  split
  case h_9 => simp_all [surveyed, executes, operations]
  all_goals rw [hsum, surveyed_of_executes _ rfl]

theorem planLogicalShifted_accesses :
    (planLogicalShifted word mnemonic regs).map Plan.accesses =
      (shiftedOperand word (Operand.width word).bits regs true).bind fun _ =>
        logicalShiftedRegister.surveyed mnemonic (.ok []) := by
  unfold planLogicalShifted
  extract_lets w
  cases shiftedOperand word w regs true with
  | error cause => rfl
  | ok operand =>
    simp only [bind, Except.bind]
    split
    case h_17 => simp_all [surveyed, executes, operations]
    all_goals rfl

theorem planLoadLiteral_accesses :
    (planLoadLiteral word mnemonic regs).map Plan.accesses =
      loadRegisterLiteral.surveyed mnemonic
        (.ok (consecutive (target19 word regs) mnemonic.transferSizes)) := by
  unfold planLoadLiteral
  extract_lets address reg
  split
  case h_5 => simp_all [surveyed, executes, operations]
  all_goals rfl

theorem planLoadStore_accesses (indexing : Indexing) :
    (planLoadStore word mnemonic indexing regs).map Plan.accesses =
      loadStoreUnsignedImmediate.surveyed mnemonic (unlessFault (loadStoreFault word mnemonic indexing)
        (loadStoreAccesses word mnemonic indexing regs)) := by
  unfold planLoadStore
  extract_lets rt rn offset base address writeback access
  have hoffset : offset = loadStoreOffset word indexing := by
    cases indexing <;> rfl
  have haccess (transfer : Transfer) (bytes : Nat) : (access transfer bytes).map Plan.accesses =
      unlessFault (if indexing.writesBack ∧ rn = rt ∧ rn ≠ zeroOrSp then some .undefinedBehaviour
        else none) [⟨indexing.address base (loadStoreOffset word indexing), bytes⟩] := by
    simp only [access, address, hoffset]
    split
    · rfl
    · cases transfer <;> rfl
  clear_value access
  split
  case h_7 => simp_all [surveyed, executes, operations]
  case h_6 => cases indexing <;> rfl
  all_goals
    rw [haccess, surveyed_of_executes _ rfl]
    rfl

theorem planLoadStorePair_accesses (indexing : Indexing) :
    (planLoadStorePair word mnemonic indexing regs).map Plan.accesses =
      loadStorePairOffset.surveyed mnemonic (unlessFault (pairFault word mnemonic indexing)
        (pairAccesses word mnemonic indexing regs)) := by
  unfold planLoadStorePair
  extract_lets rt rt2 rn base access
  have haccess (isLoad : Bool) (bytes : Nat) : (access isLoad bytes).map Plan.accesses =
      unlessFault (if (isLoad ∧ rt = rt2) ∨
          (indexing.writesBack ∧ (rn = rt ∨ rn = rt2) ∧ rn ≠ zeroOrSp) then some .undefinedBehaviour
        else none) (consecutive (indexing.address base
          ((InstructionField.imm7.extract word).signExtend 64 * BitVec.ofNat 64 bytes))
          [bytes, bytes]) := by
    simp only [access]
    split
    · rfl
    · cases isLoad <;> rfl
  clear_value access
  split
  case h_5 => simp_all [surveyed, executes, operations]
  all_goals
    rw [haccess, surveyed_of_executes _ rfl]
    rfl

end Families

/-- What an instruction asks of memory with the given registers, or the fault that it raises before
it asks. -/
def Instruction.survey (instruction : Instruction) (regs : RegisterFile) :
    Except FaultCode (List Access) :=
  let word := instruction.word
  let mnemonic := instruction.mnemonic
  let w := (Operand.width word).bits
  let supported := instruction.cls.surveyed mnemonic
  let single (indexing : Indexing) := unlessFault (loadStoreFault word mnemonic indexing)
    (loadStoreAccesses word mnemonic indexing regs)
  let pair (indexing : Indexing) := unlessFault (pairFault word mnemonic indexing)
    (pairAccesses word mnemonic indexing regs)
  match instruction.cls with
  | .udf => .error .undefinedInstruction
  | .hints | .barriers => .ok []
  | .logicalImmediate => (immediateMasks word w true).bind fun _ => supported (.ok [])
  | .moveWideImmediate =>
    if w ≤ 16 * (InstructionField.hw.extract word).toNat then .error .undefinedInstruction
    else supported (.ok [])
  | .bitfield =>
    if w ≤ (InstructionField.immr.extract word).toNat ∨
        w ≤ (InstructionField.imms.extract word).toNat then
      .error .undefinedBehaviour
    else (immediateMasks word w false).bind fun _ => supported (.ok [])
  | .addSubtractShiftedRegister =>
    supported ((shiftedOperand word w regs false).bind fun _ => .ok [])
  | .logicalShiftedRegister =>
    (shiftedOperand word w regs true).bind fun _ => supported (.ok [])
  | .loadRegisterLiteral =>
    supported (.ok (consecutive (target19 word regs) mnemonic.transferSizes))
  | .loadStoreUnsignedImmediate => supported (single .offset)
  | .loadStoreImmediatePreIndexed => supported (single .preIndex)
  | .loadStoreImmediatePostIndexed => supported (single .postIndex)
  | .loadStorePairOffset => supported (pair .offset)
  | .loadStorePairPreIndexed => supported (pair .preIndex)
  | .loadStorePairPostIndexed => supported (pair .postIndex)
  | _ => supported (.ok [])

/-- A plan makes the accesses that its instruction asks for, and there is none when the instruction
faults before. -/
theorem plan_accesses (instruction : Instruction) (regs : RegisterFile) :
    (plan instruction regs).map Plan.accesses = instruction.survey regs := by
  obtain ⟨word, group, cls, mnemonic⟩ := instruction
  cases cls with
  | pcRelativeAddressing => exact planPcRelative_accesses word mnemonic regs
  | addSubtractImmediate => exact planAddSubImmediate_accesses word mnemonic regs
  | logicalImmediate => exact planLogicalImmediate_accesses word mnemonic regs
  | moveWideImmediate => exact planMoveWide_accesses word mnemonic regs
  | bitfield => exact planBitfield_accesses word mnemonic regs
  | conditionalBranch => exact planConditionalBranch_accesses word mnemonic regs
  | unconditionalBranchRegister => exact planBranchRegister_accesses word mnemonic regs
  | unconditionalBranchImmediate => exact planBranchImmediate_accesses word mnemonic regs
  | compareAndBranch => exact planCompareBranch_accesses word mnemonic regs
  | testAndBranch => exact planTestBranch_accesses word mnemonic regs
  | addSubtractShiftedRegister => exact planAddSubShifted_accesses word mnemonic regs
  | logicalShiftedRegister => exact planLogicalShifted_accesses word mnemonic regs
  | dataProcessingThreeSource => exact planMultiplyAdd_accesses word mnemonic regs
  | dataProcessingTwoSource => exact planTwoSource_accesses word mnemonic regs
  | conditionalSelect => exact planConditionalSelect_accesses word mnemonic regs
  | loadRegisterLiteral => exact planLoadLiteral_accesses word mnemonic regs
  | loadStoreUnsignedImmediate => exact planLoadStore_accesses word mnemonic regs .offset
  | loadStoreImmediatePreIndexed => exact planLoadStore_accesses word mnemonic regs .preIndex
  | loadStoreImmediatePostIndexed => exact planLoadStore_accesses word mnemonic regs .postIndex
  | loadStorePairOffset => exact planLoadStorePair_accesses word mnemonic regs .offset
  | loadStorePairPreIndexed => exact planLoadStorePair_accesses word mnemonic regs .preIndex
  | loadStorePairPostIndexed => exact planLoadStorePair_accesses word mnemonic regs .postIndex
  | _ => rfl

theorem InstructionClass.surveyed_eq_ok {cls : InstructionClass} {mnemonic : Mnemonic}
    {result : Except FaultCode (List Access)} {accesses : List Access}
    (hok : cls.surveyed mnemonic result = .ok accesses) : result = .ok accesses := by
  unfold surveyed at hok
  split at hok
  · exact hok
  · contradiction

/-- An instruction makes no access, or accesses of the sizes that its mnemonic names. -/
theorem Instruction.survey_eq_ok {instruction : Instruction} {regs : RegisterFile}
    {accesses : List Access} (hsurvey : instruction.survey regs = .ok accesses) :
    accesses = [] ∨
      ∃ address, accesses = consecutive address instruction.mnemonic.transferSizes := by
  have hempty (hok : (.ok [] : Except FaultCode (List Access)) = .ok accesses) : accesses = [] ∨
      ∃ address, accesses = consecutive address instruction.mnemonic.transferSizes :=
    .inl (Except.ok.inj hok).symm
  have hunless {fault : Option FaultCode} {address : Doubleword}
      (hok : unlessFault fault (consecutive address instruction.mnemonic.transferSizes) =
        .ok accesses) : accesses = [] ∨
        ∃ address, accesses = consecutive address instruction.mnemonic.transferSizes := by
    cases fault with
    | some cause => contradiction
    | none => exact .inr ⟨address, (Except.ok.inj hok).symm⟩
  obtain ⟨word, group, cls, mnemonic⟩ := instruction
  cases cls with
  | udf => contradiction
  | hints | barriers => exact hempty hsurvey
  | logicalImmediate | logicalShiftedRegister =>
    obtain ⟨_, -, hnext⟩ := bind_eq_ok hsurvey
    exact hempty (InstructionClass.surveyed_eq_ok hnext)
  | moveWideImmediate =>
    simp only [Instruction.survey] at hsurvey
    split at hsurvey
    · contradiction
    · exact hempty (InstructionClass.surveyed_eq_ok hsurvey)
  | bitfield =>
    simp only [Instruction.survey] at hsurvey
    split at hsurvey
    · contradiction
    · obtain ⟨_, -, hnext⟩ := bind_eq_ok hsurvey
      exact hempty (InstructionClass.surveyed_eq_ok hnext)
  | addSubtractShiftedRegister =>
    obtain ⟨_, -, hnext⟩ := bind_eq_ok (InstructionClass.surveyed_eq_ok hsurvey)
    exact hempty hnext
  | loadRegisterLiteral => exact .inr ⟨_, (Except.ok.inj (InstructionClass.surveyed_eq_ok hsurvey)).symm⟩
  | loadStoreUnsignedImmediate | loadStoreImmediatePreIndexed | loadStoreImmediatePostIndexed
  | loadStorePairOffset | loadStorePairPreIndexed | loadStorePairPostIndexed =>
    exact hunless (InstructionClass.surveyed_eq_ok hsurvey)
  | _ => exact hempty (InstructionClass.surveyed_eq_ok hsurvey)

theorem bytes_pos_of_mem_consecutive {address : Doubleword} {sizes : List Nat}
    (hsizes : ∀ bytes ∈ sizes, 0 < bytes) {access : Access}
    (hmem : access ∈ consecutive address sizes) : 0 < access.bytes := by
  induction sizes generalizing address with
  | nil => simp [consecutive] at hmem
  | cons bytes rest ih =>
    rcases List.mem_cons.1 hmem with rfl | hrest
    · exact hsizes bytes List.mem_cons_self
    · exact ih (fun bytes hbytes => hsizes bytes (List.mem_cons_of_mem _ hbytes)) hrest

theorem Mnemonic.transferSizes_pos (mnemonic : Mnemonic) :
    ∀ bytes ∈ mnemonic.transferSizes, 0 < bytes := by
  unfold transferSizes
  split <;> decide

/-- Every access of a plan is of at least one byte. -/
theorem Plan.bytes_pos_of_mem_accesses {instruction : Instruction} {regs : RegisterFile}
    {made : Plan} (hplan : plan instruction regs = .ok made) {access : Access}
    (hmem : access ∈ made.accesses) : 0 < access.bytes := by
  have hsurvey : instruction.survey regs = .ok made.accesses := by
    rw [← plan_accesses, hplan]
    rfl
  rcases Instruction.survey_eq_ok hsurvey with hnone | ⟨address, hsome⟩
  · rw [hnone] at hmem
    contradiction
  · rw [hsome] at hmem
    exact bytes_pos_of_mem_consecutive instruction.mnemonic.transferSizes_pos hmem

end A64Machine
