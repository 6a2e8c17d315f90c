import A64Machine.Execution.Run
import A64Machine.Proofs.Encoding.Decoded
import A64Machine.Proofs.Execution.FlatMachine

/-!
When a step faults, and with which fault.  Faults come in four layers: a word that does not decode, a
mnemonic without semantics, an encoding that the architecture leaves undefined, and an access that is
not aligned or not mapped.  The first layer that applies decides.
-/

namespace A64Machine

/-- Whether the fields of a logical immediate encode no mask: an element of 64 bits in a 32-bit
operand, an element of ones alone, or an element of a single bit. -/
def reservesMask (word : Word) : Bool :=
  let imms := (InstructionField.imms.extract word).toNat
  if InstructionField.n.extract word = 1 then !word.getLsbD 31 || imms == 63
  else [31, 47, 55, 59, 61, 62, 63].contains imms

namespace Instruction

/-- The fault of an encoding that the architecture leaves undefined, if it is one. -/
def encodingFault (instruction : Instruction) : Option FaultCode :=
  let word := instruction.word
  let mnemonic := instruction.mnemonic
  let width := if word.getLsbD 31 then 64 else 32
  let amount := (InstructionField.imm6.extract word).toNat
  let immr := (InstructionField.immr.extract word).toNat
  let imms := (InstructionField.imms.extract word).toNat
  match instruction.cls with
  | .udf => some .undefinedInstruction
  | .logicalImmediate => if reservesMask word then some .undefinedInstruction else none
  | .addSubtractShiftedRegister =>
    if InstructionField.shift.extract word = 3 ∨ width ≤ amount then some .undefinedInstruction
    else none
  | .logicalShiftedRegister => if width ≤ amount then some .undefinedInstruction else none
  | .bitfield =>
    if width = 32 ∧ (32 ≤ immr ∨ 32 ≤ imms) then some .undefinedBehaviour else none
  | .loadStoreUnsignedImmediate => loadStoreFault word mnemonic .offset
  | .loadStoreImmediatePreIndexed => loadStoreFault word mnemonic .preIndex
  | .loadStoreImmediatePostIndexed => loadStoreFault word mnemonic .postIndex
  | .loadStorePairOffset => pairFault word mnemonic .offset
  | .loadStorePairPreIndexed => pairFault word mnemonic .preIndex
  | .loadStorePairPostIndexed => pairFault word mnemonic .postIndex
  | _ => none

/-- The accesses of an instruction, in the order in which they are made. -/
def accesses (instruction : Instruction) (regs : RegisterFile) : List Access :=
  let word := instruction.word
  let mnemonic := instruction.mnemonic
  match instruction.cls with
  | .loadRegisterLiteral => consecutive (target19 word regs) mnemonic.transferSizes
  | .loadStoreUnsignedImmediate => loadStoreAccesses word mnemonic .offset regs
  | .loadStoreImmediatePreIndexed => loadStoreAccesses word mnemonic .preIndex regs
  | .loadStoreImmediatePostIndexed => loadStoreAccesses word mnemonic .postIndex regs
  | .loadStorePairOffset => pairAccesses word mnemonic .offset regs
  | .loadStorePairPreIndexed => pairAccesses word mnemonic .preIndex regs
  | .loadStorePairPostIndexed => pairAccesses word mnemonic .postIndex regs
  | _ => []

/-- What an instruction asks of memory when its layers are taken in order. -/
def request (instruction : Instruction) (regs : RegisterFile) : Except FaultCode (List Access) :=
  if instruction.cls.executes instruction.mnemonic then
    unlessFault instruction.encodingFault (instruction.accesses regs)
  else .error .unsupportedInstruction

end Instruction

/-- The size of the element that a bit mask repeats. -/
def maskElement (n : Bool) (imms : Nat) : Nat :=
  1 <<< (64 * n.toNat + (63 - imms % 64)).log2

/-- Whether a bit mask is reserved: its element has no size, a single bit or more bits than the
operand, or is an immediate of ones alone. -/
def MaskReserved (w : Nat) (n : Bool) (imms : Nat) (immediate : Bool) : Prop :=
  (64 * n.toNat + (63 - imms % 64) = 0 ∨ maskElement n imms < 2 ∨ w < maskElement n imms) ∨
    (immediate = true ∧ imms % maskElement n imms = maskElement n imms - 1)

instance (w : Nat) (n : Bool) (imms : Nat) (immediate : Bool) :
    Decidable (MaskReserved w n imms immediate) :=
  inferInstanceAs (Decidable (_ ∨ _))

theorem bitMasks?_eq_none_iff {w : Nat} {n immediate : Bool} {imms immr : Nat} :
    bitMasks? w n imms immr immediate = none ↔ MaskReserved w n imms immediate := by
  by_cases hsize : 64 * n.toNat + (63 - imms % 64) = 0 ∨ maskElement n imms < 2 ∨
      w < maskElement n imms
  · exact iff_of_true (if_pos hsize) (.inl hsize)
  by_cases hones : immediate = true ∧ imms % maskElement n imms = maskElement n imms - 1
  · exact iff_of_true ((if_neg hsize).trans (if_pos hones)) (.inr hones)
  refine iff_of_false ?_ (not_or.2 ⟨hsize, hones⟩)
  simp only [maskElement] at hsize hones
  simp only [bitMasks?, hsize, hones, if_false]
  exact Option.some_ne_none _

theorem immediateMasks_bind {word : Word} {w : Nat} {immediate : Bool} {α : Type}
    (rest : Except FaultCode α) :
    (immediateMasks word w immediate).bind (fun _ => rest) =
      if MaskReserved w (InstructionField.n.extract word == 1)
        (InstructionField.imms.extract word).toNat immediate
      then .error .undefinedInstruction else rest := by
  unfold immediateMasks
  split
  case h_1 masks hmasks =>
    have hvalid : ¬ MaskReserved w (InstructionField.n.extract word == 1)
        (InstructionField.imms.extract word).toNat immediate := by
      rw [← bitMasks?_eq_none_iff, hmasks]
      exact Option.some_ne_none _
    rw [if_neg hvalid]
    rfl
  case h_2 hnone =>
    rw [if_pos (bitMasks?_eq_none_iff.1 hnone)]
    rfl

/-- The reserved masks of logical immediates, listed. -/
theorem maskReserved_logical : ∀ wide n : Bool, ∀ imms < 64,
    MaskReserved (if wide then 64 else 32) n imms true ↔
      (if n then !wide || imms == 63 else [31, 47, 55, 59, 61, 62, 63].contains imms) = true := by
  decide +kernel

/-- No mask of a bitfield move is reserved. -/
theorem not_maskReserved_bitfield : ∀ wide : Bool, ∀ imms < if wide then 64 else 32,
    ¬ MaskReserved (if wide then 64 else 32) wide imms false := by
  decide +kernel

theorem bits_width (word : Word) :
    (Operand.width word).bits = if word.getLsbD 31 then 64 else 32 := by
  unfold Operand.width OperandWidth.ofBit
  split <;> rfl

theorem Instruction.request_eq_ite {instruction : Instruction} {condition : Prop}
    [Decidable condition] {cause : FaultCode} (regs : RegisterFile)
    (hsupported : instruction.cls.executes instruction.mnemonic = true)
    (hfault : instruction.encodingFault = if condition then some cause else none) :
    instruction.request regs =
      if condition then .error cause else .ok (instruction.accesses regs) := by
  rw [request, if_pos hsupported, hfault]
  by_cases hcondition : condition
  · rw [if_pos hcondition, if_pos hcondition]
    rfl
  · rw [if_neg hcondition, if_neg hcondition]
    rfl

theorem shiftedOperand_bind {word : Word} {w : Nat} {mayRotate : Bool} {α : Type}
    (regs : RegisterFile) (rest : Except FaultCode α) :
    (shiftedOperand word w regs mayRotate).bind (fun _ => rest) =
      if (InstructionField.shift.extract word = 3 ∧ !mayRotate) ∨
          w ≤ (InstructionField.imm6.extract word).toNat
      then .error .undefinedInstruction else rest := by
  have hrotates : ∀ bits : BitVec 2, ShiftKind.ofBits bits.toNat = .ror ↔ bits = 3 := by decide
  simp only [shiftedOperand, hrotates]
  split <;> rfl

section Layers

open InstructionClass

variable {start word : Word} {group : InstructionGroup} {mnemonic : Mnemonic} (regs : RegisterFile)

theorem survey_logicalImmediate
    (hdecode : decode start = .ok ⟨word, group, .logicalImmediate, mnemonic⟩) :
    Instruction.survey ⟨word, group, .logicalImmediate, mnemonic⟩ regs =
      Instruction.request ⟨word, group, .logicalImmediate, mnemonic⟩ regs := by
  have hsupported : logicalImmediate.executes mnemonic = true :=
    executes_of_checkedFirst hdecode (show logicalImmediate ∈ checkedFirst by decide)
  have hreserved := maskReserved_logical (word.getLsbD 31)
    (InstructionField.n.extract word == 1) _ (InstructionField.imms.extract word).isLt
  rw [← bits_width] at hreserved
  rw [Instruction.request_eq_ite regs hsupported rfl]
  simp only [Instruction.survey, surveyed_of_executes _ hsupported, immediateMasks_bind, hreserved,
    reservesMask, beq_iff_eq]
  rfl

theorem survey_moveWide
    (hdecode : decode start = .ok ⟨word, group, .moveWideImmediate, mnemonic⟩) :
    Instruction.survey ⟨word, group, .moveWideImmediate, mnemonic⟩ regs =
      Instruction.request ⟨word, group, .moveWideImmediate, mnemonic⟩ regs := by
  have hsupported : moveWideImmediate.executes mnemonic = true :=
    executes_of_checkedFirst hdecode (show moveWideImmediate ∈ checkedFirst by decide)
  have hposition : ¬ (Operand.width word).bits ≤ 16 * (InstructionField.hw.extract word).toNat := by
    have hbound : (InstructionField.hw.extract word).toNat < 4 := BitVec.isLt _
    rw [bits_width]
    cases hwide : word.getLsbD 31 with
    | true =>
      simp only [if_true]
      omega
    | false =>
      have hlow := hw_lt_of_decode hdecode hwide
      simp only [Bool.false_eq_true, if_false]
      omega
  simp only [Instruction.survey, surveyed_of_executes _ hsupported]
  rw [if_neg hposition, Instruction.request, if_pos hsupported]
  rfl

theorem survey_bitfield
    (hdecode : decode start = .ok ⟨word, group, .bitfield, mnemonic⟩) :
    Instruction.survey ⟨word, group, .bitfield, mnemonic⟩ regs =
      Instruction.request ⟨word, group, .bitfield, mnemonic⟩ regs := by
  have hsupported : bitfield.executes mnemonic = true :=
    executes_of_checkedFirst hdecode (show bitfield ∈ checkedFirst by decide)
  have hn := bitfield_n_of_decode hdecode
  have hr : (InstructionField.immr.extract word).toNat < 64 := BitVec.isLt _
  have hs : (InstructionField.imms.extract word).toNat < 64 := BitVec.isLt _
  have hmask := not_maskReserved_bitfield (word.getLsbD 31) (InstructionField.imms.extract word).toNat
  rw [Instruction.request_eq_ite regs hsupported rfl]
  simp only [Instruction.survey, surveyed_of_executes _ hsupported, immediateMasks_bind, bits_width,
    hn]
  cases hwide : word.getLsbD 31 with
  | false =>
    simp only [hwide, Bool.false_eq_true, if_false, true_and] at hmask ⊢
    split
    · rfl
    · rw [if_neg (hmask (by omega))]
      rfl
  | true =>
    simp only [hwide, if_true] at hmask ⊢
    rw [if_neg (by omega), if_neg (hmask hs), if_neg (by omega)]
    rfl

theorem survey_addSubShifted :
    Instruction.survey ⟨word, group, .addSubtractShiftedRegister, mnemonic⟩ regs =
      Instruction.request ⟨word, group, .addSubtractShiftedRegister, mnemonic⟩ regs := by
  by_cases hsupported : addSubtractShiftedRegister.executes mnemonic = true
  · rw [Instruction.request_eq_ite regs hsupported rfl]
    simp only [Instruction.survey, surveyed_of_executes _ hsupported, shiftedOperand_bind,
      bits_width, Bool.not_false, and_true]
    rfl
  · simp only [Instruction.survey, surveyed, Instruction.request]
    rw [if_neg hsupported, if_neg hsupported]

theorem survey_logicalShifted
    (hdecode : decode start = .ok ⟨word, group, .logicalShiftedRegister, mnemonic⟩) :
    Instruction.survey ⟨word, group, .logicalShiftedRegister, mnemonic⟩ regs =
      Instruction.request ⟨word, group, .logicalShiftedRegister, mnemonic⟩ regs := by
  have hsupported : logicalShiftedRegister.executes mnemonic = true :=
    executes_of_checkedFirst hdecode (show logicalShiftedRegister ∈ checkedFirst by decide)
  rw [Instruction.request_eq_ite regs hsupported rfl]
  simp only [Instruction.survey, surveyed_of_executes _ hsupported, shiftedOperand_bind,
    bits_width, Bool.not_true, Bool.false_eq_true, and_false, false_or]
  rfl

end Layers

/-- For a word that decodes, the layers may be taken in order: where the encoding is checked before
the mnemonic, every mnemonic of the class has semantics. -/
theorem Instruction.survey_of_decode {start : Word} {instruction : Instruction}
    (hdecode : decode start = .ok instruction) (regs : RegisterFile) :
    instruction.survey regs = instruction.request regs := by
  obtain ⟨word, group, cls, mnemonic⟩ := instruction
  cases cls with
  | logicalImmediate => exact survey_logicalImmediate regs hdecode
  | moveWideImmediate => exact survey_moveWide regs hdecode
  | bitfield => exact survey_bitfield regs hdecode
  | addSubtractShiftedRegister => exact survey_addSubShifted regs
  | logicalShiftedRegister => exact survey_logicalShifted regs hdecode
  | _ => rfl

theorem Instruction.request_of_plan {start : Word} {instruction : Instruction}
    (hdecode : decode start = .ok instruction) {regs : RegisterFile} {made : Plan}
    (hplan : plan instruction regs = .ok made) : instruction.request regs = .ok made.accesses := by
  rw [← Instruction.survey_of_decode hdecode, ← plan_accesses, hplan]
  rfl

/-- An instruction that has a plan has semantics. -/
theorem Instruction.executes_of_plan {start : Word} {instruction : Instruction}
    (hdecode : decode start = .ok instruction) {regs : RegisterFile} {made : Plan}
    (hplan : plan instruction regs = .ok made) :
    instruction.cls.executes instruction.mnemonic = true := by
  have hrequest := Instruction.request_of_plan hdecode hplan
  unfold Instruction.request at hrequest
  split at hrequest
  · assumption
  · contradiction

/-- The plan of a word that decodes makes the accesses of its instruction. -/
theorem Plan.accesses_of_decode {start : Word} {instruction : Instruction}
    (hdecode : decode start = .ok instruction) {regs : RegisterFile} {made : Plan}
    (hplan : plan instruction regs = .ok made) : made.accesses = instruction.accesses regs := by
  have hrequest := Instruction.request_of_plan hdecode hplan
  unfold Instruction.request unlessFault at hrequest
  split at hrequest
  · split at hrequest
    · contradiction
    · exact (Except.ok.inj hrequest).symm
  · contradiction

namespace AddressMap

/-- Whether `bytes` bytes at `start` are mapped: none lies past the last byte address, and together
they lie in the stack when the first does and in the hierarchy otherwise. -/
def Mapped (map : AddressMap) (start bytes : Nat) : Prop :=
  start + bytes < byteAddresses ∧
    ((stackBase ≤ start ∧ start < map.stackTop ∧ start + bytes ≤ map.stackTop) ∨
      (¬ (stackBase ≤ start ∧ start < map.stackTop) ∧
        start + bytes ≤ map.hierarchyWords * wordBytes))

instance (map : AddressMap) (start bytes : Nat) : Decidable (map.Mapped start bytes) :=
  inferInstanceAs (Decidable (_ ∧ (_ ∨ _)))

/-- Whether an address lies in the stack window. -/
def InWindow (map : AddressMap) (address : Doubleword) : Prop :=
  stackBase ≤ address.toNat ∧ address.toNat < map.stackTop

instance (map : AddressMap) (address : Doubleword) : Decidable (map.InWindow address) :=
  inferInstanceAs (Decidable (_ ∧ _))

def locate (map : AddressMap) (address : Doubleword) : Location :=
  if map.InWindow address then ⟨.stack, (address.toNat - stackBase) / wordBytes⟩
  else ⟨.hierarchy, address.toNat / wordBytes⟩

theorem resolve_eq (map : AddressMap) (address : Doubleword) (bytes : Nat) :
    map.resolve address bytes =
      if address.toNat % wordBytes ≠ 0 then .error .unalignedAccess
      else if map.Mapped address.toNat bytes then .ok (map.locate address)
      else .error .dataAbort := by
  simp only [resolve]
  by_cases haligned : address.toNat % wordBytes ≠ 0
  · rw [if_pos haligned, if_pos haligned]
  rw [if_neg haligned, if_neg haligned]
  by_cases hmapped : map.Mapped address.toNat bytes
  · rw [if_pos hmapped]
    obtain ⟨hend, hregion⟩ := hmapped
    rw [if_neg (by omega)]
    rcases hregion with ⟨hbase, htop, hlast⟩ | ⟨houtside, hlast⟩
    · have hinside : map.InWindow address := ⟨hbase, htop⟩
      rw [if_pos ⟨hbase, htop⟩, if_neg (by omega), locate, if_pos hinside]
    · have hwords : ¬ map.hierarchyWords < (address.toNat + bytes + 3) / wordBytes := by
        simp only [wordBytes] at hlast ⊢
        omega
      have hbeyond : ¬ map.InWindow address := houtside
      rw [if_neg houtside, if_neg hwords, locate, if_neg hbeyond]
  · rw [if_neg hmapped]
    split
    · rfl
    split
    · split
      · rfl
      · exact absurd ⟨by omega, .inl ⟨by omega, by omega, by omega⟩⟩ hmapped
    · split
      · rfl
      · rename_i hend houtside hwords
        simp only [wordBytes] at hwords
        exact absurd ⟨by omega, .inr ⟨houtside, by simp only [wordBytes]; omega⟩⟩ hmapped

def accessFault (map : AddressMap) (access : Access) : Option FaultCode :=
  if access.address.toNat % wordBytes ≠ 0 then some .unalignedAccess
  else if map.Mapped access.address.toNat access.bytes then none
  else some .dataAbort

theorem fault?_eq_accessFault (map : AddressMap) (access : Access) :
    map.fault? access.address access.bytes = map.accessFault access := by
  rw [fault?, resolve_eq, accessFault]
  split
  · rfl
  split <;> rfl

/-- The first fault decides. -/
theorem firstFault?_eq (map : AddressMap) (accesses : List Access) :
    map.firstFault? accesses = accesses.findSome? map.accessFault := by
  unfold firstFault?
  congr 1
  funext access
  exact map.fault?_eq_accessFault access

end AddressMap

/-- The fault of a step that fetches `word`. -/
def wordFault (word : Word) (regs : RegisterFile) (map : AddressMap) : Option FaultCode :=
  match decode word with
  | .error fault =>
    match fault.cause with
    | .undefined => some .undefinedInstruction
    | .unsupported => some .unsupportedInstruction
  | .ok instruction =>
    if instruction.cls.executes instruction.mnemonic then
      instruction.encodingFault.or ((instruction.accesses regs).findSome? map.accessFault)
    else some .unsupportedInstruction

def StepOutcome.fault? : StepOutcome → Option FaultCode
  | .retired .. => none
  | .faulted _ _ cause => some cause

theorem wordFault_of_decode {word : Word} {instruction : Instruction}
    (hdecode : decode word = .ok instruction) (regs : RegisterFile) (map : AddressMap) :
    map.requestFault (instruction.survey regs) = wordFault word regs map := by
  rw [Instruction.survey_of_decode hdecode, Instruction.request]
  simp only [wordFault, hdecode]
  split
  · cases instruction.encodingFault with
    | some cause => rfl
    | none => exact map.firstFault?_eq (instruction.accesses regs)
  · rfl

theorem Instruction.encodingFault_ne (instruction : Instruction) :
    instruction.encodingFault ≠ some .undefinedRegisterAccess := by
  simp only [encodingFault, loadStoreFault, pairFault]
  repeat' split
  all_goals decide

theorem AddressMap.accessFault_ne (map : AddressMap) (access : Access) :
    map.accessFault access ≠ some .undefinedRegisterAccess := by
  unfold accessFault
  repeat' split
  all_goals decide

/-- No word makes a step access an undefined register. -/
theorem wordFault_ne (word : Word) (regs : RegisterFile) (map : AddressMap) :
    wordFault word regs map ≠ some .undefinedRegisterAccess := by
  unfold wordFault
  split
  · split <;> decide
  · split
    · rename_i instruction _ _
      intro hfault
      rcases Option.or_eq_some_iff.1 hfault with hencoding | ⟨-, haccess⟩
      · exact instruction.encodingFault_ne hencoding
      · obtain ⟨access, -, hfault⟩ := List.exists_of_findSome?_eq_some haccess
        exact map.accessFault_ne access hfault
    · decide

theorem UnitMemory.fetch_fault {memory after : UnitMemory} {pc : Doubleword} {cause : FaultCode}
    (hfetch : memory.fetch pc = .ok (.error cause, after)) :
    cause = .unalignedAccess ∨ cause = .dataAbort := by
  unfold fetch at hfetch
  split at hfetch
  · obtain ⟨hcause, -⟩ := Prod.mk.inj (Except.ok.inj hfetch)
    exact .inl (Except.error.inj hcause).symm
  split at hfetch
  · obtain ⟨hcause, -⟩ := Prod.mk.inj (Except.ok.inj hfetch)
    exact .inr (Except.error.inj hcause).symm
  cases hread : memory.onHierarchy (·.read (pc.toNat / wordBytes)) with
  | error violation =>
    rw [hread] at hfetch
    contradiction
  | ok read =>
    rw [hread] at hfetch
    obtain ⟨hcause, -⟩ := Prod.mk.inj (Except.ok.inj hfetch)
    contradiction

/-- A step always ends.  When it fetches a word it ends with the fault of the word, or retires when
the word has none, and no step accesses an undefined register. -/
theorem UnitMemory.step_fault {memory : UnitMemory} (hformed : memory.WellFormed)
    (regs : RegisterFile) :
    ∃ outcome regs' after, step regs memory = .ok (outcome, regs', after) ∧
      (∀ word fetched, memory.fetch regs.pc = .ok (.ok word, fetched) →
        outcome.fault? = wordFault word regs memory.map) ∧
      outcome.fault? ≠ some .undefinedRegisterAccess := by
  obtain ⟨fetched, middle, hfetch, hmiddle⟩ := memory.fetch_serves hformed regs.pc
  cases fetched with
  | error cause =>
    refine ⟨_, _, _, step_of_fetch_fault hfetch, ?_, ?_⟩
    · intro word fetched hword
      rw [hfetch] at hword
      obtain ⟨hword, -⟩ := Prod.mk.inj (Except.ok.inj hword)
      contradiction
    · intro hfault
      obtain rfl := Option.some.inj hfault
      rcases UnitMemory.fetch_fault hfetch with hcause | hcause <;> contradiction
  | ok word =>
    have hends {outcome : StepOutcome} (hfault : outcome.fault? = wordFault word regs memory.map) :
        (∀ word fetched, memory.fetch regs.pc = .ok (.ok word, fetched) →
          outcome.fault? = wordFault word regs memory.map) ∧
        outcome.fault? ≠ some .undefinedRegisterAccess := by
      refine ⟨?_, by rw [hfault]; exact wordFault_ne word regs memory.map⟩
      intro word' fetched hword
      rw [hfetch] at hword
      obtain ⟨hword, -⟩ := Prod.mk.inj (Except.ok.inj hword)
      rw [← Except.ok.inj hword, hfault]
    cases hdecode : decode word with
    | error fault =>
      refine ⟨_, _, _, step_of_decode_fault hfetch hdecode, hends ?_⟩
      simp only [wordFault, hdecode, StepOutcome.fault?, DecodeFault.code]
      cases fault.cause <;> rfl
    | ok instruction =>
      obtain ⟨answer, after, hexecute, hfault, hmapped, hserves⟩ :=
        execute_serves instruction regs hmiddle.wellFormed
      rw [hmiddle.map_eq, wordFault_of_decode hdecode] at hfault
      cases answer with
      | error cause =>
        exact ⟨_, _, _, step_of_execute_fault hfetch hdecode hexecute, hends hfault⟩
      | ok effects =>
        obtain ⟨final, hcommit, -⟩ :=
          commitStores_serves effects.stores hserves.wellFormed fun pending hpending => by
            rw [hserves.map_eq]
            exact hmapped effects rfl pending hpending
        exact ⟨_, _, _, step_of_execute hfetch hdecode hexecute hcommit, hends hfault⟩

/-- A 32-bit bitfield move whose field ends at bit 32. -/
theorem UnitMemory.step_fault_bitfield :
    ∃ memory : UnitMemory, memory.WellFormed ∧ ∃ outcome regs' after,
      step {} memory = .ok (outcome, regs', after) ∧ outcome.fault? = some .undefinedBehaviour := by
  let store : Ram := { name := "RAM", words := #[0x53008000] }
  let memory : UnitMemory := { hierarchy := .ram store, stack := .zeroed "STACK" 4 }
  have hformed : memory.WellFormed := trivial
  obtain ⟨outcome, regs', after, hstep, hfault, -⟩ := UnitMemory.step_fault hformed {}
  refine ⟨memory, hformed, outcome, regs', after, hstep, ?_⟩
  rw [hfault 0x53008000 _ rfl]
  decide +kernel

end A64Machine
