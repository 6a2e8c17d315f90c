import Mathlib.Algebra.Group.Nat.Defs
import A64Machine.Proofs.Execution.Destinations
import A64Machine.Proofs.Execution.Retirement

/-!
Operand widths.  The width that the name of an instruction carries is the one that bit 31 of its word
selects, results of 32-bit forms and loaded words are zero above bit 31, and the offset of a load or
store counts in units of what it transfers.
-/

namespace A64Machine

/-- The operand width that the name of a data-processing or compare-and-branch mnemonic carries, when
it has a form of either width. -/
def Mnemonic.operandWidth : Mnemonic → Option OperandWidth
  | .addImmW | .addsImmW | .subImmW | .subsImmW | .andImmW | .orrImmW | .eorImmW | .andsImmW
  | .movnW | .movzW | .movkW | .sbfmW | .bfmW | .ubfmW | .cbzW | .cbnzW
  | .udivW | .sdivW | .lslvW | .lsrvW | .asrvW | .rorvW
  | .andW | .bicW | .orrW | .ornW | .eorW | .eonW | .andsW | .bicsW
  | .addW | .addsW | .subW | .subsW | .cselW | .csincW | .csinvW | .csnegW
  | .maddW | .msubW => some .w32
  | .addImmX | .addsImmX | .subImmX | .subsImmX | .andImmX | .orrImmX | .eorImmX | .andsImmX
  | .movnX | .movzX | .movkX | .sbfmX | .bfmX | .ubfmX | .cbzX | .cbnzX
  | .udivX | .sdivX | .lslvX | .lsrvX | .asrvX | .rorvX
  | .andX | .bicX | .orrX | .ornX | .eorX | .eonX | .andsX | .bicsX
  | .addX | .addsX | .subX | .subsX | .cselX | .csincX | .csinvX | .csnegX
  | .maddX | .msubX => some .w64
  | _ => none

/-- Whether bit 31 of a word selects the operand width of its instruction: in eight classes always,
among the instructions with two or three sources for those that have semantics. -/
def InstructionClass.selectsWidth (cls : InstructionClass) (mnemonic : Mnemonic) : Bool :=
  match cls with
  | .addSubtractImmediate | .logicalImmediate | .moveWideImmediate | .bitfield
  | .compareAndBranch | .addSubtractShiftedRegister | .logicalShiftedRegister
  | .conditionalSelect => true
  | .dataProcessingThreeSource | .dataProcessingTwoSource => cls.executes mnemonic
  | _ => false

theorem InstructionClass.mem_widthSelected {cls : InstructionClass} {mnemonic : Mnemonic}
    (hselects : cls.selectsWidth mnemonic = true) : cls ∈ widthSelected := by
  cases cls <;> first | contradiction | decide

/-- The mnemonic of a word carries the width that bit 31 selects. -/
theorem operandWidth_of_decode {word : Word} {instruction : Instruction}
    (hdecode : decode word = .ok instruction)
    (hselects : instruction.cls.selectsWidth instruction.mnemonic = true) :
    instruction.mnemonic.operandWidth = some (Operand.width instruction.word) := by
  have hrows : ∀ cls ∈ InstructionClass.all, ∀ table ∈ cls.mnemonics, ∀ row ∈ table,
      cls.selectsWidth row.label = true → row.mask.getLsbD 31 = true ∧
        row.label.operandWidth = some (.ofBit (row.expected.getLsbD 31)) := by
    decide +kernel
  obtain ⟨-, -, -, table, htable, -⟩ := decode_eq_ok hdecode
  obtain ⟨row, hrow, haccepts, hlabel⟩ := row_of_decode hdecode table htable
  rw [← hlabel] at hselects ⊢
  obtain ⟨hmask, hwidth⟩ := hrows _ instruction.cls.mem_all table htable row hrow hselects
  rw [hwidth, Operand.width, Row.getLsbD_of_accepts haccepts hmask]

namespace Plan

/-- Whether all that a plan writes to registers of its own fits in the low `w` bits. -/
def WritesBelow (made : Plan) (w : Nat) : Prop :=
  ∀ write ∈ made.effects.writes, write.value.toNat < 2 ^ w

theorem toNat_widened_lt {w : Nat} (value : BitVec w) : (value.setWidth 64).toNat < 2 ^ w := by
  rw [BitVec.toNat_setWidth]
  exact Nat.lt_of_le_of_lt (Nat.mod_le _ _) value.isLt

/-- A number of the operand width is zero above that width when it is written to a register. -/
theorem Computes.writesBelow {regs : RegisterFile} {instruction : Instruction} {made : Plan}
    (hcomputes : Computes regs instruction made) :
    made.WritesBelow (Operand.width instruction.word).bits := by
  cases hcomputes with
  | result | writing => exact List.forall_mem_singleton.2 (toNat_widened_lt _)
  | branch =>
    unfold Plan.branch
    split <;> exact List.forall_mem_nil _

end Plan

/-- The instructions of these classes compute one number of their operand width. -/
theorem plan_computes {instruction : Instruction}
    (hclass : instruction.cls ∈ InstructionClass.widthSelected) {regs : RegisterFile} {made : Plan}
    (hplan : plan instruction regs = .ok made) : Plan.Computes regs instruction made := by
  rcases instruction with ⟨word, group, cls, mnemonic⟩
  cases cls with
  | addSubtractImmediate => exact planAddSubImmediate_computes hplan
  | logicalImmediate => exact planLogicalImmediate_computes hplan
  | moveWideImmediate => exact planMoveWide_computes hplan
  | bitfield => exact planBitfield_computes hplan
  | compareAndBranch => exact planCompareBranch_computes hplan
  | testAndBranch => exact planTestBranch_computes hplan
  | addSubtractShiftedRegister => exact planAddSubShifted_computes hplan
  | logicalShiftedRegister => exact planLogicalShifted_computes hplan
  | dataProcessingThreeSource => exact planMultiplyAdd_computes hplan
  | dataProcessingTwoSource => exact planTwoSource_computes hplan
  | conditionalSelect => exact planConditionalSelect_computes hplan
  | _ => simp [InstructionClass.widthSelected] at hclass

/-! ### Loaded words -/

/-- A load of at most four bytes answers a value that is zero above bit 31. -/
theorem UnitMemory.toNat_lt_of_load {memory after : UnitMemory} {address value : Doubleword}
    {bytes : Nat} (hload : memory.load address bytes = .ok (.ok value, after))
    (hbytes : bytes ≤ wordBytes) : value.toNat < 2 ^ 32 := by
  unfold load at hload
  split at hload
  · cases hload
  obtain ⟨⟨low, middle⟩, -, hrest⟩ := bind_eq_ok hload
  simp only [if_pos hbytes] at hrest
  obtain ⟨hvalue, -⟩ := Prod.mk.inj (Except.ok.inj hrest)
  rw [← Except.ok.inj hvalue]
  exact Plan.toNat_widened_lt low

/-- Whether a load brings in a word as it is, with zeros above it. -/
def LoadRequest.Zeroing (request : LoadRequest) : Prop :=
  request.bytes = wordBytes ∧ request.signed = false

theorem performLoads_lt {loads : List LoadRequest} {memory after : UnitMemory}
    {writes : List RegisterWrite} (hperform : performLoads loads memory = .ok (.ok writes, after))
    (hloads : ∀ request ∈ loads, request.Zeroing) :
    ∀ write ∈ writes, write.value.toNat < 2 ^ 32 := by
  induction loads generalizing memory writes with
  | nil =>
    obtain ⟨hwrites, -⟩ := Prod.mk.inj (Except.ok.inj hperform)
    obtain rfl := Except.ok.inj hwrites
    exact List.forall_mem_nil _
  | cons request rest ih =>
    obtain ⟨hrequest, hlater⟩ := List.forall_mem_cons.1 hloads
    obtain ⟨⟨first, middle⟩, hfirst, hrest⟩ := bind_eq_ok hperform
    cases first with
    | error cause => cases hrest
    | ok value =>
      obtain ⟨⟨loaded, last⟩, hloaded, hlast⟩ := bind_eq_ok hrest
      cases loaded with
      | error cause => cases hlast
      | ok others =>
        obtain ⟨hwrites, rfl⟩ := Prod.mk.inj (Except.ok.inj hlast)
        obtain rfl := Except.ok.inj hwrites
        refine List.forall_mem_cons.2 ⟨?_, ih hloaded hlater⟩
        have hvalue : request.result value = value := by
          rw [LoadRequest.result, hrequest.2]
          rfl
        rw [RegisterWrite.data, hvalue]
        exact UnitMemory.toNat_lt_of_load hfirst (Nat.le_of_eq hrequest.1)

/-- Whether a plan brings in words with zeros above them, and writes only address registers
besides. -/
structure Plan.LoadsWords (made : Plan) : Prop where
  loads : ∀ request ∈ made.loads, request.Zeroing
  writes : ∀ write ∈ made.effects.writes, write.target = .address

theorem Indexing.writeback_target (indexing : Indexing) (reg : Nat) (base offset : Doubleword) :
    ∀ write ∈ indexing.writeback reg base offset, write.target = .address := by
  unfold writeback
  split
  · exact List.forall_mem_singleton.2 rfl
  · exact List.forall_mem_nil _

theorem planLoadLiteral_loadsWords {word : Word} {regs : RegisterFile} {made : Plan}
    (hplan : planLoadLiteral word .ldrW regs = .ok made) : made.LoadsWords := by
  obtain rfl := Except.ok.inj hplan
  exact ⟨List.forall_mem_singleton.2 ⟨rfl, rfl⟩, List.forall_mem_nil _⟩

theorem planLoadStore_loadsWords {word : Word} {regs : RegisterFile} {made : Plan}
    (indexing : Indexing) (hplan : planLoadStore word .ldrW indexing regs = .ok made) :
    made.LoadsWords := by
  unfold planLoadStore at hplan
  extract_lets rt rn offset base address writeback access at hplan
  simp only [access] at hplan
  split at hplan
  · contradiction
  obtain rfl := Except.ok.inj hplan
  exact ⟨List.forall_mem_singleton.2 ⟨rfl, rfl⟩, indexing.writeback_target rn base offset⟩

theorem planLoadStorePair_loadsWords {word : Word} {regs : RegisterFile} {made : Plan}
    (indexing : Indexing) (hplan : planLoadStorePair word .ldpW indexing regs = .ok made) :
    made.LoadsWords := by
  unfold planLoadStorePair at hplan
  extract_lets rt rt2 rn base access at hplan
  simp only [access] at hplan
  split at hplan
  · contradiction
  obtain rfl := Except.ok.inj hplan
  exact ⟨by simp [Plan.loading, LoadRequest.Zeroing, wordBytes],
    indexing.writeback_target rn base _⟩

/-- LDR W and LDP W bring in words with zeros above them. -/
theorem plan_loadsWords {word : Word} {instruction : Instruction}
    (hdecode : decode word = .ok instruction)
    (hloads : instruction.mnemonic = .ldrW ∨ instruction.mnemonic = .ldpW)
    {regs : RegisterFile} {made : Plan} (hplan : plan instruction regs = .ok made) :
    made.LoadsWords := by
  have hclass := forall_rows_of_decode (p := fun cls mnemonic =>
    mnemonic = .ldrW ∨ mnemonic = .ldpW →
      cls.operations.contains mnemonic = true ∨ cls = .loadStoreRegisterOffset)
    (by decide +kernel) hdecode hloads
  rcases instruction with ⟨word, group, cls, mnemonic⟩
  rcases hloads with rfl | rfl
  · cases cls with
    | loadRegisterLiteral => exact planLoadLiteral_loadsWords hplan
    | loadStoreUnsignedImmediate => exact planLoadStore_loadsWords .offset hplan
    | loadStoreImmediatePreIndexed => exact planLoadStore_loadsWords .preIndex hplan
    | loadStoreImmediatePostIndexed => exact planLoadStore_loadsWords .postIndex hplan
    | loadStoreRegisterOffset => contradiction
    | _ => simp [InstructionClass.operations] at hclass
  · cases cls with
    | loadStorePairOffset => exact planLoadStorePair_loadsWords .offset hplan
    | loadStorePairPreIndexed => exact planLoadStorePair_loadsWords .preIndex hplan
    | loadStorePairPostIndexed => exact planLoadStorePair_loadsWords .postIndex hplan
    | loadStoreRegisterOffset => contradiction
    | _ => simp [InstructionClass.operations] at hclass

/-! ### Scaled offsets -/

/-- The offset of a load or store of one register counts in units of what it transfers. -/
theorem loadStoreOffset_of_decode {start : Word} {instruction : Instruction}
    (hdecode : decode start = .ok instruction)
    (hclass : instruction.cls = .loadStoreUnsignedImmediate) {bytes : Nat}
    (hbytes : instruction.mnemonic.transferSizes = [bytes]) :
    loadStoreOffset instruction.word .offset =
      (InstructionField.imm12.extract instruction.word).setWidth 64 * BitVec.ofNat 64 bytes := by
  have hrows : ∀ row ∈ registerRows, (∀ i < InstructionField.size.width,
      row.mask.getLsbD (InstructionField.size.offset + i) = true) ∧
        (row.label.transferSizes = [] ∨ row.label.transferSizes =
          [2 ^ (InstructionField.size.extract row.expected).toNat]) := by
    decide
  have htable : instruction.cls.mnemonics = some registerRows := by
    rw [hclass]
    rfl
  obtain ⟨row, hrow, haccepts, hlabel⟩ := row_of_decode hdecode registerRows htable
  obtain ⟨hmask, hsizes⟩ := hrows row hrow
  have hsize : bytes = 2 ^ (InstructionField.size.extract instruction.word).toNat := by
    rw [Row.extract_of_accepts haccepts hmask]
    rw [hlabel, hbytes] at hsizes
    simpa using hsizes
  have hscale (n : Nat) : BitVec.twoPow 64 n = BitVec.ofNat 64 (2 ^ n) := by
    apply BitVec.eq_of_toNat_eq
    rw [BitVec.toNat_twoPow, BitVec.toNat_ofNat]
  rw [loadStoreOffset, hsize, BitVec.shiftLeft_eq_mul_twoPow, hscale]

/-- A load or store of one register at an unsigned offset accesses what the offset, in units of the
access, is away from the base. -/
theorem accesses_of_unsignedOffset {start : Word} {instruction : Instruction}
    (hdecode : decode start = .ok instruction)
    (hclass : instruction.cls = .loadStoreUnsignedImmediate) {bytes : Nat}
    (hbytes : instruction.mnemonic.transferSizes = [bytes]) (regs : RegisterFile) :
    (plan instruction regs).map Plan.accesses =
      .ok [⟨regs.gprOrSp (Operand.rn instruction.word) +
        (InstructionField.imm12.extract instruction.word).setWidth 64 * BitVec.ofNat 64 bytes,
          bytes⟩] := by
  have haccesses : loadStoreAccesses instruction.word instruction.mnemonic .offset regs =
      [⟨regs.gprOrSp (Operand.rn instruction.word) +
        (InstructionField.imm12.extract instruction.word).setWidth 64 * BitVec.ofNat 64 bytes,
          bytes⟩] := by
    rw [loadStoreAccesses, hbytes, loadStoreOffset_of_decode hdecode hclass hbytes]
    rfl
  rcases instruction with ⟨word, group, cls, mnemonic⟩
  obtain rfl : cls = .loadStoreUnsignedImmediate := hclass
  rw [plan_accesses, ← haccesses]
  cases mnemonic with
  | strW | ldrW | ldrsw | strX | ldrX => rfl
  | _ => simp [Mnemonic.transferSizes] at hbytes

/-- Width suffix, width bit, zero extension and scaling agree.  The width that a mnemonic names is the
one that bit 31 selects; what a 32-bit form writes, and what LDR W and LDP W load, is zero above bit
31; and an unsigned offset counts in units of the access. -/
theorem operandWidth_agrees {word : Word} {instruction : Instruction}
    (hdecode : decode word = .ok instruction) :
    (instruction.cls.selectsWidth instruction.mnemonic = true →
      instruction.mnemonic.operandWidth = some (Operand.width word) ∧
        (instruction.mnemonic.operandWidth = some .w32 ↔ word.getLsbD 31 = false)) ∧
    (∀ regs memory effects after,
      execute instruction regs memory = .ok (.ok effects, after) →
        (instruction.cls.selectsWidth instruction.mnemonic = true →
          instruction.mnemonic.operandWidth = some .w32 →
            ∀ write ∈ effects.writes, write.value.toNat < 2 ^ 32) ∧
        (instruction.mnemonic = .ldrW ∨ instruction.mnemonic = .ldpW →
          ∀ write ∈ effects.writes, write.target = .data → write.value.toNat < 2 ^ 32)) ∧
    (instruction.cls = .loadStoreUnsignedImmediate → ∀ bytes,
      instruction.mnemonic.transferSizes = [bytes] → ∀ regs,
        (plan instruction regs).map Plan.accesses =
          .ok [⟨regs.gprOrSp (Operand.rn word) +
            (InstructionField.imm12.extract word).setWidth 64 * BitVec.ofNat 64 bytes, bytes⟩]) := by
  have hword := (decode_eq_ok hdecode).1
  rw [← hword]
  refine ⟨?_, ?_, ?_⟩
  · intro hselects
    have hwidth := operandWidth_of_decode hdecode hselects
    refine ⟨hwidth, ?_⟩
    rw [hwidth, Operand.width]
    cases instruction.word.getLsbD 31 <;> decide
  · intro regs memory effects after hexecute
    obtain ⟨made, loaded, middle, hplan, hloaded, rfl⟩ := effects_of_execute hexecute
    refine ⟨?_, ?_⟩
    · intro hselects hnarrow
      have hclass := InstructionClass.mem_widthSelected hselects
      have hnone := accesses_of_widthSelected hdecode hclass hplan
      have hbelow := (plan_computes hclass hplan).writesBelow
      rw [operandWidth_of_decode hdecode hselects, Option.some.injEq] at hnarrow
      rw [hnarrow] at hbelow
      rw [List.map_eq_nil_iff.1 (List.append_eq_nil_iff.1 hnone).1] at hloaded
      obtain ⟨hempty, -⟩ := Prod.mk.inj (Except.ok.inj hloaded)
      obtain rfl := Except.ok.inj hempty
      exact hbelow
    · intro hloads write hwrite hdata
      have hwords := plan_loadsWords hdecode hloads hplan
      rcases List.mem_append.1 hwrite with hfirst | hlast
      · exact performLoads_lt hloaded hwords.loads write hfirst
      · rw [hwords.writes write hlast] at hdata
        contradiction
  · intro hclass bytes hbytes regs
    exact accesses_of_unsignedOffset hdecode hclass hbytes regs

/-- MOVN W0, #0 sets the low half of X0 and clears the high one; LDR W0, [X1, #4] loads the word that
is four bytes above the base, with zeros above it. -/
theorem operandWidth_agrees_ones :
    ∃ moves loads : Instruction, ∃ memory middle after : UnitMemory, ∃ moved loaded : Effects,
      decode 0x12800000 = .ok moves ∧ decode 0xB9400420 = .ok loads ∧
      execute moves {} memory = .ok (.ok moved, middle) ∧
      execute loads {} memory = .ok (.ok loaded, after) ∧
      moves.mnemonic.operandWidth = some (Operand.width 0x12800000) ∧
      moved.writes = [.data 0 0xFFFFFFFF] ∧ (∀ write ∈ moved.writes, write.value.toNat < 2 ^ 32) ∧
      loaded.writes = [.data 0 0xFFFFFFFE] ∧
      (∀ write ∈ loaded.writes, write.target = .data → write.value.toNat < 2 ^ 32) ∧
      (plan loads {}).map Plan.accesses = .ok [⟨4, 4⟩] := by
  let store : Ram := { name := "RAM", words := #[0, 0xFFFFFFFE] }
  let memory : UnitMemory := { hierarchy := .ram store, stack := .zeroed "STACK" 4 }
  let moves : Instruction :=
    ⟨0x12800000, .dataProcessingImmediate, .moveWideImmediate, .movnW⟩
  let loads : Instruction := ⟨0xB9400420, .loadStore, .loadStoreUnsignedImmediate, .ldrW⟩
  have hmoves : decode 0x12800000 = .ok moves := rfl
  have hloads : decode 0xB9400420 = .ok loads := rfl
  have hplan : plan moves {} = .ok (.result {} 0 0xFFFFFFFF#32) :=
    eq_ok_of_toOption (by decide +kernel)
  have hmoved : execute moves {} memory =
      .ok (.ok { writes := [.data 0 0xFFFFFFFF], nextPc := 4 }, memory) := by
    rw [execute, hplan]
    rfl
  obtain ⟨after, hloaded⟩ : ∃ after, execute loads {} memory =
      .ok (.ok { writes := [.data 0 0xFFFFFFFE], nextPc := 4 }, after) :=
    exists_of_answer (by decide +kernel)
  obtain ⟨hwidth, hnarrow, -⟩ := operandWidth_agrees hmoves
  obtain ⟨-, hwords, hscaled⟩ := operandWidth_agrees hloads
  exact ⟨moves, loads, memory, memory, after, _, _, hmoves, hloads, hmoved, hloaded,
    (hwidth rfl).1, rfl, (hnarrow _ _ _ _ hmoved).1 rfl rfl, rfl,
    (hwords _ _ _ _ hloaded).2 (.inl rfl), hscaled rfl 4 rfl {}⟩

end A64Machine
