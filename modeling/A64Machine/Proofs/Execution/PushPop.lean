import A64Machine.Proofs.Encoding.Assembly
import A64Machine.Proofs.Execution.StackAccesses

/-!
Pushes and pops.  What is pushed and popped in nesting order comes back: the pops find what the pushes
left, the stack pointer is where it was, and nothing that was on the stack before is touched.
-/

namespace A64Machine

/-- Whether registers are pushed or popped, and whether there are two of them or one:
STP [SP, #-16]!, LDP [SP], #16, STR [SP, #-8]! and LDR [SP], #8 of 64-bit registers. -/
structure StackOperation where
  pushes : Bool
  pair : Bool
  deriving Repr, DecidableEq

namespace StackOperation

/-- The instruction of an operation whose registers have number 0. -/
def template : StackOperation → Instruction
  | ⟨true, true⟩ => ⟨0xA9BF03E0, .loadStore, .loadStorePairPreIndexed, .stpX⟩
  | ⟨false, true⟩ => ⟨0xA8C103E0, .loadStore, .loadStorePairPostIndexed, .ldpX⟩
  | ⟨true, false⟩ => ⟨0xF81F8FE0, .loadStore, .loadStoreImmediatePreIndexed, .strX⟩
  | ⟨false, false⟩ => ⟨0xF84087E0, .loadStore, .loadStoreImmediatePostIndexed, .ldrX⟩

def fields (operation : StackOperation) : List InstructionField :=
  if operation.pair then [.rt, .rt2] else [.rt]

/-- The registers in their fields; one register is the first. -/
def placements (operation : StackOperation) (first second : BitVec 5) : List Placement :=
  if operation.pair then [⟨.rt, first⟩, ⟨.rt2, second⟩] else [⟨.rt, first⟩]

def word (operation : StackOperation) (first second : BitVec 5) : Word :=
  assemble operation.template.word (operation.placements first second)

/-- The instruction that the word of an operation is. -/
def instruction (operation : StackOperation) (first second : BitVec 5) : Instruction :=
  { operation.template with word := operation.word first second }

def bytes (operation : StackOperation) : Nat :=
  if operation.pair then 16 else 8

def indexing (operation : StackOperation) : Indexing :=
  if operation.pushes then .preIndex else .postIndex

/-- Where an operation moves the stack pointer. -/
def moved (operation : StackOperation) (sp : Doubleword) : Doubleword :=
  if operation.pushes then sp - BitVec.ofNat 64 operation.bytes
  else sp + BitVec.ofNat 64 operation.bytes

/-- The lowest address of what an operation has on the stack. -/
def lowest (operation : StackOperation) (sp : Doubleword) : Doubleword :=
  if operation.pushes then operation.moved sp else sp

/-- The registers of an operation with their places from an address on. -/
def slots (operation : StackOperation) (first second : BitVec 5) (address : Doubleword) :
    List Slot :=
  if operation.pair then [⟨first.toNat, address⟩, ⟨second.toNat, address + 8⟩]
  else [⟨first.toNat, address⟩]

section Words

variable (operation : StackOperation) (first second : BitVec 5)

theorem template_fields : operation.template.Template operation.fields := by
  obtain ⟨pushes, pair⟩ := operation
  cases pushes <;> cases pair <;> exact Instruction.template_of_closed rfl (by decide +kernel)

theorem placements_fields :
    (operation.placements first second).map Placement.field = operation.fields := by
  unfold placements fields
  split <;> rfl

theorem decode_word :
    decode (operation.word first second) = .ok (operation.instruction first second) :=
  operation.template_fields.decode_assemble (operation.placements_fields first second)

/-- The fields of a word that hold no register are those of the template. -/
theorem extract_word_of_apart {field : InstructionField}
    (hapart : ∀ other ∈ operation.fields, field.Apart other) :
    field.extract (operation.word first second) = field.extract operation.template.word := by
  apply extract_assemble_of_apart
  intro placement hplacement
  apply hapart
  rw [← operation.placements_fields first second]
  exact List.mem_map_of_mem hplacement

theorem rt_word : Operand.rt (operation.word first second) = first.toNat := by
  have hrt : InstructionField.rt.extract (operation.word first second) = first := by
    have hmem : (⟨.rt, first⟩ : Placement) ∈ operation.placements first second := by
      unfold placements
      split <;> exact .head _
    exact operation.template_fields.extract_eq (operation.placements_fields first second) hmem
  rw [Operand.rt, hrt]

theorem rt2_word (hpair : operation.pair = true) :
    Operand.rt2 (operation.word first second) = second.toNat := by
  have hrt2 : InstructionField.rt2.extract (operation.word first second) = second := by
    have hmem : (⟨.rt2, second⟩ : Placement) ∈ operation.placements first second := by
      rw [placements, if_pos hpair]
      exact .tail _ (.head _)
    exact operation.template_fields.extract_eq (operation.placements_fields first second) hmem
  rw [Operand.rt2, hrt2]

/-- The base register is the stack pointer. -/
theorem rn_word : Operand.rn (operation.word first second) = zeroOrSp := by
  have hfields : ∀ pushes pair : Bool,
      (∀ other ∈ fields ⟨pushes, pair⟩, InstructionField.rn.Apart other) ∧
        Operand.rn (template ⟨pushes, pair⟩).word = zeroOrSp := by decide +kernel
  obtain ⟨hapart, hrn⟩ := hfields operation.pushes operation.pair
  rw [Operand.rn, operation.extract_word_of_apart first second hapart]
  exact hrn

/-- The offset of a word is what it has on the stack, downwards for a push. -/
theorem transferOffset_word :
    transferOffset (operation.word first second) operation.template.mnemonic operation.indexing =
      if operation.pushes then -(operation.bytes : Int) else operation.bytes := by
  obtain ⟨pushes, pair⟩ := operation
  cases pair with
  | true =>
    have himm : InstructionField.imm7.extract (word ⟨pushes, true⟩ first second) =
        InstructionField.imm7.extract (template ⟨pushes, true⟩).word :=
      extract_word_of_apart ⟨pushes, true⟩ first second (by cases pushes <;> decide)
    cases pushes <;>
      exact (congrArg (fun imm : BitVec 7 => imm.toInt * (8 : Int)) himm).trans (by decide)
  | false =>
    have himm : InstructionField.imm9.extract (word ⟨pushes, false⟩ first second) =
        InstructionField.imm9.extract (template ⟨pushes, false⟩).word :=
      extract_word_of_apart ⟨pushes, false⟩ first second (by cases pushes <;> decide)
    cases pushes <;> exact (congrArg BitVec.toInt himm).trans (by decide)

theorem movedBase_word (regs : RegisterFile) :
    movedBase (operation.word first second) operation.template.mnemonic operation.indexing regs =
      operation.moved regs.sp := by
  rw [movedBase, transferOffset_word, operation.rn_word first second, moved]
  change regs.sp + _ = _
  split
  · rw [BitVec.ofInt_neg, BitVec.ofInt_natCast, BitVec.sub_eq_add_neg]
  · rw [BitVec.ofInt_natCast]

theorem transferAddress_word (regs : RegisterFile) :
    transferAddress (operation.word first second) operation.template.mnemonic operation.indexing
      regs = operation.lowest regs.sp := by
  have hmoved := operation.movedBase_word first second regs
  have hbase : regs.gprOrSp (Operand.rn (operation.word first second)) = regs.sp := by
    rw [rn_word]
    rfl
  obtain ⟨pushes, pair⟩ := operation
  cases pushes with
  | true => exact hmoved
  | false => exact hbase

theorem mnemonic_template : operation.template.mnemonic.isPair = operation.pair ∧
    operation.template.mnemonic.transferBytes = 8 ∧
    operation.template.mnemonic.isStore = operation.pushes ∧
    operation.template.mnemonic ≠ .ldrsw := by
  obtain ⟨pushes, pair⟩ := operation
  cases pushes <;> cases pair <;> decide

/-- The registers that a word transfers at an address. -/
theorem slotsAt_word (address : Doubleword) :
    slotsAt (operation.word first second) operation.template.mnemonic address =
      operation.slots first second address := by
  obtain ⟨hpair, hbytes, -⟩ := operation.mnemonic_template
  rw [slotsAt, hpair, hbytes, rt_word, slots]
  by_cases htwo : operation.pair = true
  · rw [if_pos htwo, if_pos htwo, operation.rt2_word first second htwo]
    rfl
  · rw [if_neg htwo, if_neg htwo]

/-- The encoding of a word is defined unless a pair is popped into one register. -/
theorem encodingFault_word (hdistinct : operation = ⟨false, true⟩ → first ≠ second) :
    (operation.instruction first second).encodingFault = none := by
  have hrn := operation.rn_word first second
  have hrt := operation.rt_word first second
  have hpairFault (hpair : operation.pair = true)
      (hload : operation.template.mnemonic.isLoadPair = true → first ≠ second) :
      pairFault (operation.word first second) operation.template.mnemonic operation.indexing =
        none := by
    refine if_neg ?_
    rintro (⟨hloads, hsame⟩ | ⟨-, -, hbase⟩)
    · rw [hrt, operation.rt2_word first second hpair] at hsame
      exact hload hloads (BitVec.eq_of_toNat_eq hsame)
    · exact hbase hrn
  have hsingleFault (hmnemonic : operation.template.mnemonic ≠ .prfm) :
      loadStoreFault (operation.word first second) operation.template.mnemonic
        operation.indexing = none := by
    unfold loadStoreFault
    rw [if_neg hmnemonic]
    exact if_neg fun hclash => hclash.2.2 hrn
  obtain ⟨pushes, pair⟩ := operation
  cases pushes <;> cases pair
  · exact hsingleFault (by decide)
  · exact hpairFault rfl fun _ => hdistinct rfl
  · exact hsingleFault (by decide)
  · exact hpairFault rfl fun hload => absurd hload (by decide)

theorem baseUpdate_word (regs : RegisterFile) :
    baseUpdate (operation.word first second) operation.template.mnemonic operation.indexing regs =
      [.address zeroOrSp (operation.moved regs.sp)] := by
  have hwrites : operation.indexing.writesBack = true := by
    unfold indexing
    split <;> rfl
  rw [baseUpdate, if_pos hwrites, rn_word, movedBase_word]

/-- The plan of a word. -/
theorem plan_word (hdistinct : operation = ⟨false, true⟩ → first ≠ second) (regs : RegisterFile) :
    plan (operation.instruction first second) regs =
      .ok (let slots := operation.slots first second (operation.lowest regs.sp)
        let mnemonic := operation.template.mnemonic
        let update := [.address zeroOrSp (operation.moved regs.sp)]
        if operation.pushes then .storing regs (slots.map (Slot.pending mnemonic regs)) update
        else .loading regs (slots.map (Slot.request mnemonic)) update) := by
  have hclosed : ∀ pushes pair : Bool,
      (template ⟨pushes, pair⟩).cls.indexing = some (indexing ⟨pushes, pair⟩) ∧
        (template ⟨pushes, pair⟩).mnemonic ≠ .prfm ∧
        (template ⟨pushes, pair⟩).cls.executes (template ⟨pushes, pair⟩).mnemonic = true := by
    decide
  obtain ⟨hindexing, hmnemonic, hexecutes⟩ := hclosed operation.pushes operation.pair
  obtain ⟨-, -, hstore, -⟩ := operation.mnemonic_template
  have hplan := plan_eq_transferPlan (operation.decode_word first second) hindexing hmnemonic
    hexecutes regs
  rw [operation.encodingFault_word first second hdistinct] at hplan
  refine hplan.trans (congrArg Except.ok ?_)
  change transferPlan (operation.word first second) operation.template.mnemonic
    operation.indexing regs = _
  rw [transferPlan, transferSlots, transferAddress_word, slotsAt_word, baseUpdate_word, hstore]

end Words

end StackOperation

/-- Whether two flat views have the same words on the stack from an address on. -/
structure UnitWords.KeepsAbove (words after : UnitWords) (address : Nat) : Prop where
  map_eq : after.map = words.map
  wordAt_eq : ∀ word, address ≤ stackBase + word * wordBytes →
    after.wordAt ⟨.stack, word⟩ = words.wordAt ⟨.stack, word⟩

namespace UnitWords

variable {words middle after : UnitWords} {address bound : Nat}

theorem KeepsAbove.refl (words : UnitWords) (address : Nat) : words.KeepsAbove words address :=
  ⟨rfl, fun _ _ => rfl⟩

theorem KeepsAbove.trans (hfirst : words.KeepsAbove middle address)
    (hsecond : middle.KeepsAbove after address) : words.KeepsAbove after address where
  map_eq := hsecond.map_eq.trans hfirst.map_eq
  wordAt_eq word hword := (hsecond.wordAt_eq word hword).trans (hfirst.wordAt_eq word hword)

theorem KeepsAbove.mono (hkeeps : words.KeepsAbove after bound) (hle : bound ≤ address) :
    words.KeepsAbove after address where
  map_eq := hkeeps.map_eq
  wordAt_eq word hword := hkeeps.wordAt_eq word (Nat.le_trans hle hword)

/-- What is loaded from above the bound is the same. -/
theorem KeepsAbove.load_eq (hkeeps : words.KeepsAbove after bound) {place : Doubleword}
    (hbound : bound ≤ place.toNat) (hstack : UnitMemory.InStack words.map ⟨place, 8⟩) :
    after.load place 8 = words.load place 8 := by
  obtain ⟨location, hresolve⟩ := AddressMap.fault?_eq_none_iff.1 hstack.mapped
  obtain ⟨haligned, -, hlocation⟩ := AddressMap.resolve_eq_ok_iff.1 hresolve
  rw [AddressMap.locate_of_inWindow hstack.inWindow] at hlocation
  have hbase : stackBase ≤ place.toNat := hstack.inWindow.1
  simp only [wordBytes] at haligned
  have hlow : after.wordAt location = words.wordAt location := by
    rw [hlocation]
    apply hkeeps.wordAt_eq
    simp only [stackBase, wordBytes] at *
    omega
  have hhigh : after.wordAt (next location) = words.wordAt (next location) := by
    rw [hlocation]
    apply hkeeps.wordAt_eq
    simp only [stackBase, wordBytes] at *
    omega
  have hplace : words.map.resolve place 8 = .ok location := hresolve
  rw [load_eight, load_eight, hkeeps.map_eq, hplace]
  simp only [Except.map, hlow, hhigh]

/-- Stores to the stack below an address leave what is above. -/
theorem commitStores_keepsAbove {stores : List PendingStore}
    (hstores : ∀ pending ∈ stores, UnitMemory.InStack words.map pending.access ∧
      pending.address.toNat + pending.bytes ≤ address) :
    words.KeepsAbove (words.commitStores stores) address := by
  obtain ⟨hmap, hframe⟩ := words.commitStores_frame stores
    fun pending hpending => (hstores pending hpending).1.bytes_pos
  refine ⟨hmap, ?_⟩
  intro word hword
  apply hframe
  rintro pending hpending ⟨first, hresolve, -, hstart, hend⟩
  obtain ⟨hstack, hbelow⟩ := hstores pending hpending
  obtain ⟨haligned, -, rfl⟩ := AddressMap.resolve_eq_ok_iff.1 hresolve
  have hbase : stackBase ≤ pending.access.address.toNat := hstack.inWindow.1
  rw [AddressMap.locate_of_inWindow hstack.inWindow] at hend
  simp only [PendingStore.access, wordBytes] at *
  omega

end UnitWords

namespace StackOperation

variable {map : AddressMap} {address : Doubleword}

/-- Eight bytes on the stack. -/
theorem inStack_of_bounds (haligned : address.toNat % wordBytes = 0)
    (hlow : stackBase ≤ address.toNat) (hhigh : address.toNat + 8 ≤ map.stackTop)
    (hwrap : address.toNat + 8 < byteAddresses) : UnitMemory.InStack map ⟨address, 8⟩ := by
  have hbelow : address.toNat < map.stackTop := by omega
  refine ⟨Nat.zero_lt_succ 7, ⟨hlow, hbelow⟩, ?_⟩
  rw [AddressMap.fault?_eq_none_iff]
  exact ⟨_, AddressMap.resolve_eq_ok_iff.2
    ⟨haligned, ⟨hwrap, .inl ⟨hlow, hbelow, hhigh⟩⟩, rfl⟩⟩

/-- What an operation has on the stack, from an address on. -/
theorem slots_inStack (operation : StackOperation) (first second : BitVec 5)
    (haligned : address.toNat % wordBytes = 0) (hlow : stackBase ≤ address.toNat)
    (hhigh : address.toNat + operation.bytes ≤ map.stackTop)
    (hwrap : address.toNat + operation.bytes < byteAddresses) :
    ∀ slot ∈ operation.slots first second address, UnitMemory.InStack map ⟨slot.address, 8⟩ ∧
      address.toNat ≤ slot.address.toNat ∧
      slot.address.toNat + 8 ≤ address.toNat + operation.bytes := by
  intro slot hslot
  unfold slots at hslot
  unfold bytes at *
  have hbits : byteAddresses = 2 ^ 64 := rfl
  simp only [wordBytes] at haligned
  split at hslot
  case isTrue hpair =>
    rw [if_pos hpair] at *
    have hsum : (address + 8).toNat = address.toNat + 8 := by
      rw [BitVec.toNat_add]
      exact Nat.mod_eq_of_lt (show address.toNat + 8 < 2 ^ 64 by omega)
    simp only [List.mem_cons, List.not_mem_nil, or_false] at hslot
    rcases hslot with rfl | rfl
    all_goals dsimp only
    · exact ⟨inStack_of_bounds haligned hlow (by omega) (by omega), Nat.le_refl _, by omega⟩
    · have haligned' : (address + 8).toNat % wordBytes = 0 := by
        simp only [wordBytes]
        omega
      exact ⟨inStack_of_bounds haligned' (by omega) (by omega) (by omega), by omega, by omega⟩
  case isFalse hsingle =>
    rw [if_neg hsingle] at *
    obtain rfl := List.mem_singleton.1 hslot
    exact ⟨inStack_of_bounds haligned hlow hhigh hwrap, Nat.le_refl _, Nat.le_refl _⟩

section Execution

variable {regs : RegisterFile} {memory : UnitMemory} (pair : Bool) (first second : BitVec 5)

theorem bytes_cases (operation : StackOperation) : operation.bytes = 8 ∨ operation.bytes = 16 := by
  unfold bytes
  split <;> decide

theorem toNat_moved_push {sp : Doubleword} (hroom : bytes ⟨true, pair⟩ ≤ sp.toNat) :
    (moved ⟨true, pair⟩ sp).toNat = sp.toNat - bytes ⟨true, pair⟩ := by
  have hbytes := bytes_cases ⟨true, pair⟩
  have hnumber : (BitVec.ofNat 64 (bytes ⟨true, pair⟩)).toNat = bytes ⟨true, pair⟩ := by
    rw [BitVec.toNat_ofNat]
    omega
  have hle : BitVec.ofNat 64 (bytes ⟨true, pair⟩) ≤ sp := by
    rw [BitVec.le_def, hnumber]
    exact hroom
  change (sp - BitVec.ofNat 64 (bytes ⟨true, pair⟩)).toNat = _
  rw [BitVec.toNat_sub_of_le hle, hnumber]

/-- The places of the registers of an operation are apart from each other when they are mapped. -/
theorem pairwise_apart_slots (operation : StackOperation) {words : UnitWords} {address : Doubleword}
    (hmapped : ∀ slot ∈ operation.slots first second address,
      words.map.fault? slot.address 8 = none) :
    ((operation.slots first second address).map
        (Slot.pending operation.template.mnemonic regs)).Pairwise
      fun first later => later.access.Apart first.access := by
  obtain ⟨-, hbytes, -⟩ := operation.mnemonic_template
  rw [← slotsAt_word] at hmapped ⊢
  exact slots_pairwise (by rwa [hbytes])

/-- The registers of an operation are found in their places after they were stored there. -/
theorem load_commitStores_slots (operation : StackOperation) {words : UnitWords}
    {address : Doubleword}
    (hmapped : ∀ slot ∈ operation.slots first second address,
      words.map.fault? slot.address 8 = none)
    {slot : Slot} (hslot : slot ∈ operation.slots first second address) :
    (words.commitStores ((operation.slots first second address).map
        (Slot.pending operation.template.mnemonic regs))).load slot.address 8 =
      .ok (regs.gpr slot.reg) := by
  obtain ⟨-, hbytes, -⟩ := operation.mnemonic_template
  have hstored : ∀ pending ∈ (operation.slots first second address).map
      (Slot.pending operation.template.mnemonic regs),
      (pending.bytes = 4 ∨ pending.bytes = 8) ∧
        words.map.fault? pending.address pending.bytes = none := by
    intro pending hpending
    obtain ⟨slot, hslot, rfl⟩ := List.mem_map.1 hpending
    simp only [Slot.pending, hbytes]
    exact ⟨.inr trivial, hmapped slot hslot⟩
  have hload := UnitWords.load_commitStores (pairwise_apart_slots first second operation hmapped)
    hstored _ (List.mem_map_of_mem hslot)
  simp only [Slot.pending, hbytes] at hload
  rw [hload, lowBytes_storedValue regs slot.reg (.inr rfl), lowBytes_whole]

/-- A push moves the stack pointer down and leaves its registers there. -/
theorem executeWord_push (haligned : regs.sp.toNat % wordBytes = 0)
    (hlow : stackBase + bytes ⟨true, pair⟩ ≤ regs.sp.toNat)
    (hhigh : regs.sp.toNat ≤ memory.map.stackTop) :
    ∃ after, executeWord (word ⟨true, pair⟩ first second) regs memory =
        .ok (.ok ((regs.setSp (moved ⟨true, pair⟩ regs.sp)).setPc (regs.pc + 4)), after) ∧
      after.hierarchy = memory.hierarchy ∧
      memory.words.KeepsAbove after.words regs.sp.toNat ∧
      ∀ slot ∈ slots ⟨true, pair⟩ first second (moved ⟨true, pair⟩ regs.sp),
        after.words.load slot.address 8 = .ok (regs.gpr slot.reg) := by
  obtain ⟨-, hbytes, -⟩ := mnemonic_template ⟨true, pair⟩
  let address := moved ⟨true, pair⟩ regs.sp
  let stores := (slots ⟨true, pair⟩ first second address).map
    (Slot.pending (template ⟨true, pair⟩).mnemonic regs)
  have hplan : plan (instruction ⟨true, pair⟩ first second) regs =
      .ok (.storing regs stores [.address zeroOrSp address]) :=
    plan_word ⟨true, pair⟩ first second (by simp) regs
  have haddress : address.toNat = regs.sp.toNat - bytes ⟨true, pair⟩ :=
    toNat_moved_push pair (by omega)
  have hsize := bytes_cases ⟨true, pair⟩
  have hsp := regs.sp.isLt
  have hbits : byteAddresses = 2 ^ 64 := rfl
  have hslots : ∀ slot ∈ slots ⟨true, pair⟩ first second address,
      UnitMemory.InStack memory.map ⟨slot.address, 8⟩ ∧ address.toNat ≤ slot.address.toNat ∧
        slot.address.toNat + 8 ≤ address.toNat + bytes ⟨true, pair⟩ := by
    apply slots_inStack
    · simp only [wordBytes] at *
      omega
    all_goals omega
  have hpending : ∀ pending ∈ stores, UnitMemory.InStack memory.map pending.access ∧
      pending.address.toNat + pending.bytes ≤ regs.sp.toNat := by
    intro pending hpending
    obtain ⟨slot, hslot, rfl⟩ := List.mem_map.1 hpending
    obtain ⟨hstack, -, hend⟩ := hslots slot hslot
    simp only [Slot.pending, PendingStore.access, hbytes]
    exact ⟨hstack, by omega⟩
  have haccesses : ∀ access ∈ (Plan.storing regs stores [.address zeroOrSp address]).accesses,
      UnitMemory.InStack memory.map access := by
    intro access haccess
    obtain ⟨pending, hmem, rfl⟩ := List.mem_map.1 haccess
    exact (hpending pending hmem).1
  obtain ⟨after, hexecute, hafter⟩ :=
    executeWord_of_stack (decode_word ⟨true, pair⟩ first second) hplan haccesses
  have hwords : after.words = memory.words.commitStores stores := hafter.words_eq
  refine ⟨after, hexecute, hafter.hierarchy_eq, ?_, ?_⟩ <;> rw [hwords]
  · apply UnitWords.commitStores_keepsAbove
    rwa [UnitMemory.map_words]
  · intro slot hslot
    apply load_commitStores_slots
    · intro slot hslot
      rw [UnitMemory.map_words]
      exact (hslots slot hslot).1.mapped
    · exact hslot

/-- What a load of a slot leaves in its register. -/
theorem loadedWrite_request {words : UnitWords} {slot : Slot} {mnemonic : Mnemonic}
    {value : Doubleword} (hbytes : mnemonic.transferBytes = 8) (hunsigned : mnemonic ≠ .ldrsw)
    (hvalue : words.load slot.address 8 = .ok value) :
    words.loadedWrite (slot.request mnemonic) = .data slot.reg value := by
  have hsigned : (mnemonic == .ldrsw) = false := beq_eq_false_iff_ne.2 hunsigned
  simp only [UnitWords.loadedWrite, Slot.request, hbytes, hvalue, hsigned, LoadRequest.result]
  rfl

/-- A pop loads its registers and moves the stack pointer up. -/
theorem executeWord_pop (hdistinct : pair = true → first ≠ second)
    (haligned : regs.sp.toNat % wordBytes = 0) (hlow : stackBase ≤ regs.sp.toNat)
    (hhigh : regs.sp.toNat + bytes ⟨false, pair⟩ ≤ memory.map.stackTop)
    (hwrap : regs.sp.toNat + bytes ⟨false, pair⟩ < byteAddresses) {values : Slot → Doubleword}
    (hvalues : ∀ slot ∈ slots ⟨false, pair⟩ first second regs.sp,
      memory.words.load slot.address 8 = .ok (values slot)) :
    ∃ after, executeWord (word ⟨false, pair⟩ first second) regs memory =
        .ok (.ok (Effects.applyTo
          { writes := (slots ⟨false, pair⟩ first second regs.sp).map
              (fun slot => .data slot.reg (values slot)) ++
                [.address zeroOrSp (moved ⟨false, pair⟩ regs.sp)]
            nextPc := regs.pc + 4 } regs), after) ∧
      after.hierarchy = memory.hierarchy ∧ after.words = memory.words := by
  obtain ⟨-, hbytes, -, hunsigned⟩ := mnemonic_template ⟨false, pair⟩
  let loads := (slots ⟨false, pair⟩ first second regs.sp).map
    (Slot.request (template ⟨false, pair⟩).mnemonic)
  have hplan : plan (instruction ⟨false, pair⟩ first second) regs =
      .ok (.loading regs loads [.address zeroOrSp (moved ⟨false, pair⟩ regs.sp)]) :=
    plan_word ⟨false, pair⟩ first second
      (fun hoperation => hdistinct (congrArg StackOperation.pair hoperation)) regs
  have hslots := slots_inStack ⟨false, pair⟩ first second haligned hlow hhigh hwrap
  have haccesses : ∀ access ∈ (Plan.loading regs loads
      [.address zeroOrSp (moved ⟨false, pair⟩ regs.sp)]).accesses,
      UnitMemory.InStack memory.map access := by
    intro access haccess
    rw [Plan.accesses, Plan.loading, List.map_nil, List.append_nil] at haccess
    obtain ⟨request, hrequest, rfl⟩ := List.mem_map.1 haccess
    obtain ⟨slot, hslot, rfl⟩ := List.mem_map.1 hrequest
    simp only [Slot.request, LoadRequest.access, hbytes]
    exact (hslots slot hslot).1
  obtain ⟨after, hexecute, hafter⟩ :=
    executeWord_of_stack (decode_word ⟨false, pair⟩ first second) hplan haccesses
  have hloaded : loads.map memory.words.loadedWrite =
      (slots ⟨false, pair⟩ first second regs.sp).map fun slot => .data slot.reg (values slot) := by
    rw [List.map_map]
    apply List.map_congr_left
    intro slot hslot
    exact loadedWrite_request hbytes hunsigned (hvalues slot hslot)
  refine ⟨after, ?_, hafter.hierarchy_eq, hafter.words_eq⟩
  rw [hexecute, ← hloaded]
  rfl

end Execution

end StackOperation

/-- What is pushed from some registers and popped into others: X`a` and X`b` into X`c` and X`d`, or
X`a` into X`c`. -/
inductive StackFrame where
  | pair (a b c d : BitVec 5)
  | single (a c : BitVec 5)
  deriving Repr, DecidableEq

namespace StackFrame

def isPair : StackFrame → Bool
  | .pair .. => true
  | .single .. => false

def sources : StackFrame → BitVec 5 × BitVec 5
  | .pair a b _ _ => (a, b)
  | .single a _ => (a, 0)

def targets : StackFrame → BitVec 5 × BitVec 5
  | .pair _ _ c d => (c, d)
  | .single _ c => (c, 0)

/-- STP Xa, Xb, [SP, #-16]! or STR Xa, [SP, #-8]!. -/
def push (frame : StackFrame) : Word :=
  StackOperation.word ⟨true, frame.isPair⟩ frame.sources.1 frame.sources.2

/-- LDP Xc, Xd, [SP], #16 or LDR Xc, [SP], #8. -/
def pop (frame : StackFrame) : Word :=
  StackOperation.word ⟨false, frame.isPair⟩ frame.targets.1 frame.targets.2

def bytes : StackFrame → Nat
  | .pair .. => 16
  | .single .. => 8

/-- Whether a frame is popped into registers that hold what is loaded, two of them for a pair. -/
def Valid : StackFrame → Prop
  | .pair _ _ c d => c ≠ d ∧ c.toNat < zeroOrSp ∧ d.toNat < zeroOrSp
  | .single _ c => c.toNat < zeroOrSp

instance (frame : StackFrame) : Decidable frame.Valid := by
  cases frame <;> unfold Valid <;> infer_instance

/-- The register whose value is popped into register `n`, if one is. -/
def source? (frame : StackFrame) (n : Nat) : Option Nat :=
  match frame with
  | .pair a b c d =>
    if n = c.toNat then some a.toNat else if n = d.toNat then some b.toNat else none
  | .single a c => if n = c.toNat then some a.toNat else none

/-- The words that push the frames in order and pop them in the opposite order. -/
def nested (frames : List StackFrame) : List Word :=
  frames.map push ++ frames.reverse.map pop

def totalBytes : List StackFrame → Nat
  | [] => 0
  | frame :: rest => frame.bytes + totalBytes rest

/-- What is in register `n` when all frames were pushed and popped.  The first frame is popped last. -/
def restored (frames : List StackFrame) (regs : RegisterFile) (n : Nat) : Doubleword :=
  ((frames.findSome? (·.source? n)).map regs.gpr).getD (regs.gpr n)

theorem nested_cons (frame : StackFrame) (rest : List StackFrame) :
    nested (frame :: rest) = frame.push :: (nested rest ++ [frame.pop]) := by
  simp [nested]

/-- Whether the values of the pushed registers are on the stack at an address. -/
def Saved (frame : StackFrame) (before : RegisterFile) (words : UnitWords) (address : Doubleword) :
    Prop :=
  ∀ slot ∈ StackOperation.slots ⟨true, frame.isPair⟩ frame.sources.1 frame.sources.2 address,
    words.load slot.address 8 = .ok (before.gpr slot.reg)

end StackFrame

section Runs

variable {regs regs' : RegisterFile} {memory middle after : UnitMemory} {word : Word}
  {words rest : List Word}

theorem executeWords_cons (hfirst : executeWord word regs memory = .ok (.ok regs', middle)) :
    executeWords (word :: rest) regs memory = executeWords rest regs' middle := by
  simp only [executeWords, hfirst, bind, Except.bind]

theorem executeWords_append
    (hwords : executeWords words regs memory = .ok (.ok regs', middle)) :
    executeWords (words ++ rest) regs memory = executeWords rest regs' middle := by
  induction words generalizing regs memory with
  | nil =>
    obtain ⟨hregs, rfl⟩ := Prod.mk.inj (Except.ok.inj hwords)
    rw [← Except.ok.inj hregs]
    rfl
  | cons word words ih =>
    obtain ⟨⟨answer, next⟩, hfirst, hlater⟩ := bind_eq_ok hwords
    cases answer with
    | error cause => cases hlater
    | ok found =>
      rw [List.cons_append, executeWords_cons hfirst]
      exact ih hlater

end Runs

/-- Whether registers have the same exception level, flags and stack pointers of other levels. -/
structure RegisterFile.SameMode (regs after : RegisterFile) : Prop where
  el_eq : after.el = regs.el
  nzcv_eq : after.nzcv = regs.nzcv
  spOf_eq : ∀ el, el ≠ regs.el → after.spOf el = regs.spOf el

namespace RegisterFile

variable {regs middle after : RegisterFile}

theorem SameMode.trans (hfirst : regs.SameMode middle) (hsecond : middle.SameMode after) :
    regs.SameMode after where
  el_eq := hsecond.el_eq.trans hfirst.el_eq
  nzcv_eq := hsecond.nzcv_eq.trans hfirst.nzcv_eq
  spOf_eq el hel := by
    rw [hsecond.spOf_eq el (by rwa [hfirst.el_eq]), hfirst.spOf_eq el hel]

/-- Register writes leave the mode alone. -/
theorem sameMode_applyTo (writes : List RegisterWrite) (nextPc : Doubleword) :
    regs.SameMode (Effects.applyTo { writes, nextPc } regs) := by
  have hkeeps : regs.Keeps (writes.foldl apply regs) fun _ => writes.map RegisterWrite.reg :=
    foldl_apply_keeps writes fun write hwrite => List.mem_map_of_mem hwrite
  exact ⟨hkeeps.el_eq, hkeeps.nzcv_eq, hkeeps.spOf_eq⟩

end RegisterFile

namespace StackFrame

variable {frame : StackFrame} {regs before : RegisterFile} {memory : UnitMemory}

theorem bytes_eq (frame : StackFrame) (pushes : Bool) :
    StackOperation.bytes ⟨pushes, frame.isPair⟩ = frame.bytes := by
  cases frame <;> rfl

def pushed (frame : StackFrame) (regs : RegisterFile) : RegisterFile :=
  (regs.setSp (regs.sp - BitVec.ofNat 64 frame.bytes)).setPc (regs.pc + 4)

theorem sp_pushed (frame : StackFrame) (regs : RegisterFile) :
    (frame.pushed regs).sp = regs.sp - BitVec.ofNat 64 frame.bytes :=
  RegisterFile.sp_setSp regs _

theorem sameMode_pushed (frame : StackFrame) (regs : RegisterFile) :
    regs.SameMode (frame.pushed regs) :=
  RegisterFile.sameMode_applyTo
    [.address zeroOrSp (regs.sp - BitVec.ofNat 64 frame.bytes)] (regs.pc + 4)

/-- A push leaves the values of its registers below what was on the stack. -/
theorem executeWord_push (frame : StackFrame) (haligned : regs.sp.toNat % wordBytes = 0)
    (hlow : stackBase + frame.bytes ≤ regs.sp.toNat) (hhigh : regs.sp.toNat ≤ memory.map.stackTop) :
    ∃ after, executeWord frame.push regs memory = .ok (.ok (frame.pushed regs), after) ∧
      after.hierarchy = memory.hierarchy ∧
      memory.words.KeepsAbove after.words regs.sp.toNat ∧
      frame.Saved regs after.words (frame.pushed regs).sp := by
  have hbytes := frame.bytes_eq true
  have hmoved : StackOperation.moved ⟨true, frame.isPair⟩ regs.sp =
      regs.sp - BitVec.ofNat 64 frame.bytes := by rw [← hbytes]; rfl
  rw [sp_pushed, pushed, ← hmoved]
  exact StackOperation.executeWord_push frame.isPair frame.sources.1 frame.sources.2 haligned
    (by rwa [hbytes]) hhigh

/-- The register of each target is the one that was pushed for it. -/
theorem source?_of_saved (hvalid : frame.Valid) {words : UnitWords} {address : Doubleword}
    (hsaved : frame.Saved before words address) :
    ∀ slot ∈ StackOperation.slots ⟨false, frame.isPair⟩ frame.targets.1 frame.targets.2 address,
      slot.reg < zeroOrSp ∧ ∃ source, frame.source? slot.reg = some source ∧
        words.load slot.address 8 = .ok (before.gpr source) := by
  cases frame with
  | pair a b c d =>
    obtain ⟨hdistinct, hc, hd⟩ := hvalid
    have hother : d.toNat ≠ c.toNat := fun hsame => hdistinct (BitVec.eq_of_toNat_eq hsame.symm)
    have hfirst := hsaved ⟨a.toNat, address⟩ (.head _)
    have hsecond := hsaved ⟨b.toNat, address + 8⟩ (.tail _ (.head _))
    refine List.forall_mem_cons.2 ⟨⟨hc, a.toNat, ?_, hfirst⟩,
      List.forall_mem_singleton.2 ⟨hd, b.toNat, ?_, hsecond⟩⟩
    · exact if_pos rfl
    · exact (if_neg hother).trans (if_pos rfl)
  | single a c =>
    have hfirst := hsaved ⟨a.toNat, address⟩ (.head _)
    exact List.forall_mem_singleton.2 ⟨hvalid, a.toNat, if_pos rfl, hfirst⟩

theorem exists_slot_of_source? {n source : Nat} (hsource : frame.source? n = some source)
    (address : Doubleword) :
    ∃ slot ∈ StackOperation.slots ⟨false, frame.isPair⟩ frame.targets.1 frame.targets.2 address,
      slot.reg = n := by
  cases frame with
  | pair a b c d =>
    simp only [source?] at hsource
    split at hsource
    case isTrue hfirst => exact ⟨_, .head _, hfirst.symm⟩
    case isFalse =>
      split at hsource
      case isTrue hsecond => exact ⟨_, .tail _ (.head _), hsecond.symm⟩
      case isFalse => contradiction
  | single a c =>
    simp only [source?] at hsource
    split at hsource
    case isTrue hfirst => exact ⟨_, .head _, hfirst.symm⟩
    case isFalse => contradiction

/-- What popping a frame does to the registers when the values of `before` are on the stack. -/
structure Popped (frame : StackFrame) (before regs after : RegisterFile) : Prop where
  sp_eq : after.sp = regs.sp + BitVec.ofNat 64 frame.bytes
  pc_eq : after.pc = regs.pc + 4
  mode : regs.SameMode after
  gpr_eq : ∀ n, after.gpr n = ((frame.source? n).map before.gpr).getD (regs.gpr n)

/-- Register writes that bring back saved values, at least one of them for each popped register. -/
theorem gpr_foldl_of_saved {writes : List RegisterWrite}
    (hvalue : ∀ write ∈ writes, write.reg < zeroOrSp →
      ∃ source, frame.source? write.reg = some source ∧ write.value = before.gpr source)
    (hwritten : ∀ n source, frame.source? n = some source →
      n < zeroOrSp ∧ ∃ write ∈ writes, write.reg = n) (n : Nat) :
    (writes.foldl RegisterFile.apply regs).gpr n =
      ((frame.source? n).map before.gpr).getD (regs.gpr n) := by
  cases hsource : frame.source? n with
  | some source =>
    obtain ⟨hbelow, hmem⟩ := hwritten n source hsource
    apply RegisterFile.gpr_foldl_of_written hbelow hmem
    intro write hwrite hname
    obtain ⟨found, hfound, hsaved⟩ := hvalue write hwrite (by rwa [hname])
    rw [hname, hsource] at hfound
    rw [hsaved, ← Option.some.inj hfound]
    rfl
  | none =>
    by_cases hbelow : n < zeroOrSp
    · apply RegisterFile.gpr_foldl_of_forall_ne
      intro write hwrite hname
      obtain ⟨found, hfound, -⟩ := hvalue write hwrite (by rwa [hname])
      rw [hname, hsource] at hfound
      contradiction
    · have hzero (some : RegisterFile) : some.gpr n = 0 := dif_neg hbelow
      rw [hzero, Option.map_none, Option.getD_none, hzero]

/-- A pop puts what is on the stack into its registers. -/
theorem executeWord_pop (hvalid : frame.Valid) (haligned : regs.sp.toNat % wordBytes = 0)
    (hlow : stackBase ≤ regs.sp.toNat)
    (hhigh : regs.sp.toNat + frame.bytes ≤ memory.map.stackTop)
    (hwrap : regs.sp.toNat + frame.bytes < byteAddresses)
    (hsaved : frame.Saved before memory.words regs.sp) :
    ∃ regs' after, executeWord frame.pop regs memory = .ok (.ok regs', after) ∧
      frame.Popped before regs regs' ∧ after.hierarchy = memory.hierarchy ∧
      after.words = memory.words := by
  have hbytes := frame.bytes_eq false
  let slots := StackOperation.slots ⟨false, frame.isPair⟩ frame.targets.1 frame.targets.2 regs.sp
  let values (slot : Slot) : Doubleword := ((frame.source? slot.reg).map before.gpr).getD 0
  have hslots := frame.source?_of_saved hvalid hsaved
  have hvalues : ∀ slot ∈ slots, memory.words.load slot.address 8 = .ok (values slot) := by
    intro slot hslot
    obtain ⟨-, source, hsource, hload⟩ := hslots slot hslot
    simp only [values, hsource, hload]
    rfl
  have hdistinct : frame.isPair = true → frame.targets.1 ≠ frame.targets.2 := by
    cases frame with
    | pair a b c d => exact fun _ => hvalid.1
    | single a c => exact Bool.noConfusion
  obtain ⟨after, hexecute, hhierarchy, hwords⟩ :=
    StackOperation.executeWord_pop frame.isPair frame.targets.1 frame.targets.2 hdistinct
      haligned hlow (by rwa [hbytes]) (by rwa [hbytes]) hvalues
  let loaded := slots.map fun slot => RegisterWrite.data slot.reg (values slot)
  let moved := StackOperation.moved ⟨false, frame.isPair⟩ regs.sp
  let effects : Effects :=
    { writes := loaded ++ [.address zeroOrSp moved], nextPc := regs.pc + 4 }
  refine ⟨effects.applyTo regs, after, hexecute,
    ⟨?sp, rfl, RegisterFile.sameMode_applyTo _ _, gpr_foldl_of_saved ?value ?written⟩,
    hhierarchy, hwords⟩
  case sp =>
    have hmoved : moved = regs.sp + BitVec.ofNat 64 frame.bytes := by rw [← hbytes]; rfl
    have hwrites : effects.writes = loaded ++ [.address zeroOrSp moved] := rfl
    have hlast : (effects.applyTo regs).gprOrSp zeroOrSp = moved := gprOrSp_of_last hwrites
    exact hlast.trans hmoved
  case value =>
    intro write hwrite hbelow
    rcases List.mem_append.1 hwrite with hloaded | hlast
    · obtain ⟨slot, hslot, rfl⟩ := List.mem_map.1 hloaded
      obtain ⟨-, source, hsource, -⟩ := hslots slot hslot
      refine ⟨source, hsource, ?_⟩
      simp only [RegisterWrite.data, values, hsource]
      rfl
    · obtain rfl := List.mem_singleton.1 hlast
      exact absurd hbelow (Nat.lt_irrefl _)
  case written =>
    intro n source hsource
    obtain ⟨slot, hslot, rfl⟩ := exists_slot_of_source? hsource regs.sp
    obtain ⟨hbelow, -⟩ := hslots slot hslot
    exact ⟨hbelow, _, List.mem_append_left _ (List.mem_map_of_mem hslot), rfl⟩

theorem bytes_cases (frame : StackFrame) : frame.bytes = 8 ∨ frame.bytes = 16 := by
  rw [← frame.bytes_eq true]
  exact StackOperation.bytes_cases _

theorem toNat_sub_bytes {sp : Doubleword} (hroom : frame.bytes ≤ sp.toNat) :
    (sp - BitVec.ofNat 64 frame.bytes).toNat = sp.toNat - frame.bytes := by
  rw [← frame.bytes_eq true] at hroom ⊢
  exact StackOperation.toNat_moved_push frame.isPair hroom

/-- What is saved stays when the stack above is kept. -/
theorem Saved.keep {words after : UnitWords} {address : Doubleword}
    (hsaved : frame.Saved before words address) (haligned : address.toNat % wordBytes = 0)
    (hlow : stackBase ≤ address.toNat)
    (hhigh : address.toNat + frame.bytes ≤ words.map.stackTop)
    (hwrap : address.toNat + frame.bytes < byteAddresses)
    (hkeeps : words.KeepsAbove after address.toNat) : frame.Saved before after address := by
  have hslots := StackOperation.slots_inStack ⟨true, frame.isPair⟩ frame.sources.1 frame.sources.2
    haligned hlow (by rwa [frame.bytes_eq]) (by rwa [frame.bytes_eq])
  intro slot hslot
  obtain ⟨hstack, hstart, -⟩ := hslots slot hslot
  rw [hkeeps.load_eq hstart hstack]
  exact hsaved slot hslot

/-- The outer frame has the last word about its targets. -/
theorem restored_cons (frame : StackFrame) (rest : List StackFrame) (regs : RegisterFile) (n : Nat) :
    restored (frame :: rest) regs n =
      ((frame.source? n).map regs.gpr).getD (restored rest regs n) := by
  unfold restored
  rw [List.findSome?_cons]
  cases frame.source? n <;> rfl

/-- What pushes and pops that nest leave: the stack pointer and the stack above it as they were, and
in each register the value pushed for what was popped into it last. -/
structure Balanced (frames : List StackFrame) (regs regs' : RegisterFile)
    (memory after : UnitMemory) : Prop where
  sp_eq : regs'.sp = regs.sp
  gpr_eq : ∀ n, regs'.gpr n = restored frames regs n
  mode : regs.SameMode regs'
  pc_eq : regs'.pc = regs.pc + BitVec.ofNat 64 (4 * (nested frames).length)
  stack : memory.words.KeepsAbove after.words regs.sp.toNat
  hierarchy_eq : after.hierarchy = memory.hierarchy

/-- What is pushed before and popped after balanced pushes and pops is balanced with them. -/
theorem Balanced.around {frame : StackFrame} {rest : List StackFrame}
    {regs inner regs' : RegisterFile} {memory first middle after : UnitMemory}
    (hinner : Balanced rest (frame.pushed regs) inner first middle)
    (hpopped : frame.Popped regs inner regs')
    (hbelow : regs.sp.toNat - frame.bytes = (frame.pushed regs).sp.toNat)
    (hkeeps : memory.words.KeepsAbove first.words regs.sp.toNat)
    (hwords : after.words = middle.words) (hfirst : first.hierarchy = memory.hierarchy)
    (hafter : after.hierarchy = middle.hierarchy) :
    Balanced (frame :: rest) regs regs' memory after where
  sp_eq := by
    rw [hpopped.sp_eq, hinner.sp_eq, sp_pushed]
    exact BitVec.sub_add_cancel _ _
  gpr_eq n := by
    rw [hpopped.gpr_eq, hinner.gpr_eq, restored_cons]
    rfl
  mode := ((frame.sameMode_pushed regs).trans hinner.mode).trans hpopped.mode
  pc_eq := by
    rw [hpopped.pc_eq, hinner.pc_eq, nested_cons]
    change regs.pc + 4 + BitVec.ofNat 64 (4 * (nested rest).length) + 4 = _
    have hlength : 4 * (frame.push :: (nested rest ++ [frame.pop])).length =
        4 + 4 * (nested rest).length + 4 := by
      rw [List.length_cons, List.length_append, List.length_singleton]
      omega
    rw [hlength, BitVec.ofNat_add, BitVec.ofNat_add, BitVec.add_assoc, BitVec.add_assoc,
      BitVec.add_assoc]
    rfl
  stack := by
    rw [hwords]
    exact hkeeps.trans (hinner.stack.mono (by omega))
  hierarchy_eq := by rw [hafter, hinner.hierarchy_eq, hfirst]

/-- Pushes and pops that nest, of pairs and of single registers, fault nowhere where the stack has
room for them, and what was pushed is popped. -/
theorem executeWords_nested (frames : List StackFrame) (hvalid : ∀ frame ∈ frames, frame.Valid)
    (regs : RegisterFile) (memory : UnitMemory) (haligned : regs.sp.toNat % wordBytes = 0)
    (hlow : stackBase + totalBytes frames ≤ regs.sp.toNat)
    (hhigh : regs.sp.toNat ≤ memory.map.stackTop) :
    ∃ regs' after, executeWords (nested frames) regs memory = .ok (.ok regs', after) ∧
      Balanced frames regs regs' memory after := by
  induction frames generalizing regs memory with
  | nil =>
    refine ⟨regs, memory, rfl, rfl, fun _ => rfl, ⟨rfl, rfl, fun _ _ => rfl⟩, ?_, .refl _ _, rfl⟩
    exact (BitVec.add_zero regs.pc).symm
  | cons frame rest ih =>
    obtain ⟨hframe, hrest⟩ := List.forall_mem_cons.1 hvalid
    rw [totalBytes] at hlow
    have hsize := frame.bytes_cases
    have hsp := regs.sp.isLt
    have hbits : byteAddresses = 2 ^ 64 := rfl
    have hbelow : (frame.pushed regs).sp.toNat = regs.sp.toNat - frame.bytes := by
      rw [sp_pushed, toNat_sub_bytes (by omega)]
    have halignedBelow : (frame.pushed regs).sp.toNat % wordBytes = 0 := by
      simp only [wordBytes] at *
      omega
    obtain ⟨first, hpush, hfirst, hkeeps, hsaved⟩ :=
      frame.executeWord_push haligned (by omega) hhigh
    have hmapFirst : first.map = memory.map := by
      rw [← first.map_words, hkeeps.map_eq, memory.map_words]
    -- what nests inside leaves the frame on the stack
    obtain ⟨inner, middle, hmiddle, hinner⟩ := ih hrest (frame.pushed regs) first halignedBelow
      (by omega) (by rw [hmapFirst]; omega)
    have hmapMiddle : middle.map = memory.map := by
      rw [← middle.map_words, hinner.stack.map_eq, first.map_words, hmapFirst]
    have hsavedInner : frame.Saved regs middle.words inner.sp := by
      rw [hinner.sp_eq]
      refine hsaved.keep halignedBelow (by omega) ?_ (by omega) hinner.stack
      rw [first.map_words, hmapFirst]
      omega
    rw [← hinner.sp_eq] at hbelow halignedBelow
    obtain ⟨regs', after, hpop, hpopped, hafter, hwords⟩ :=
      executeWord_pop hframe halignedBelow (by omega) (by rw [hmapMiddle]; omega) (by omega)
        hsavedInner
    refine ⟨regs', after, ?_, hinner.around hpopped (by rw [← hinner.sp_eq]; omega) hkeeps hwords
      hfirst hafter⟩
    rw [nested_cons, executeWords_cons hpush, executeWords_append hmiddle, executeWords_cons hpop]
    rfl

/-- On a stack of eight words X0 and X1 change places, and X5 is cleared by what is pushed from register
31 inside. -/
theorem executeWords_nested_exchange :
    let frames : List StackFrame := [.pair 0 1 1 0, .single 31 5]
    let regs : RegisterFile :=
      { x := ((Vector.replicate 31 7).set 0 0x1111222233334444).set 1 0x5555666677778888
        sps := Vector.replicate 4 0x7FFF00000020 }
    let memory : UnitMemory := { hierarchy := .ram (.zeroed "RAM" 64), stack := .zeroed "STACK" 8 }
    nested frames = [0xA9BF07E0, 0xF81F8FFF, 0xF84087E5, 0xA8C103E1] ∧
      regs.sp = 0x7FFF00000020 ∧ memory.map.stackTop = 0x7FFF00000020 ∧
      ∃ regs' after, executeWords (nested frames) regs memory = .ok (.ok regs', after) ∧
        Balanced frames regs regs' memory after ∧ regs'.gpr 0 = 0x5555666677778888 ∧
        regs'.gpr 1 = 0x1111222233334444 ∧ regs'.gpr 5 = 0 ∧ regs'.gpr 6 = 7 := by
  intro frames regs memory
  obtain ⟨regs', after, hexecute, hends⟩ := executeWords_nested frames (by decide) regs memory
    (by decide +kernel) (by decide +kernel) (by decide +kernel)
  refine ⟨by decide +kernel, rfl, rfl, regs', after, hexecute, hends, ?_⟩
  simp only [hends.gpr_eq]
  decide +kernel

end StackFrame

end A64Machine
