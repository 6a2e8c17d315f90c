import Mathlib.Data.List.Nodup
import A64Machine.Proofs.Execution.OperandWidths
import A64Machine.Proofs.Execution.WordExecution
import A64Machine.Proofs.Memory.ByteStore

/-!
Loads and stores with a base register: which bytes go to which register, what the base register holds
in the end, and that nothing else changes.
-/

namespace A64Machine

namespace Mnemonic

def isPair : Mnemonic → Bool
  | .stpW | .stpX | .ldpW | .ldpX => true
  | _ => false

/-- The number of bytes that each register of a load or store has in memory. -/
def transferBytes : Mnemonic → Nat
  | .strW | .ldrW | .ldrsw | .stpW | .ldpW => 4
  | _ => 8

theorem transferBytes_sized (mnemonic : Mnemonic) :
    mnemonic.transferBytes = 4 ∨ mnemonic.transferBytes = 8 := by
  unfold transferBytes
  split <;> decide

end Mnemonic

/-- How the loads and stores of a class use their base register, when they have one. -/
def InstructionClass.indexing : InstructionClass → Option Indexing
  | .loadStoreUnsignedImmediate | .loadStorePairOffset => some .offset
  | .loadStoreImmediatePreIndexed | .loadStorePairPreIndexed => some .preIndex
  | .loadStoreImmediatePostIndexed | .loadStorePairPostIndexed => some .postIndex
  | _ => none

/-- A register and where it is loaded from or stored to. -/
structure Slot where
  reg : Nat
  address : Doubleword
  deriving Repr, DecidableEq

/-- The offset of a load or store from its base, in bytes: a signed count of registers for a pair, an
unsigned count of registers without an update of the base, and a signed count of bytes with one. -/
def transferOffset (word : Word) (mnemonic : Mnemonic) (indexing : Indexing) : Int :=
  if mnemonic.isPair then (InstructionField.imm7.extract word).toInt * mnemonic.transferBytes
  else match indexing with
    | .offset => (InstructionField.imm12.extract word).toNat * mnemonic.transferBytes
    | .preIndex | .postIndex => (InstructionField.imm9.extract word).toInt

def movedBase (word : Word) (mnemonic : Mnemonic) (indexing : Indexing) (regs : RegisterFile) :
    Doubleword :=
  regs.gprOrSp (Operand.rn word) + BitVec.ofInt 64 (transferOffset word mnemonic indexing)

/-- The address of a load or store: the moved base, or the base as it was when it is moved after the
access. -/
def transferAddress (word : Word) (mnemonic : Mnemonic) (indexing : Indexing)
    (regs : RegisterFile) : Doubleword :=
  match indexing with
  | .offset | .preIndex => movedBase word mnemonic indexing regs
  | .postIndex => regs.gprOrSp (Operand.rn word)

/-- The registers that a load or store at an address transfers, one after the other. -/
def slotsAt (word : Word) (mnemonic : Mnemonic) (address : Doubleword) : List Slot :=
  if mnemonic.isPair then
    [⟨Operand.rt word, address⟩,
      ⟨Operand.rt2 word, address + BitVec.ofNat 64 mnemonic.transferBytes⟩]
  else [⟨Operand.rt word, address⟩]

/-- The registers that a load or store transfers, with their places in memory. -/
def transferSlots (word : Word) (mnemonic : Mnemonic) (indexing : Indexing) (regs : RegisterFile) :
    List Slot :=
  slotsAt word mnemonic (transferAddress word mnemonic indexing regs)

def Slot.request (mnemonic : Mnemonic) (slot : Slot) : LoadRequest :=
  { address := slot.address, bytes := mnemonic.transferBytes, signed := mnemonic == .ldrsw,
    reg := slot.reg }

def Slot.pending (mnemonic : Mnemonic) (regs : RegisterFile) (slot : Slot) : PendingStore :=
  ⟨slot.address, mnemonic.transferBytes, storedValue regs slot.reg mnemonic.transferBytes⟩

/-- The update of the base register of a load or store, if there is one. -/
def baseUpdate (word : Word) (mnemonic : Mnemonic) (indexing : Indexing) (regs : RegisterFile) :
    List RegisterWrite :=
  if indexing.writesBack then [.address (Operand.rn word) (movedBase word mnemonic indexing regs)]
  else []

/-- The plan of a load or store that has one. -/
def transferPlan (word : Word) (mnemonic : Mnemonic) (indexing : Indexing) (regs : RegisterFile) :
    Plan :=
  let slots := transferSlots word mnemonic indexing regs
  let update := baseUpdate word mnemonic indexing regs
  if mnemonic.isStore then .storing regs (slots.map (Slot.pending mnemonic regs)) update
  else .loading regs (slots.map (Slot.request mnemonic)) update

section Plans

variable {start word : Word} {group : InstructionGroup} {cls : InstructionClass} {mnemonic : Mnemonic}
  {indexing : Indexing} {regs : RegisterFile} {made : Plan}

/-- A plan, unless there is a fault before it. -/
def plannedUnless (fault : Option FaultCode) (made : Plan) : Except FaultCode Plan :=
  match fault with
  | some cause => .error cause
  | none => .ok made

theorem movedBase_pair (word : Word) (indexing : Indexing) (regs : RegisterFile)
    (hpair : mnemonic.isPair = true) : movedBase word mnemonic indexing regs =
      regs.gprOrSp (Operand.rn word) + (InstructionField.imm7.extract word).signExtend 64 *
        BitVec.ofNat 64 mnemonic.transferBytes := by
  unfold movedBase transferOffset
  rw [if_pos hpair, BitVec.ofInt_mul, BitVec.ofInt_natCast]
  rfl

/-- The plan of a load or store of a pair. -/
theorem planLoadStorePair_eq (word : Word) (indexing : Indexing) (regs : RegisterFile)
    (hpair : mnemonic.isPair = true) :
    planLoadStorePair word mnemonic indexing regs =
      plannedUnless (pairFault word mnemonic indexing)
        (transferPlan word mnemonic indexing regs) := by
  simp only [transferPlan, transferSlots, transferAddress, baseUpdate,
    movedBase_pair word indexing regs hpair]
  unfold pairFault
  extract_lets rt rt2 rn
  split
  case isTrue hfault =>
    cases mnemonic with
    | stpW | stpX | ldpW | ldpX => exact if_pos hfault
    | _ => contradiction
  case isFalse hfault =>
    cases mnemonic with
    | stpW | stpX | ldpW | ldpX =>
      cases indexing <;> exact if_neg (t := throw FaultCode.undefinedBehaviour) hfault
    | _ => contradiction

theorem movedBase_single {instruction : Instruction} (hdecode : decode start = .ok instruction)
    (hoperation : instruction.mnemonic ∈ [.strW, .strX, .ldrW, .ldrX, .ldrsw])
    (hoffset : indexing = .offset → instruction.cls = .loadStoreUnsignedImmediate)
    (regs : RegisterFile) : movedBase instruction.word instruction.mnemonic indexing regs =
      regs.gprOrSp (Operand.rn instruction.word) + loadStoreOffset instruction.word indexing := by
  have hsingle : ∀ mnemonic ∈ [Mnemonic.strW, .strX, .ldrW, .ldrX, .ldrsw],
      mnemonic.isPair = false ∧ mnemonic.transferSizes = [mnemonic.transferBytes] := by decide
  obtain ⟨hpair, hsizes⟩ := hsingle _ hoperation
  unfold movedBase transferOffset
  rw [if_neg (by rw [hpair]; decide)]
  congr 1
  cases indexing with
  | offset =>
    rw [loadStoreOffset_of_decode hdecode (hoffset rfl) hsizes, BitVec.ofInt_mul,
      BitVec.ofInt_natCast, BitVec.ofInt_natCast, BitVec.ofNat_toNat]
  | preIndex | postIndex => rfl

/-- The plan of a load or store of one register that decodes. -/
theorem planLoadStore_eq {instruction : Instruction} (hdecode : decode start = .ok instruction)
    (hoperation : instruction.mnemonic ∈ [.strW, .strX, .ldrW, .ldrX, .ldrsw])
    (hoffset : indexing = .offset → instruction.cls = .loadStoreUnsignedImmediate)
    (regs : RegisterFile) :
    planLoadStore instruction.word instruction.mnemonic indexing regs =
      plannedUnless (loadStoreFault instruction.word instruction.mnemonic indexing)
        (transferPlan instruction.word instruction.mnemonic indexing regs) := by
  have hmoved := movedBase_single hdecode hoperation hoffset regs
  obtain ⟨word, group, cls, mnemonic⟩ := instruction
  simp only at hmoved hoperation
  simp only [transferPlan, transferSlots, transferAddress, baseUpdate, hmoved]
  unfold loadStoreFault
  extract_lets rt rn
  cases mnemonic with
  | strW | strX | ldrW | ldrX | ldrsw =>
    rw [if_neg (by decide)]
    split
    case isTrue hfault => exact if_pos hfault
    case isFalse hfault =>
      cases indexing <;> exact if_neg (t := throw FaultCode.undefinedBehaviour) hfault
  | _ => simp at hoperation

theorem single_of_executes (hmnemonic : mnemonic ≠ .prfm)
    (hexecutes : InstructionClass.loadStoreUnsignedImmediate.executes mnemonic = true) :
    mnemonic ∈ [.strW, .strX, .ldrW, .ldrX, .ldrsw] := by
  have hmem : mnemonic ∈ [.strW, .strX, .ldrW, .ldrX, .ldrsw, .prfm] :=
    List.contains_iff_mem.1 hexecutes
  simpa [hmnemonic] using hmem

theorem isPair_of_executes
    (hexecutes : InstructionClass.loadStorePairOffset.executes mnemonic = true) :
    mnemonic.isPair = true := by
  have hmem : mnemonic ∈ [.stpW, .stpX, .ldpW, .ldpX] := List.contains_iff_mem.1 hexecutes
  have hpairs : ∀ mnemonic ∈ [Mnemonic.stpW, .stpX, .ldpW, .ldpX], mnemonic.isPair = true := by
    decide
  exact hpairs mnemonic hmem

/-- The plan of a load or store with a base register that decodes and is no prefetch. -/
theorem plan_eq_transferPlan {instruction : Instruction} (hdecode : decode start = .ok instruction)
    (hindexing : instruction.cls.indexing = some indexing) (hmnemonic : instruction.mnemonic ≠ .prfm)
    (hexecutes : instruction.cls.executes instruction.mnemonic = true) (regs : RegisterFile) :
    plan instruction regs = plannedUnless instruction.encodingFault
      (transferPlan instruction.word instruction.mnemonic indexing regs) := by
  obtain ⟨word, group, cls, mnemonic⟩ := instruction
  cases cls with
  | loadStoreUnsignedImmediate =>
    obtain rfl := Option.some.inj hindexing
    exact planLoadStore_eq hdecode (single_of_executes hmnemonic hexecutes) (fun _ => rfl) regs
  | loadStoreImmediatePreIndexed | loadStoreImmediatePostIndexed =>
    obtain rfl := Option.some.inj hindexing
    exact planLoadStore_eq hdecode (single_of_executes hmnemonic hexecutes)
      (fun hoffset => absurd hoffset (by decide)) regs
  | loadStorePairOffset | loadStorePairPreIndexed | loadStorePairPostIndexed =>
    obtain rfl := Option.some.inj hindexing
    exact planLoadStorePair_eq word _ regs (isPair_of_executes hexecutes)
  | _ => contradiction

/-- Whether the registers of a load or store do not get in each other's way: registers that are loaded
are different, and an updated base is none of them. -/
structure SlotsDistinct (word : Word) (mnemonic : Mnemonic) (indexing : Indexing)
    (slots : List Slot) : Prop where
  loaded : mnemonic.isStore = false → (slots.map Slot.reg).Nodup
  base : indexing.writesBack = true →
    ∀ slot ∈ slots, slot.reg = Operand.rn word → Operand.rn word = zeroOrSp

theorem slotsDistinct_of_loadStoreFault (regs : RegisterFile)
    (hoperation : mnemonic ∈ [.strW, .strX, .ldrW, .ldrX, .ldrsw])
    (hfault : loadStoreFault word mnemonic indexing = none) :
    SlotsDistinct word mnemonic indexing (transferSlots word mnemonic indexing regs) := by
  have hsingle : ∀ mnemonic ∈ [Mnemonic.strW, .strX, .ldrW, .ldrX, .ldrsw],
      ¬ mnemonic.isPair = true ∧ mnemonic ≠ .prfm := by decide
  obtain ⟨hpair, hprfm⟩ := hsingle _ hoperation
  unfold loadStoreFault at hfault
  rw [if_neg hprfm] at hfault
  unfold transferSlots slotsAt
  rw [if_neg hpair]
  refine ⟨fun _ => List.nodup_cons.2 ⟨List.not_mem_nil, List.nodup_nil⟩, ?_⟩
  intro hwrites slot hslot hreg
  obtain rfl := List.mem_singleton.1 hslot
  apply Classical.byContradiction
  intro hsp
  rw [if_pos ⟨hwrites, hreg.symm, hsp⟩] at hfault
  contradiction

theorem slotsDistinct_of_pairFault (regs : RegisterFile) (hpair : mnemonic.isPair = true)
    (hfault : pairFault word mnemonic indexing = none) :
    SlotsDistinct word mnemonic indexing (transferSlots word mnemonic indexing regs) := by
  have hload : mnemonic.isStore = false → mnemonic.isLoadPair = true := by
    cases mnemonic <;> simp_all [Mnemonic.isPair, Mnemonic.isStore, Mnemonic.isLoadPair]
  have hclash := mt (ite_eq_right_iff.1 hfault) (Option.some_ne_none _)
  rw [not_or] at hclash
  unfold transferSlots slotsAt
  rw [if_pos hpair]
  refine ⟨?_, ?_⟩
  · intro hstore
    have hdistinct : Operand.rt word ≠ Operand.rt2 word :=
      fun hsame => hclash.1 ⟨hload hstore, hsame⟩
    simp [hdistinct]
  · intro hwrites slot hslot hreg
    apply Classical.byContradiction
    intro hsp
    refine hclash.2 ⟨hwrites, ?_, hsp⟩
    simp only [List.mem_cons, List.not_mem_nil, or_false] at hslot
    rcases hslot with rfl | rfl
    · exact .inl hreg.symm
    · exact .inr hreg.symm

/-- The registers of a load or store whose encoding is defined do not get in each other's way. -/
theorem slotsDistinct_of_encodingFault {instruction : Instruction}
    (hindexing : instruction.cls.indexing = some indexing) (hmnemonic : instruction.mnemonic ≠ .prfm)
    (hexecutes : instruction.cls.executes instruction.mnemonic = true)
    (hfault : instruction.encodingFault = none) (regs : RegisterFile) :
    SlotsDistinct instruction.word instruction.mnemonic indexing
      (transferSlots instruction.word instruction.mnemonic indexing regs) := by
  obtain ⟨word, group, cls, mnemonic⟩ := instruction
  cases cls with
  | loadStoreUnsignedImmediate | loadStoreImmediatePreIndexed | loadStoreImmediatePostIndexed =>
    obtain rfl := Option.some.inj hindexing
    exact slotsDistinct_of_loadStoreFault regs (single_of_executes hmnemonic hexecutes) hfault
  | loadStorePairOffset | loadStorePairPreIndexed | loadStorePairPostIndexed =>
    obtain rfl := Option.some.inj hindexing
    exact slotsDistinct_of_pairFault regs (isPair_of_executes hexecutes) hfault
  | _ => contradiction

end Plans

namespace RegisterFile

variable {regs : RegisterFile} {writes : List RegisterWrite} {n : Nat} {value : Doubleword}

theorem gpr_apply_of_ne {write : RegisterWrite} (hother : write.reg ≠ n) :
    (regs.apply write).gpr n = regs.gpr n := by
  unfold apply setGprOrSp
  split
  · rw [gpr_setGpr, if_neg fun hsame => hother hsame.1]
  split
  · rw [gpr_setGpr, if_neg fun hsame => hother hsame.1]
  · rfl

/-- A register that no write names keeps its value. -/
theorem gpr_foldl_of_forall_ne (hwrites : ∀ write ∈ writes, write.reg ≠ n) :
    (writes.foldl apply regs).gpr n = regs.gpr n := by
  induction writes generalizing regs with
  | nil => rfl
  | cons write rest ih =>
    obtain ⟨hfirst, hrest⟩ := List.forall_mem_cons.1 hwrites
    exact (ih hrest).trans (gpr_apply_of_ne hfirst)

theorem gpr_apply_self {write : RegisterWrite} (hbelow : write.reg < zeroOrSp) :
    (regs.apply write).gpr write.reg = write.value := by
  unfold apply setGprOrSp
  split
  · rw [gpr_setGpr, if_pos ⟨rfl, hbelow⟩]
  · rw [if_pos hbelow, gpr_setGpr, if_pos ⟨rfl, hbelow⟩]

/-- A register to which one value is written, once or more, holds it afterwards. -/
theorem gpr_foldl_of_written (hbelow : n < zeroOrSp) (hwritten : ∃ write ∈ writes, write.reg = n)
    (hvalue : ∀ write ∈ writes, write.reg = n → write.value = value) :
    (writes.foldl apply regs).gpr n = value := by
  induction writes generalizing regs with
  | nil => simp at hwritten
  | cons write rest ih =>
    obtain ⟨hfirst, hrest⟩ := List.forall_mem_cons.1 hvalue
    rw [List.foldl_cons]
    by_cases hlater : ∃ later ∈ rest, later.reg = n
    · exact ih hlater hrest
    · have hnone : ∀ later ∈ rest, later.reg ≠ n :=
        fun later hmem hreg => hlater ⟨later, hmem, hreg⟩
      have hreg : write.reg = n := by
        obtain ⟨found, hmem, hfound⟩ := hwritten
        rcases List.mem_cons.1 hmem with rfl | hmem
        · exact hfound
        · exact absurd hfound (hnone found hmem)
      subst hreg
      rw [gpr_foldl_of_forall_ne hnone, gpr_apply_self hbelow, hfirst rfl]

theorem sp_setSp (regs : RegisterFile) (value : Doubleword) : (regs.setSp value).sp = value := by
  simp [sp, spOf, setSp]

/-- A written address register holds what was written, the stack pointer like any other. -/
theorem gprOrSp_setGprOrSp (regs : RegisterFile) (n : Nat) (value : Doubleword) :
    (regs.setGprOrSp n value).gprOrSp n = value := by
  unfold gprOrSp setGprOrSp
  by_cases hbelow : n < zeroOrSp
  · rw [if_pos hbelow, if_pos hbelow, gpr_setGpr, if_pos ⟨rfl, hbelow⟩]
  · rw [if_neg hbelow, if_neg hbelow, sp_setSp]

end RegisterFile

namespace UnitWords

variable {words : UnitWords}

/-- The write that a load leads to. -/
def loadedWrite (words : UnitWords) (request : LoadRequest) : RegisterWrite :=
  .data request.reg
    (request.result ((words.load request.address request.bytes).toOption.getD 0))

/-- What it means that loads answer. -/
theorem performLoads_eq_ok {loads : List LoadRequest} {loaded : List RegisterWrite}
    (hloads : words.performLoads loads = .ok loaded) :
    (∀ request ∈ loads, ∃ value, words.load request.address request.bytes = .ok value) ∧
      loaded = loads.map words.loadedWrite := by
  induction loads generalizing loaded with
  | nil => exact ⟨List.forall_mem_nil _, (Except.ok.inj hloads).symm⟩
  | cons request rest ih =>
    obtain ⟨value, hvalue, hrest⟩ := bind_eq_ok hloads
    cases hlater : words.performLoads rest with
    | error cause =>
      rw [hlater] at hrest
      contradiction
    | ok later =>
      rw [hlater] at hrest
      obtain rfl := Except.ok.inj hrest
      obtain ⟨hall, rfl⟩ := ih hlater
      refine ⟨List.forall_mem_cons.2 ⟨⟨value, hvalue⟩, hall⟩, ?_⟩
      rw [List.map_cons, loadedWrite, hvalue]
      rfl

/-- Stores apart from a range leave what is loaded from there. -/
theorem load_commitStores_of_apart {stores : List PendingStore} {other : Access}
    (hother : other.bytes = 4 ∨ other.bytes = 8)
    (hstores : ∀ pending ∈ stores, 0 < pending.bytes ∧ pending.access.Apart other) :
    (words.commitStores stores).load other.address other.bytes =
      words.load other.address other.bytes := by
  induction stores generalizing words with
  | nil => rfl
  | cons pending rest ih =>
    obtain ⟨⟨hbytes, hapart⟩, hrest⟩ := List.forall_mem_cons.1 hstores
    have hlater := @ih (words.store pending.address pending.bytes pending.value) hrest
    exact hlater.trans (load_store_of_apart hbytes hother hapart pending.value)

/-- Stores that are apart from each other are all there afterwards. -/
theorem load_commitStores {stores : List PendingStore}
    (hapart : stores.Pairwise fun first later => later.access.Apart first.access)
    (hstores : ∀ pending ∈ stores, (pending.bytes = 4 ∨ pending.bytes = 8) ∧
      words.map.fault? pending.address pending.bytes = none) :
    ∀ pending ∈ stores, (words.commitStores stores).load pending.address pending.bytes =
      .ok (lowBytes pending.value pending.bytes) := by
  induction stores generalizing words with
  | nil => exact List.forall_mem_nil _
  | cons pending rest ih =>
    obtain ⟨hfirst, hrest⟩ := List.forall_mem_cons.1 hstores
    obtain ⟨hbefore, hlater⟩ := List.pairwise_cons.1 hapart
    have hmap : (words.store pending.access.address pending.access.bytes pending.value).map =
        words.map := map_store pending.access pending.value
    refine List.forall_mem_cons.2 ⟨?_, ?_⟩
    · have hpos : ∀ later ∈ rest, 0 < later.bytes ∧ later.access.Apart pending.access :=
        fun later hmem => ⟨UnitMemory.pos_of_sized (hrest later hmem).1, hbefore later hmem⟩
      have hkept : ((words.store pending.address pending.bytes pending.value).commitStores
          rest).load pending.access.address pending.access.bytes =
          (words.store pending.address pending.bytes pending.value).load pending.access.address
            pending.access.bytes := load_commitStores_of_apart hfirst.1 hpos
      exact hkept.trans (load_store_self hfirst.1 pending.value hfirst.2)
    · refine ih hlater fun later hmem => ⟨(hrest later hmem).1, ?_⟩
      change (words.store pending.access.address pending.access.bytes pending.value).map.fault?
        later.address later.bytes = none
      rw [hmap]
      exact (hrest later hmem).2

end UnitWords

/-- What is stored of a register is its low bytes. -/
theorem lowBytes_storedValue (regs : RegisterFile) (reg : Nat) {bytes : Nat}
    (hbytes : bytes = 4 ∨ bytes = 8) :
    lowBytes (storedValue regs reg bytes) bytes = lowBytes (regs.gpr reg) bytes := by
  have hones : (lowOnes 64 (8 * bytes)).toNat = 2 ^ (8 * bytes) - 1 := by
    rcases hbytes with rfl | rfl <;> rfl
  rw [lowBytes, storedValue, BitVec.toNat_and, hones, Nat.and_two_pow_sub_one_eq_mod, Nat.mod_mod,
    lowBytes]

/-- What a load or store with a base register has done when it ends without a fault. -/
structure Transferred (word : Word) (mnemonic : Mnemonic) (indexing : Indexing)
    (regs regs' : RegisterFile) (memory after : UnitMemory) : Prop where
  /-- A load brings in what memory held. -/
  loaded : mnemonic.isStore = false → ∀ slot ∈ transferSlots word mnemonic indexing regs,
    ∃ value, memory.loaded slot.address mnemonic.transferBytes = .ok (.ok value) ∧
      (slot.reg < zeroOrSp → regs'.gpr slot.reg =
        if mnemonic = .ldrsw then (value.setWidth 32).signExtend 64 else value)
  /-- A store leaves the low bytes of its registers. -/
  stored : mnemonic.isStore = true → ∀ slot ∈ transferSlots word mnemonic indexing regs,
    after.loaded slot.address mnemonic.transferBytes =
      .ok (.ok (lowBytes (regs.gpr slot.reg) mnemonic.transferBytes))
  base : indexing.writesBack = true →
    regs'.gprOrSp (Operand.rn word) = movedBase word mnemonic indexing regs
  gpr : ∀ n, regs'.gpr n ≠ regs.gpr n → (indexing.writesBack = true ∧ n = Operand.rn word) ∨
    (mnemonic.isStore = false ∧ ∃ slot ∈ transferSlots word mnemonic indexing regs, n = slot.reg)
  sp : regs'.sp ≠ regs.sp → indexing.writesBack = true ∧ Operand.rn word = zeroOrSp
  spOf : ∀ el, el ≠ regs.el → regs'.spOf el = regs.spOf el
  el : regs'.el = regs.el
  nzcv : regs'.nzcv = regs.nzcv
  pc : regs'.pc = regs.pc + 4
  map : after.map = memory.map
  wordAt : ∀ location, after.words.wordAt location ≠ memory.words.wordAt location →
    mnemonic.isStore = true ∧ ∃ slot ∈ transferSlots word mnemonic indexing regs,
      Access.Covers ⟨slot.address, mnemonic.transferBytes⟩ memory.map location

section Ends

variable {word : Word} {instruction : Instruction} {indexing : Indexing} {regs regs' : RegisterFile}
  {memory after : UnitMemory}

/-- The plan of a load or store with a base register that has effects. -/
theorem plan_of_transfer {words : UnitWords} {effects : Effects}
    (hdecode : decode word = .ok instruction) (hindexing : instruction.cls.indexing = some indexing)
    (hmnemonic : instruction.mnemonic ≠ .prfm)
    (hexecute : words.execute instruction regs = .ok effects) :
    plan instruction regs = .ok (transferPlan word instruction.mnemonic indexing regs) ∧
      words.perform (transferPlan word instruction.mnemonic indexing regs) = .ok effects ∧
      SlotsDistinct word instruction.mnemonic indexing
        (transferSlots word instruction.mnemonic indexing regs) := by
  obtain ⟨made, hplan, hperform⟩ := bind_eq_ok hexecute
  have hexecutes := Instruction.executes_of_plan hdecode hplan
  have hmade := plan_eq_transferPlan hdecode hindexing hmnemonic hexecutes regs
  have hword := (decode_eq_ok hdecode).1
  cases hfault : instruction.encodingFault with
  | some cause =>
    rw [hmade, hfault] at hplan
    cases hplan
  | none =>
    have hdistinct := slotsDistinct_of_encodingFault hindexing hmnemonic hexecutes hfault regs
    rw [hfault, hword] at hmade
    rw [hword] at hdistinct
    obtain rfl := Except.ok.inj (hplan.symm.trans hmade)
    exact ⟨hmade, hperform, hdistinct⟩

theorem accesses_transferPlan (mnemonic : Mnemonic) :
    (transferPlan word mnemonic indexing regs).accesses =
      (transferSlots word mnemonic indexing regs).map fun slot =>
        ⟨slot.address, mnemonic.transferBytes⟩ := by
  unfold transferPlan
  extract_lets slots update
  split
  · rw [Plan.accesses, Plan.storing, List.map_nil, List.nil_append, List.map_map]
    rfl
  · rw [Plan.accesses, Plan.loading, List.map_nil, List.append_nil, List.map_map]
    rfl

theorem reg_of_mem_loaded {mnemonic : Mnemonic} {n : Nat} (hn : n ∈ mnemonic.loaded word)
    (address : Doubleword) :
    mnemonic.isStore = false ∧ ∃ slot ∈ slotsAt word mnemonic address, n = slot.reg := by
  cases mnemonic with
  | ldrW | ldrX | ldrsw => exact ⟨rfl, _, List.mem_cons_self, List.mem_singleton.1 hn⟩
  | ldpW | ldpX =>
    have hboth : n = Operand.rt word ∨ n = Operand.rt2 word := by
      simpa only [Mnemonic.loaded, List.mem_cons, List.not_mem_nil, or_false] using hn
    rcases hboth with rfl | rfl
    · exact ⟨rfl, _, List.mem_cons_self, rfl⟩
    · exact ⟨rfl, _, List.mem_cons_of_mem _ List.mem_cons_self, rfl⟩
  | _ => exact absurd hn List.not_mem_nil

/-- The registers that a load or store with a base register writes as data: those that it loads. -/
theorem dataDestinations_of_indexing (hindexing : instruction.cls.indexing = some indexing)
    {n : Nat} (hn : n ∈ instruction.dataDestinations) :
    n ∈ instruction.mnemonic.loaded instruction.word := by
  obtain ⟨word, group, cls, mnemonic⟩ := instruction
  cases cls with
  | loadStoreUnsignedImmediate | loadStoreImmediatePreIndexed | loadStoreImmediatePostIndexed
  | loadStorePairOffset | loadStorePairPreIndexed | loadStorePairPostIndexed => exact hn
  | _ => contradiction

theorem addressDestinations_of_indexing (hindexing : instruction.cls.indexing = some indexing)
    {n : Nat} (hn : n ∈ instruction.addressDestinations) :
    indexing.writesBack = true ∧ n = Operand.rn instruction.word := by
  obtain ⟨word, group, cls, mnemonic⟩ := instruction
  cases cls with
  | loadStoreImmediatePreIndexed | loadStoreImmediatePostIndexed
  | loadStorePairPreIndexed | loadStorePairPostIndexed =>
    obtain rfl := Option.some.inj hindexing
    exact ⟨rfl, List.mem_singleton.1 hn⟩
  | _ => contradiction

theorem perform_loading {words : UnitWords} {loads : List LoadRequest}
    {writes : List RegisterWrite} {effects : Effects}
    (hperform : words.perform (.loading regs loads writes) = .ok effects) :
    (∀ request ∈ loads, ∃ value, words.load request.address request.bytes = .ok value) ∧
      effects = { writes := loads.map words.loadedWrite ++ writes, nextPc := regs.pc + 4 } := by
  obtain ⟨loaded, hloaded, hchecked⟩ := bind_eq_ok hperform
  obtain ⟨hall, rfl⟩ := UnitWords.performLoads_eq_ok hloaded
  exact ⟨hall, (Except.ok.inj hchecked).symm⟩

theorem perform_storing {words : UnitWords} {stores : List PendingStore}
    {writes : List RegisterWrite} {effects : Effects}
    (hperform : words.perform (.storing regs stores writes) = .ok effects) :
    (∀ pending ∈ stores, words.map.fault? pending.address pending.bytes = none) ∧
      effects = { writes, stores, nextPc := regs.pc + 4 } := by
  have hchecked : (Plan.storing regs stores writes).checked words.map [] = .ok effects := hperform
  unfold Plan.checked at hchecked
  split at hchecked
  · contradiction
  next hnone =>
    refine ⟨?_, (Except.ok.inj hchecked).symm⟩
    intro pending hpending
    exact List.findSome?_eq_none_iff.1 hnone pending.access (List.mem_map_of_mem hpending)

/-- The update of a base register is the last write, so that the base holds it. -/
theorem gprOrSp_of_last {effects : Effects} {first : List RegisterWrite} {n : Nat}
    {value : Doubleword} (hwrites : effects.writes = first ++ [.address n value]) :
    (effects.applyTo regs).gprOrSp n = value := by
  rw [effects.applyTo_eq, hwrites, List.foldl_append]
  exact RegisterFile.gprOrSp_setGprOrSp _ _ _

/-- Among different registers, each holds what was loaded for it. -/
theorem gpr_of_loaded {words : UnitWords} {mnemonic : Mnemonic} {slots : List Slot}
    {update : List RegisterWrite} (hdistinct : (slots.map Slot.reg).Nodup) {slot : Slot}
    (hslot : slot ∈ slots) (hbelow : slot.reg < zeroOrSp)
    (hupdate : ∀ write ∈ update, write.reg ≠ slot.reg) :
    (((slots.map (Slot.request mnemonic)).map words.loadedWrite ++ update).foldl
      RegisterFile.apply regs).gpr slot.reg =
        (words.loadedWrite (slot.request mnemonic)).value := by
  rw [List.map_map]
  apply RegisterFile.gpr_foldl_of_written hbelow
  · exact ⟨words.loadedWrite (slot.request mnemonic),
      List.mem_append_left _ (List.mem_map_of_mem hslot), rfl⟩
  · intro write hwrite hreg
    rcases List.mem_append.1 hwrite with hloaded | hlast
    · obtain ⟨other, hother, rfl⟩ := List.mem_map.1 hloaded
      obtain rfl : other = slot := List.inj_on_of_nodup_map hdistinct hother hslot hreg
      rfl
    · exact absurd hreg (hupdate write hlast)

/-- The places of the registers of a store are apart from each other when they are mapped. -/
theorem slots_pairwise {words : UnitWords} {mnemonic : Mnemonic} {address : Doubleword}
    (hmapped : ∀ slot ∈ slotsAt word mnemonic address,
      words.map.fault? slot.address mnemonic.transferBytes = none) :
    ((slotsAt word mnemonic address).map (Slot.pending mnemonic regs)).Pairwise
      fun first later => later.access.Apart first.access := by
  unfold slotsAt at hmapped ⊢
  split at hmapped
  case isFalse hsingle =>
    rw [if_neg hsingle]
    exact List.pairwise_singleton _ _
  case isTrue hpair =>
    obtain ⟨location, hresolve⟩ :=
      AddressMap.fault?_eq_none_iff.1 (hmapped _ List.mem_cons_self)
    obtain ⟨-, ⟨hend, -⟩, -⟩ := AddressMap.resolve_eq_ok_iff.1 hresolve
    have hlast : address.toNat + mnemonic.transferBytes < 2 ^ 64 := hend
    have hsum : (address + BitVec.ofNat 64 mnemonic.transferBytes).toNat =
        address.toNat + mnemonic.transferBytes := by
      rw [BitVec.toNat_add, BitVec.toNat_ofNat]
      omega
    rw [if_pos hpair]
    refine List.pairwise_cons.2 ⟨List.forall_mem_singleton.2 (.inr ?_), List.pairwise_singleton _ _⟩
    exact Nat.le_of_eq hsum.symm

/-- Loads and stores with a base register set no flags and are no branches. -/
theorem quiet_of_indexing (hindexing : instruction.cls.indexing = some indexing)
    (hexecutes : instruction.cls.executes instruction.mnemonic = true) :
    instruction.mnemonic.setsFlags = false ∧ instruction.cls.isBranch = false := by
  have hsingle : ∀ mnemonic ∈ [Mnemonic.strW, .strX, .ldrW, .ldrX, .ldrsw, .prfm],
      mnemonic.setsFlags = false := by decide
  have hpair : ∀ mnemonic ∈ [Mnemonic.stpW, .stpX, .ldpW, .ldpX], mnemonic.setsFlags = false := by
    decide
  obtain ⟨word, group, cls, mnemonic⟩ := instruction
  cases cls with
  | loadStoreUnsignedImmediate | loadStoreImmediatePreIndexed | loadStoreImmediatePostIndexed =>
    exact ⟨hsingle mnemonic (List.contains_iff_mem.1 hexecutes), rfl⟩
  | loadStorePairOffset | loadStorePairPreIndexed | loadStorePairPostIndexed =>
    exact ⟨hpair mnemonic (List.contains_iff_mem.1 hexecutes), rfl⟩
  | _ => contradiction

/-- What a load with a base register brings in. -/
theorem loaded_of_perform {words : UnitWords} {mnemonic : Mnemonic} {effects : Effects}
    (hload : mnemonic.isStore = false)
    (hperform : words.perform (transferPlan word mnemonic indexing regs) = .ok effects)
    (hdistinct : SlotsDistinct word mnemonic indexing (transferSlots word mnemonic indexing regs)) :
    ∀ slot ∈ transferSlots word mnemonic indexing regs,
      ∃ value, words.load slot.address mnemonic.transferBytes = .ok value ∧
        (slot.reg < zeroOrSp → (effects.applyTo regs).gpr slot.reg =
          if mnemonic = .ldrsw then (value.setWidth 32).signExtend 64 else value) := by
  intro slot hslot
  unfold transferPlan at hperform
  rw [if_neg (by rw [hload]; decide)] at hperform
  obtain ⟨hall, rfl⟩ := perform_loading hperform
  obtain ⟨value, hvalue⟩ := hall _ (List.mem_map_of_mem hslot)
  refine ⟨value, hvalue, ?_⟩
  intro hbelow
  have hupdate : ∀ write ∈ baseUpdate word mnemonic indexing regs, write.reg ≠ slot.reg := by
    intro write hwrite hreg
    unfold baseUpdate at hwrite
    split at hwrite
    case isTrue hwrites =>
      obtain rfl := List.mem_singleton.1 hwrite
      have hsp := hdistinct.base hwrites slot hslot hreg.symm
      exact Nat.ne_of_lt hbelow (hreg.symm.trans hsp)
    case isFalse => exact absurd hwrite List.not_mem_nil
  have hgpr : ((((transferSlots word mnemonic indexing regs).map (Slot.request mnemonic)).map
      words.loadedWrite ++ baseUpdate word mnemonic indexing regs).foldl RegisterFile.apply regs).gpr
        slot.reg = (words.loadedWrite (slot.request mnemonic)).value :=
    gpr_of_loaded (hdistinct.loaded hload) hslot hbelow hupdate
  rw [Effects.applyTo_eq]
  refine hgpr.trans ?_
  have hwritten : (words.loadedWrite (slot.request mnemonic)).value =
      (slot.request mnemonic).result value := by
    rw [UnitWords.loadedWrite, hvalue]
    rfl
  rw [hwritten, LoadRequest.result]
  simp only [Slot.request, beq_iff_eq]
  rfl

/-- What a store with a base register leaves. -/
theorem stored_of_perform {words : UnitWords} {mnemonic : Mnemonic} {effects : Effects}
    (hstore : mnemonic.isStore = true)
    (hperform : words.perform (transferPlan word mnemonic indexing regs) = .ok effects) :
    ∀ slot ∈ transferSlots word mnemonic indexing regs,
      (words.commitStores effects.stores).load slot.address mnemonic.transferBytes =
        .ok (lowBytes (regs.gpr slot.reg) mnemonic.transferBytes) := by
  intro slot hslot
  unfold transferPlan at hperform
  rw [if_pos hstore] at hperform
  obtain ⟨hmapped, rfl⟩ := perform_storing hperform
  have hsized := mnemonic.transferBytes_sized
  have hpending : ∀ slot ∈ transferSlots word mnemonic indexing regs,
      words.map.fault? slot.address mnemonic.transferBytes = none :=
    fun slot hslot => hmapped _ (List.mem_map_of_mem hslot)
  have hapart : ((transferSlots word mnemonic indexing regs).map
      (Slot.pending mnemonic regs)).Pairwise fun first later =>
        later.access.Apart first.access := slots_pairwise hpending
  have hload := UnitWords.load_commitStores hapart (fun pending hmem => ⟨by
    obtain ⟨slot, -, rfl⟩ := List.mem_map.1 hmem
    exact hsized, hmapped pending hmem⟩) _ (List.mem_map_of_mem hslot)
  rw [← lowBytes_storedValue regs slot.reg hsized]
  exact hload

/-- The update of the base comes last among the writes. -/
theorem writes_of_perform {words : UnitWords} {mnemonic : Mnemonic} {effects : Effects}
    (hwrites : indexing.writesBack = true)
    (hperform : words.perform (transferPlan word mnemonic indexing regs) = .ok effects) :
    ∃ first, effects.writes =
      first ++ [.address (Operand.rn word) (movedBase word mnemonic indexing regs)] := by
  unfold transferPlan baseUpdate at hperform
  rw [if_pos hwrites] at hperform
  split at hperform
  · obtain ⟨-, rfl⟩ := perform_storing hperform
    exact ⟨[], rfl⟩
  · obtain ⟨-, rfl⟩ := perform_loading hperform
    exact ⟨_, rfl⟩

/-- Loads and stores with a base register that end without a fault.  They access memory at the base
plus the offset, or at the base when it is updated after the access, a second register right after the
first; loads bring in what memory held and stores leave the low bytes of their registers; exactly the
forms that update the base leave it moved by the offset, the stack pointer as well, and also next to
register 31; and no other register and no other word of memory is different. -/
theorem transferred_of_executeWord (hmemory : memory.Reachable)
    (hdecode : decode word = .ok instruction) (hindexing : instruction.cls.indexing = some indexing)
    (hmnemonic : instruction.mnemonic ≠ .prfm)
    (hexecute : executeWord word regs memory = .ok (.ok regs', after)) :
    (plan instruction regs).map Plan.accesses =
        .ok ((transferSlots word instruction.mnemonic indexing regs).map fun slot =>
          ⟨slot.address, instruction.mnemonic.transferBytes⟩) ∧
      Transferred word instruction.mnemonic indexing regs regs' memory after := by
  obtain ⟨hformed, hcoherent⟩ := hmemory.coherent
  obtain ⟨instruction', effects, hdecode', hflat, hregs, hserves⟩ :=
    executeWord_serves hformed hcoherent hexecute
  obtain rfl := Except.ok.inj (hdecode'.symm.trans hdecode)
  have hframe := UnitWords.execute_frame hdecode hflat
  rw [← hregs, ← hserves.words_eq hcoherent] at hframe
  obtain ⟨hplan, hperform, hdistinct⟩ := plan_of_transfer hdecode hindexing hmnemonic hflat
  have hword := (decode_eq_ok hdecode).1
  have hquiet := quiet_of_indexing hindexing (Instruction.executes_of_plan hdecode hplan)
  have haccesses := Plan.accesses_of_decode hdecode hplan
  refine ⟨?accesses, ?loaded, ?stored, ?base, ?gpr, ?sp, hframe.spOf_eq, hframe.el_eq, ?nzcv, ?pc,
    hserves.map_eq, ?wordAt⟩
  case accesses =>
    rw [hplan, Except.map, accesses_transferPlan]
  case loaded =>
    intro hload slot hslot
    obtain ⟨value, hvalue, hgpr⟩ := loaded_of_perform hload hperform hdistinct slot hslot
    refine ⟨value, ?_, ?_⟩
    · rw [UnitMemory.loaded_eq hformed hcoherent _
        (UnitMemory.pos_of_sized instruction'.mnemonic.transferBytes_sized), hvalue]
    · rwa [hregs]
  case stored =>
    intro hstore slot hslot
    rw [UnitMemory.loaded_eq hserves.wellFormed (hserves.coherent hcoherent) _
        (UnitMemory.pos_of_sized instruction'.mnemonic.transferBytes_sized),
      hserves.words_eq hcoherent, stored_of_perform hstore hperform slot hslot]
  case base =>
    intro hwrites
    obtain ⟨first, hfirst⟩ := writes_of_perform hwrites hperform
    rw [hregs]
    exact gprOrSp_of_last hfirst
  case gpr =>
    intro n hchanged
    obtain ⟨-, hdata | haddress⟩ := hframe.gpr n hchanged
    · have hloaded := dataDestinations_of_indexing hindexing hdata
      rw [hword] at hloaded
      exact .inr (reg_of_mem_loaded hloaded _)
    · rw [← hword]
      exact .inl (addressDestinations_of_indexing hindexing haddress)
  case sp =>
    intro hchanged
    obtain ⟨hwrites, hreg⟩ := addressDestinations_of_indexing hindexing (hframe.sp hchanged)
    exact ⟨hwrites, by rw [← hword, ← hreg]⟩
  case nzcv =>
    apply Classical.byContradiction
    intro hchanged
    have hflags := hframe.nzcv hchanged
    rw [hquiet.1] at hflags
    contradiction
  case pc =>
    apply Classical.byContradiction
    intro hchanged
    have hbranch := hframe.pc hchanged
    rw [hquiet.2] at hbranch
    contradiction
  case wordAt =>
    intro location hchanged
    obtain ⟨access, haccess, hcovers⟩ := hframe.wordAt location hchanged
    rw [← haccesses, accesses_transferPlan] at haccess
    obtain ⟨slot, hslot, rfl⟩ := List.mem_map.1 haccess
    rw [UnitMemory.map_words] at hcovers
    refine ⟨hframe.store ?_, slot, hslot, hcovers⟩
    intro hsame
    rw [hsame] at hchanged
    exact hchanged rfl

end Ends

/-- STP X0, XZR, [SP, #-16]! at the top of a stack of eight words: register 31 is zero where it is
stored and the stack pointer where it is the base. -/
theorem transferred_of_executeWord_push :
    ∃ (memory after : UnitMemory) (regs regs' : RegisterFile) (instruction : Instruction),
      memory.Reachable ∧ decode 0xA9BF7FE0 = .ok instruction ∧
      instruction.cls.indexing = some .preIndex ∧ instruction.mnemonic = .stpX ∧
      executeWord 0xA9BF7FE0 regs memory = .ok (.ok regs', after) ∧
      Transferred 0xA9BF7FE0 .stpX .preIndex regs regs' memory after ∧
      regs.sp = 0x7FFF00000020 ∧ regs'.sp = 0x7FFF00000010 ∧
      after.loaded 0x7FFF00000010 8 = .ok (.ok 0x1111222233334444) ∧
      after.loaded 0x7FFF00000018 8 = .ok (.ok 0) := by
  let store : Ram := .zeroed "RAM" 64
  let regs : RegisterFile :=
    { x := (Vector.replicate 31 0).set 0 0x1111222233334444
      sps := Vector.replicate 4 0x7FFF00000020 }
  let regs' : RegisterFile := { regs with pc := 4, sps := regs.sps.set 0 0x7FFF00000010 }
  let pushes : Instruction :=
    ⟨0xA9BF7FE0, .loadStore, .loadStorePairPreIndexed, .stpX⟩
  have hbuild : (Memory.ram store).withCache "L1" {} 64 =
      .ok (.cache { name := "L1", capacity := 64, lines := Vector.replicate 1 {} } (.ram store)) :=
    rfl
  let memory : UnitMemory :=
    { hierarchy := .cache { name := "L1", capacity := 64, lines := Vector.replicate 1 {} }
        (.ram store)
      stack := .zeroed "STACK" 8 }
  have hmemory : memory.Reachable := .start (.cache (.ram store) hbuild) _ _
  have hdecode : decode 0xA9BF7FE0 = .ok pushes := rfl
  obtain ⟨after, hexecute⟩ : ∃ after,
      executeWord 0xA9BF7FE0 regs memory = .ok (.ok regs', after) :=
    exists_of_answer (by decide +kernel)
  obtain ⟨-, hends⟩ := transferred_of_executeWord hmemory hdecode rfl (by decide) hexecute
  have hstored := hends.stored rfl
  exact ⟨memory, after, regs, regs', pushes, hmemory, hdecode, rfl, rfl, hexecute, hends, rfl, rfl,
    hstored ⟨0, 0x7FFF00000010⟩ (by decide +kernel),
    hstored ⟨31, 0x7FFF00000018⟩ (by decide +kernel)⟩

end A64Machine
