import A64Machine.Execution.Plan
import A64Machine.Proofs.Memory.Replies

/-!
What an instruction writes besides memory.  Its plan names the registers that it may change, whether
the flags change, and where execution goes on; all of it can be read off its class, its mnemonic and
the register fields of its word, whatever the registers hold.
-/

namespace A64Machine

namespace Mnemonic

def setsFlags : Mnemonic → Bool
  | .addsImmW | .addsImmX | .subsImmW | .subsImmX | .addsW | .addsX | .subsW | .subsX
  | .andsImmW | .andsImmX | .andsW | .andsX | .bicsW | .bicsX => true
  | _ => false

/-- Whether a mnemonic is a branch that leaves the return address in the link register. -/
def links : Mnemonic → Bool
  | .bl | .blr => true
  | _ => false

def isStore : Mnemonic → Bool
  | .strW | .strX | .stpW | .stpX => true
  | _ => false

/-- The registers that a load or store of some registers changes through its transfer fields. -/
def loaded (mnemonic : Mnemonic) (word : Word) : List Nat :=
  match mnemonic with
  | .ldrW | .ldrX | .ldrsw => [Operand.rt word]
  | .ldpW | .ldpX => [Operand.rt word, Operand.rt2 word]
  | _ => []

end Mnemonic

def InstructionClass.isBranch : InstructionClass → Bool
  | .conditionalBranch | .unconditionalBranchRegister | .unconditionalBranchImmediate
  | .compareAndBranch | .testAndBranch => true
  | _ => false

namespace Instruction

/-- The registers that an instruction may write as data registers. -/
def dataDestinations (instruction : Instruction) : List Nat :=
  let word := instruction.word
  let mnemonic := instruction.mnemonic
  match instruction.cls with
  | .pcRelativeAddressing | .moveWideImmediate | .bitfield | .addSubtractShiftedRegister
  | .logicalShiftedRegister | .dataProcessingThreeSource | .dataProcessingTwoSource
  | .conditionalSelect => [Operand.rd word]
  | .addSubtractImmediate | .logicalImmediate =>
    if mnemonic.setsFlags then [Operand.rd word] else []
  | .unconditionalBranchRegister | .unconditionalBranchImmediate =>
    if mnemonic.links then [linkRegister] else []
  | .loadRegisterLiteral | .loadStoreUnsignedImmediate | .loadStoreImmediatePreIndexed
  | .loadStoreImmediatePostIndexed | .loadStorePairOffset | .loadStorePairPreIndexed
  | .loadStorePairPostIndexed => mnemonic.loaded word
  | _ => []

/-- The registers that an instruction may write as address registers. -/
def addressDestinations (instruction : Instruction) : List Nat :=
  let word := instruction.word
  match instruction.cls with
  | .addSubtractImmediate | .logicalImmediate =>
    if instruction.mnemonic.setsFlags then [] else [Operand.rd word]
  | .loadStoreImmediatePreIndexed | .loadStoreImmediatePostIndexed | .loadStorePairPreIndexed
  | .loadStorePairPostIndexed => [Operand.rn word]
  | _ => []

/-- The registers that an instruction may write, by what it means them as. -/
def destinations (instruction : Instruction) : RegisterTarget → List Nat
  | .data => instruction.dataDestinations
  | .address => instruction.addressDestinations

/-- The stack pointer has the largest number of an address register. -/
theorem le_of_mem_addressDestinations {instruction : Instruction} {n : Nat}
    (hmem : n ∈ instruction.addressDestinations) : n ≤ zeroOrSp := by
  have hfield {bits : BitVec 5} (hone : n ∈ [bits.toNat]) : n ≤ zeroOrSp := by
    rw [List.mem_singleton.1 hone]
    exact Nat.le_of_lt_succ bits.isLt
  unfold addressDestinations at hmem
  extract_lets word at hmem
  split at hmem
  case h_1 | h_2 =>
    split at hmem
    · contradiction
    · exact hfield hmem
  case h_7 => contradiction
  all_goals exact hfield hmem

end Instruction

namespace Plan

/-- What a plan of an instruction keeps to: the registers it may write, the flags and the stores that
its mnemonic has, and the next instruction in sequence unless it is a branch. -/
structure KeepsTo (made : Plan) (regs : RegisterFile) (instruction : Instruction) : Prop where
  loads : ∀ request ∈ made.loads, request.reg ∈ instruction.dataDestinations
  writes : ∀ write ∈ made.effects.writes, write.reg ∈ instruction.destinations write.target
  flags : made.effects.flags ≠ none → instruction.mnemonic.setsFlags
  nextPc : instruction.cls.isBranch = false → made.effects.nextPc = fallThrough regs
  stores : made.effects.stores ≠ [] → instruction.mnemonic.isStore

section Shapes

variable {regs : RegisterFile} {instruction : Instruction}

theorem idle_keepsTo : (idle regs).KeepsTo regs instruction where
  loads := List.forall_mem_nil _
  writes := List.forall_mem_nil _
  flags hflags := absurd rfl hflags
  nextPc _ := rfl
  stores hstores := absurd rfl hstores

theorem result_keepsTo {w reg : Nat} {value : BitVec w} {flags : Option Flags}
    (hreg : reg ∈ instruction.dataDestinations)
    (hflags : flags ≠ none → instruction.mnemonic.setsFlags) :
    (result regs reg value flags).KeepsTo regs instruction where
  loads := List.forall_mem_nil _
  writes := List.forall_mem_singleton.2 hreg
  flags := hflags
  nextPc _ := rfl
  stores hstores := absurd rfl hstores

theorem writing_keepsTo {reg : Nat} {value : Doubleword}
    (hreg : reg ∈ instruction.addressDestinations) :
    (writing regs [.address reg value]).KeepsTo regs instruction where
  loads := List.forall_mem_nil _
  writes := List.forall_mem_singleton.2 hreg
  flags hflags := absurd rfl hflags
  nextPc _ := rfl
  stores hstores := absurd rfl hstores

theorem jump_keepsTo {target : Doubleword} {writes : List RegisterWrite}
    (hbranch : instruction.cls.isBranch = true)
    (hwrites : ∀ write ∈ writes, write.reg ∈ instruction.destinations write.target) :
    (jump target writes).KeepsTo regs instruction where
  loads := List.forall_mem_nil _
  writes := hwrites
  flags hflags := absurd rfl hflags
  nextPc hnot := by
    rw [hbranch] at hnot
    contradiction
  stores hstores := absurd rfl hstores

theorem branch_keepsTo {taken : Bool} {target : Doubleword}
    (hbranch : instruction.cls.isBranch = true) :
    (branch regs taken target).KeepsTo regs instruction := by
  unfold branch
  split
  · exact jump_keepsTo hbranch (List.forall_mem_nil _)
  · exact idle_keepsTo

theorem loading_keepsTo {loads : List LoadRequest} {writes : List RegisterWrite}
    (hloads : ∀ request ∈ loads, request.reg ∈ instruction.dataDestinations)
    (hwrites : ∀ write ∈ writes, write.reg ∈ instruction.destinations write.target) :
    (loading regs loads writes).KeepsTo regs instruction where
  loads := hloads
  writes := hwrites
  flags hflags := absurd rfl hflags
  nextPc _ := rfl
  stores hstores := absurd rfl hstores

theorem storing_keepsTo {stores : List PendingStore} {writes : List RegisterWrite}
    (hstore : instruction.mnemonic.isStore = true)
    (hwrites : ∀ write ∈ writes, write.reg ∈ instruction.destinations write.target) :
    (storing regs stores writes).KeepsTo regs instruction where
  loads := List.forall_mem_nil _
  writes := hwrites
  flags hflags := absurd rfl hflags
  nextPc _ := rfl
  stores _ := hstore

end Shapes

/-- The plans that compute one number of the operand width, which they write to a data register with
or without flags or to an address register, or branch on. -/
inductive Computes (regs : RegisterFile) (instruction : Instruction) : Plan → Prop
  | result {reg : Nat} {value : BitVec (Operand.width instruction.word).bits}
      {flags : Option Flags} (hreg : reg ∈ instruction.dataDestinations)
      (hflags : flags ≠ none → instruction.mnemonic.setsFlags) :
      Computes regs instruction (result regs reg value flags)
  | writing {reg : Nat} {value : BitVec (Operand.width instruction.word).bits}
      (hreg : reg ∈ instruction.addressDestinations) :
      Computes regs instruction (writing regs [.address reg (value.setWidth 64)])
  | branch {taken : Bool} {target : Doubleword} (hbranch : instruction.cls.isBranch = true) :
      Computes regs instruction (branch regs taken target)

theorem Computes.keepsTo {regs : RegisterFile} {instruction : Instruction} {made : Plan}
    (hcomputes : Computes regs instruction made) : made.KeepsTo regs instruction := by
  cases hcomputes with
  | result hreg hflags => exact result_keepsTo hreg hflags
  | writing hreg => exact writing_keepsTo hreg
  | branch hbranch => exact branch_keepsTo hbranch

end Plan

section Families

open Plan

variable {word : Word} {group : InstructionGroup} {mnemonic : Mnemonic} {regs : RegisterFile}
  {made : Plan}

theorem planPcRelative_keepsTo (hplan : planPcRelative word mnemonic regs = .ok made) :
    made.KeepsTo regs ⟨word, group, .pcRelativeAddressing, mnemonic⟩ := by
  unfold planPcRelative at hplan
  extract_lets displacement rd page at hplan
  split at hplan
  case h_3 => contradiction
  all_goals
    obtain rfl := Except.ok.inj hplan
    exact result_keepsTo List.mem_cons_self (absurd rfl)

theorem planAddSubImmediate_computes (hplan : planAddSubImmediate word mnemonic regs = .ok made) :
    Computes regs ⟨word, group, .addSubtractImmediate, mnemonic⟩ made := by
  unfold planAddSubImmediate at hplan
  extract_lets w imm12 imm operand rd plain flagged at hplan
  split at hplan
  case h_9 => contradiction
  all_goals obtain rfl := Except.ok.inj hplan
  case h_3 | h_4 | h_7 | h_8 => exact .result List.mem_cons_self fun _ => rfl
  all_goals exact .writing List.mem_cons_self

theorem planLogicalImmediate_computes (hplan : planLogicalImmediate word mnemonic regs = .ok made) :
    Computes regs ⟨word, group, .logicalImmediate, mnemonic⟩ made := by
  rcases bind_eq_ok hplan with ⟨⟨imm, _⟩, -, hmade⟩
  dsimp only at hmade
  split at hmade
  case h_9 => contradiction
  all_goals obtain rfl := Except.ok.inj hmade
  case h_7 | h_8 => exact .result List.mem_cons_self fun _ => rfl
  all_goals exact .writing List.mem_cons_self

theorem planMoveWide_computes (hplan : planMoveWide word mnemonic regs = .ok made) :
    Computes regs ⟨word, group, .moveWideImmediate, mnemonic⟩ made := by
  unfold planMoveWide at hplan
  extract_lets w position imm rd hole next at hplan
  split at hplan
  · contradiction
  simp only [next] at hplan
  split at hplan
  case h_7 => contradiction
  all_goals
    obtain rfl := Except.ok.inj hplan
    exact .result List.mem_cons_self (absurd rfl)

theorem planBitfield_computes (hplan : planBitfield word mnemonic regs = .ok made) :
    Computes regs ⟨word, group, .bitfield, mnemonic⟩ made := by
  unfold planBitfield at hplan
  extract_lets w immr imms rd source moved at hplan
  split at hplan
  · contradiction
  rcases bind_eq_ok hplan with ⟨⟨wmask, tmask⟩, -, hmade⟩
  dsimp only at hmade
  split at hmade
  case h_7 => contradiction
  all_goals
    obtain rfl := Except.ok.inj hmade
    exact .result List.mem_cons_self (absurd rfl)

theorem planConditionalBranch_keepsTo
    (hplan : planConditionalBranch word mnemonic regs = .ok made) :
    made.KeepsTo regs ⟨word, group, .conditionalBranch, mnemonic⟩ := by
  unfold planConditionalBranch at hplan
  split at hplan
  case h_2 => contradiction
  obtain rfl := Except.ok.inj hplan
  exact branch_keepsTo rfl

theorem planBranchRegister_keepsTo (hplan : planBranchRegister word mnemonic regs = .ok made) :
    made.KeepsTo regs ⟨word, group, .unconditionalBranchRegister, mnemonic⟩ := by
  unfold planBranchRegister at hplan
  extract_lets target at hplan
  split at hplan
  case h_4 => contradiction
  all_goals obtain rfl := Except.ok.inj hplan
  case h_3 => exact jump_keepsTo rfl (List.forall_mem_singleton.2 List.mem_cons_self)
  all_goals exact jump_keepsTo rfl (List.forall_mem_nil _)

theorem planBranchImmediate_keepsTo (hplan : planBranchImmediate word mnemonic regs = .ok made) :
    made.KeepsTo regs ⟨word, group, .unconditionalBranchImmediate, mnemonic⟩ := by
  unfold planBranchImmediate at hplan
  extract_lets target at hplan
  split at hplan
  case h_3 => contradiction
  all_goals obtain rfl := Except.ok.inj hplan
  case h_1 => exact jump_keepsTo rfl (List.forall_mem_nil _)
  case h_2 => exact jump_keepsTo rfl (List.forall_mem_singleton.2 List.mem_cons_self)

theorem planCompareBranch_computes (hplan : planCompareBranch word mnemonic regs = .ok made) :
    Computes regs ⟨word, group, .compareAndBranch, mnemonic⟩ made := by
  unfold planCompareBranch at hplan
  extract_lets isZero at hplan
  split at hplan
  case h_5 => contradiction
  all_goals
    obtain rfl := Except.ok.inj hplan
    exact .branch rfl

theorem planTestBranch_computes (hplan : planTestBranch word mnemonic regs = .ok made) :
    Computes regs ⟨word, group, .testAndBranch, mnemonic⟩ made := by
  unfold planTestBranch at hplan
  extract_lets position isSet target at hplan
  split at hplan
  case h_3 => contradiction
  all_goals
    obtain rfl := Except.ok.inj hplan
    exact .branch rfl

theorem planAddSubShifted_computes (hplan : planAddSubShifted word mnemonic regs = .ok made) :
    Computes regs ⟨word, group, .addSubtractShiftedRegister, mnemonic⟩ made := by
  unfold planAddSubShifted at hplan
  extract_lets w sum at hplan
  have hsum {subtract flagged : Bool} (hmade : sum subtract flagged = .ok made)
      (hflags : flagged = true → mnemonic.setsFlags = true) :
      Computes regs ⟨word, group, .addSubtractShiftedRegister, mnemonic⟩ made := by
    rcases bind_eq_ok hmade with ⟨operand, -, hresult⟩
    obtain rfl := Except.ok.inj hresult
    refine .result List.mem_cons_self ?_
    intro hset
    cases flagged with
    | false => exact absurd rfl hset
    | true => exact hflags rfl
  clear_value sum
  split at hplan
  case h_9 => contradiction
  case h_3 | h_4 | h_7 | h_8 => exact hsum hplan fun _ => rfl
  all_goals exact hsum hplan Bool.noConfusion

theorem planLogicalShifted_computes (hplan : planLogicalShifted word mnemonic regs = .ok made) :
    Computes regs ⟨word, group, .logicalShiftedRegister, mnemonic⟩ made := by
  rcases bind_eq_ok hplan with ⟨operand, -, hmade⟩
  dsimp only at hmade
  split at hmade
  case h_17 => contradiction
  all_goals obtain rfl := Except.ok.inj hmade
  case h_13 | h_14 | h_15 | h_16 => exact .result List.mem_cons_self fun _ => rfl
  all_goals exact .result List.mem_cons_self (absurd rfl)

theorem planMultiplyAdd_computes (hplan : planMultiplyAdd word mnemonic regs = .ok made) :
    Computes regs ⟨word, group, .dataProcessingThreeSource, mnemonic⟩ made := by
  unfold planMultiplyAdd at hplan
  extract_lets w product addend rd at hplan
  split at hplan
  case h_5 => contradiction
  all_goals
    obtain rfl := Except.ok.inj hplan
    exact .result List.mem_cons_self (absurd rfl)

theorem planTwoSource_computes (hplan : planTwoSource word mnemonic regs = .ok made) :
    Computes regs ⟨word, group, .dataProcessingTwoSource, mnemonic⟩ made := by
  unfold planTwoSource at hplan
  extract_lets w x y rd at hplan
  split at hplan
  case h_13 => contradiction
  all_goals
    obtain rfl := Except.ok.inj hplan
    exact .result List.mem_cons_self (absurd rfl)

theorem planConditionalSelect_computes
    (hplan : planConditionalSelect word mnemonic regs = .ok made) :
    Computes regs ⟨word, group, .conditionalSelect, mnemonic⟩ made := by
  unfold planConditionalSelect at hplan
  extract_lets w condition x y select at hplan
  split at hplan
  case h_9 => contradiction
  all_goals
    obtain rfl := Except.ok.inj hplan
    exact .result List.mem_cons_self (absurd rfl)

theorem planLoadLiteral_keepsTo (hplan : planLoadLiteral word mnemonic regs = .ok made) :
    made.KeepsTo regs ⟨word, group, .loadRegisterLiteral, mnemonic⟩ := by
  unfold planLoadLiteral at hplan
  extract_lets address reg at hplan
  split at hplan
  case h_5 => contradiction
  all_goals obtain rfl := Except.ok.inj hplan
  case h_4 => exact idle_keepsTo
  all_goals
    exact loading_keepsTo (List.forall_mem_singleton.2 List.mem_cons_self) (List.forall_mem_nil _)

/-- An update of the base register goes to where the class of the instruction lets it go. -/
theorem writeback_destinations {instruction : Instruction} {indexing : Indexing}
    {base offset : Doubleword}
    (hbase : indexing.writesBack = true →
      Operand.rn word ∈ instruction.addressDestinations) :
    ∀ write ∈ indexing.writeback (Operand.rn word) base offset,
      write.reg ∈ instruction.destinations write.target := by
  unfold Indexing.writeback
  split
  next hwrites => exact List.forall_mem_singleton.2 (hbase hwrites)
  next => exact List.forall_mem_nil _

/-- What the loads and stores of one register keep to, in a class that lets them write the registers
they load and their base register. -/
theorem planLoadStore_keepsTo {cls : InstructionClass} {indexing : Indexing}
    (hplan : planLoadStore word mnemonic indexing regs = .ok made)
    (hloaded : Instruction.dataDestinations ⟨word, group, cls, mnemonic⟩ = mnemonic.loaded word)
    (hbase : indexing.writesBack = true →
      Operand.rn word ∈ Instruction.addressDestinations ⟨word, group, cls, mnemonic⟩) :
    made.KeepsTo regs ⟨word, group, cls, mnemonic⟩ := by
  unfold planLoadStore at hplan
  extract_lets rt rn offset base address writeback access at hplan
  have hwrites : ∀ write ∈ writeback,
      write.reg ∈ Instruction.destinations ⟨word, group, cls, mnemonic⟩ write.target :=
    writeback_destinations hbase
  have hload {signed : Bool} {bytes : Nat} (hmade : access (.load signed) bytes = .ok made)
      (hrt : mnemonic.loaded word = [rt]) : made.KeepsTo regs ⟨word, group, cls, mnemonic⟩ := by
    simp only [access] at hmade
    split at hmade
    · contradiction
    obtain rfl := Except.ok.inj hmade
    refine loading_keepsTo (List.forall_mem_singleton.2 ?_) hwrites
    rw [hloaded, hrt]
    exact List.mem_cons_self
  have hstore {bytes : Nat} (hmade : access .store bytes = .ok made)
      (hstores : mnemonic.isStore = true) : made.KeepsTo regs ⟨word, group, cls, mnemonic⟩ := by
    simp only [access] at hmade
    split at hmade
    · contradiction
    obtain rfl := Except.ok.inj hmade
    exact storing_keepsTo hstores hwrites
  clear_value access
  split at hplan
  case h_1 | h_4 => exact hstore hplan rfl
  case h_2 | h_3 | h_5 => exact hload hplan rfl
  case h_6 =>
    split at hplan
    · obtain rfl := Except.ok.inj hplan
      exact idle_keepsTo
    · contradiction
  case h_7 => contradiction

/-- What the loads and stores of two registers keep to. -/
theorem planLoadStorePair_keepsTo {cls : InstructionClass} {indexing : Indexing}
    (hplan : planLoadStorePair word mnemonic indexing regs = .ok made)
    (hloaded : Instruction.dataDestinations ⟨word, group, cls, mnemonic⟩ = mnemonic.loaded word)
    (hbase : indexing.writesBack = true →
      Operand.rn word ∈ Instruction.addressDestinations ⟨word, group, cls, mnemonic⟩) :
    made.KeepsTo regs ⟨word, group, cls, mnemonic⟩ := by
  unfold planLoadStorePair at hplan
  extract_lets rt rt2 rn base access at hplan
  have hload {bytes : Nat} (hmade : access true bytes = .ok made)
      (hpair : mnemonic.loaded word = [rt, rt2]) :
      made.KeepsTo regs ⟨word, group, cls, mnemonic⟩ := by
    simp only [access] at hmade
    split at hmade
    · contradiction
    obtain rfl := Except.ok.inj hmade
    refine loading_keepsTo ?_ (writeback_destinations hbase)
    rw [hloaded, hpair]
    simp
  have hstore {bytes : Nat} (hmade : access false bytes = .ok made)
      (hstores : mnemonic.isStore = true) : made.KeepsTo regs ⟨word, group, cls, mnemonic⟩ := by
    simp only [access] at hmade
    split at hmade
    · contradiction
    obtain rfl := Except.ok.inj hmade
    exact storing_keepsTo hstores (writeback_destinations hbase)
  clear_value access
  split at hplan
  case h_1 | h_3 => exact hstore hplan rfl
  case h_2 | h_4 => exact hload hplan rfl
  case h_5 => contradiction

end Families

/-- Every plan keeps to what can be read off its instruction. -/
theorem plan_keepsTo {instruction : Instruction} {regs : RegisterFile} {made : Plan}
    (hplan : plan instruction regs = .ok made) : made.KeepsTo regs instruction := by
  rcases instruction with ⟨word, group, cls, mnemonic⟩
  cases cls with
  | pcRelativeAddressing => exact planPcRelative_keepsTo hplan
  | addSubtractImmediate => exact (planAddSubImmediate_computes hplan).keepsTo
  | logicalImmediate => exact (planLogicalImmediate_computes hplan).keepsTo
  | moveWideImmediate => exact (planMoveWide_computes hplan).keepsTo
  | bitfield => exact (planBitfield_computes hplan).keepsTo
  | conditionalBranch => exact planConditionalBranch_keepsTo hplan
  | unconditionalBranchRegister => exact planBranchRegister_keepsTo hplan
  | unconditionalBranchImmediate => exact planBranchImmediate_keepsTo hplan
  | compareAndBranch => exact (planCompareBranch_computes hplan).keepsTo
  | testAndBranch => exact (planTestBranch_computes hplan).keepsTo
  | addSubtractShiftedRegister => exact (planAddSubShifted_computes hplan).keepsTo
  | logicalShiftedRegister => exact (planLogicalShifted_computes hplan).keepsTo
  | dataProcessingThreeSource => exact (planMultiplyAdd_computes hplan).keepsTo
  | dataProcessingTwoSource => exact (planTwoSource_computes hplan).keepsTo
  | conditionalSelect => exact (planConditionalSelect_computes hplan).keepsTo
  | hints | barriers =>
    obtain rfl := Except.ok.inj hplan
    exact Plan.idle_keepsTo
  | loadRegisterLiteral => exact planLoadLiteral_keepsTo hplan
  | loadStoreUnsignedImmediate | loadStorePairOffset =>
    first
      | exact planLoadStore_keepsTo hplan rfl Bool.noConfusion
      | exact planLoadStorePair_keepsTo hplan rfl Bool.noConfusion
  | loadStoreImmediatePreIndexed | loadStoreImmediatePostIndexed =>
    exact planLoadStore_keepsTo hplan rfl fun _ => List.mem_cons_self
  | loadStorePairPreIndexed | loadStorePairPostIndexed =>
    exact planLoadStorePair_keepsTo hplan rfl fun _ => List.mem_cons_self
  | _ => contradiction

end A64Machine
