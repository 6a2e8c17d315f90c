import A64Machine.Proofs.Unit.Following
import A64Machine.Proofs.Unit.Shown

/-!
What a unit reports of a program, from its start to its end: the instructions that it retired, each
fetched where the one before it left the program counter, perhaps a fault, and how it ended.
-/

namespace A64Machine

/-- An instruction that retired. -/
structure Retirement where
  pc : Doubleword
  word : Word
  mnemonic : Mnemonic
  deriving Repr, DecidableEq

/-- A fault, with the word of its instruction if one was fetched. -/
structure RaisedFault where
  pc : Doubleword
  word : Option Word
  cause : FaultCode
  deriving Repr, DecidableEq

def Retirement.events (index : Nat) (instruction : Retirement) : List Event :=
  [.fetch index instruction.pc instruction.word, .retire index instruction.pc instruction.mnemonic]

def RaisedFault.events (index : Nat) (fault : RaisedFault) : List Event :=
  ExecutionUnit.fetched index fault.pc fault.word ++ [.fault index fault.pc fault.cause]

/-- The trace of a program that left the unit, with the number of its ticket. -/
structure ProgramTrace where
  number : Nat
  program : Program
  retired : List Retirement
  fault : Option RaisedFault
  interrupted : Bool
  deriving Repr, DecidableEq

namespace ProgramTrace

/-- What is reported of a program before it ends. -/
def begun (index : Nat) (program : Program) (retired : List Retirement) : List Event :=
  .programStarted index program.entry :: retired.flatMap (·.events index)

theorem begun_concat (index : Nat) (program : Program) (retired : List Retirement)
    (instruction : Retirement) : begun index program (retired ++ [instruction]) =
      begun index program retired ++ instruction.events index := by
  rw [begun, begun, List.flatMap_append, List.flatMap_singleton, List.cons_append]

def events (index : Nat) (trace : ProgramTrace) : List Event :=
  begun index trace.program trace.retired ++
    (trace.fault.toList.flatMap (·.events index) ++ [.programFinished index trace.interrupted])

/-- Whether a trace is that of the run of its program over the flat view.  A program that was asked
to stop does not end normally, wherever it is. -/
structure Runs (trace : ProgramTrace) (stopped : Prop) (words : UnitWords) : Prop where
  entry : (FlatMachine.after trace.program words 0).regs.pc.toNat = trace.program.entry * wordBytes
  retires : ∀ (i : Nat) (instruction : Retirement), trace.retired[i]? = some instruction →
    instruction.pc = (FlatMachine.after trace.program words i).regs.pc ∧
    ∃ group, (FlatMachine.after trace.program words i).outcome =
      .retired instruction.pc instruction.word group instruction.mnemonic
  faults : ∀ fault, trace.fault = some fault →
    fault.pc = (FlatMachine.after trace.program words trace.retired.length).regs.pc ∧
    (trace.program.length ≤ words.map.hierarchyWords →
      (FlatMachine.after trace.program words trace.retired.length).outcome =
        .faulted fault.pc fault.word fault.cause)
  left : trace.interrupted = false → trace.program.endAddress ≤
    (FlatMachine.after trace.program words trace.retired.length).regs.pc.toNat
  normal : trace.program.endAddress ≤
      (FlatMachine.after trace.program words trace.retired.length).regs.pc.toNat →
    trace.interrupted = false ∨ stopped

/-- Whether a trace is that of a program on a unit with the given address map, and agrees with what
is shown of it. -/
structure WellFormed (trace : ProgramTrace) (map : AddressMap) (stopped : Prop) (shown : Shown) :
    Prop where
  state_eq : shown.state = if trace.interrupted then .interrupted else .ready
  fault_eq : shown.fault = trace.fault.map (·.cause)
  retired_eq : shown.frame.retired = trace.retired.length
  fetches : ∀ index pc word, Event.fetch index pc word ∈ trace.events index →
    pc.toNat % wordBytes = 0 ∧ pc.toNat < trace.program.endAddress
  unfetched : ∀ fault, trace.fault = some fault → fault.word = none →
    fault.pc.toNat % wordBytes ≠ 0 ∨ map.hierarchyWords < trace.program.length
  runs : ∃ words : UnitWords, words.map = map ∧ trace.Runs stopped words

end ProgramTrace

/-- Whether a program can be held by a memory with 64-bit addresses and has the word at which it
starts. -/
structure Program.Loadable (program : Program) : Prop where
  entry_lt : program.entry < program.length
  endAddress_lt : program.endAddress < byteAddresses

instance (program : Program) : Decidable program.Loadable :=
  decidable_of_iff (program.entry < program.length ∧ program.endAddress < byteAddresses)
    ⟨fun ⟨hentry, hend⟩ => ⟨hentry, hend⟩, fun ⟨hentry, hend⟩ => ⟨hentry, hend⟩⟩

namespace StepOutcome

def pc : StepOutcome → Doubleword
  | .retired pc _ _ _ => pc
  | .faulted pc _ _ => pc

/-- The word of the instruction, if one was fetched. -/
def word? : StepOutcome → Option Word
  | .retired _ word _ _ => some word
  | .faulted _ word _ => word

end StepOutcome

/-- A step is one of the instruction at the program counter. -/
theorem UnitWords.step_fetches (words : UnitWords) (regs : RegisterFile) :
    (words.step regs).1.1.pc = regs.pc ∧
      (words.step regs).1.1.word? = (words.fetch regs.pc).toOption := by
  unfold step
  cases hfetch : words.fetch regs.pc with
  | error cause => exact ⟨rfl, rfl⟩
  | ok word =>
    simp only [stepFrom]
    cases hdecode : decode word with
    | error fault => exact ⟨rfl, rfl⟩
    | ok instruction =>
      have hword := (decode_eq_ok hdecode).1
      simp only
      cases words.execute instruction regs with
      | error cause => exact ⟨rfl, congrArg some hword⟩
      | ok effects => exact ⟨rfl, congrArg some hword⟩

namespace Program.Loadable

variable {program : Program}

/-- The loader checks the entry, and memory bounds the image. -/
theorem of_ofWords {words : Array Word} {entry : Nat} (hloads : ofWords words entry = .ok program)
    (hsize : words.size * wordBytes < byteAddresses) : program.Loadable := by
  unfold ofWords at hloads
  split at hloads
  · contradiction
  split at hloads
  · contradiction
  next hentry =>
    obtain rfl := Except.ok.inj hloads
    exact ⟨Nat.lt_of_not_le hentry, hsize⟩

theorem toNat_entryAddress (hloadable : program.Loadable) :
    (ExecutionUnit.entryAddress program).toNat = program.entry * wordBytes ∧
      program.entry * wordBytes < program.endAddress := by
  have hlt : program.entry * wordBytes < program.endAddress :=
    Nat.mul_lt_mul_of_pos_right hloadable.entry_lt (by decide)
  refine ⟨?_, hlt⟩
  rw [ExecutionUnit.entryAddress, BitVec.toNat_ofNat]
  exact Nat.mod_eq_of_lt (Nat.lt_trans hlt hloadable.endAddress_lt)

/-- The address whose reaching ends a program lies beyond every image. -/
theorem leaves_iff (hloadable : program.Loadable) (machine : FlatMachine) :
    machine.Leaves program ↔ program.endAddress ≤ machine.regs.pc.toNat := by
  refine ⟨fun hleaves => ?_, .inr⟩
  rcases hleaves with hexit | hbeyond
  · rw [hexit, programExit, BitVec.toNat_allOnes]
    exact Nat.le_sub_one_of_lt hloadable.endAddress_lt
  · exact hbeyond

end Program.Loadable

namespace FlatMachine

variable {machine : FlatMachine}

theorem pc_outcome (machine : FlatMachine) : machine.outcome.pc = machine.regs.pc :=
  (machine.words.step_fetches machine.regs).1

theorem aligned_of_word? {word : Word} (hword : machine.outcome.word? = some word) :
    machine.regs.pc.toNat % wordBytes = 0 := by
  rw [outcome, (machine.words.step_fetches machine.regs).2, UnitWords.fetch] at hword
  split at hword
  · contradiction
  next haligned => exact Decidable.of_not_not haligned

theorem misaligned_of_word? (hword : machine.outcome.word? = none)
    (hmapped : machine.regs.pc.toNat < machine.words.map.hierarchyWords * wordBytes) :
    machine.regs.pc.toNat % wordBytes ≠ 0 := by
  rw [outcome, (machine.words.step_fetches machine.regs).2, UnitWords.fetch] at hword
  split at hword
  next hmisaligned => exact hmisaligned
  split at hword
  next haddress =>
    have hbound := (Nat.div_lt_iff_lt_mul (by decide)).mpr hmapped
    exact absurd haddress (Nat.not_le_of_lt hbound)
  next => contradiction

end FlatMachine

theorem ProgramTrace.mem_fetch_events {trace : ProgramTrace} {index other : Nat} {pc : Doubleword}
    {word : Word} (hfetch : Event.fetch other pc word ∈ trace.events index) :
    (∃ instruction ∈ trace.retired, instruction.pc = pc) ∨
      ∃ fault, trace.fault = some fault ∧ fault.word = some word ∧ fault.pc = pc := by
  rw [events, begun, List.mem_append, List.mem_append, List.mem_cons, List.mem_flatMap,
    List.mem_flatMap] at hfetch
  rcases hfetch with
    (hstart | ⟨instruction, hinstruction, hevent⟩) | ⟨fault, hfault, hevent⟩ | hlast
  · contradiction
  · rcases List.mem_cons.mp hevent with hsame | hretire
    · exact .inl ⟨instruction, hinstruction, (Event.fetch.inj hsame).2.1.symm⟩
    · exact absurd (List.mem_singleton.mp hretire) nofun
  · refine .inr ⟨fault, Option.mem_toList.mp hfault, ?_⟩
    rcases List.mem_append.mp hevent with hfetched | hraised
    · cases hword : fault.word with
      | none =>
        rw [hword] at hfetched
        exact absurd hfetched List.not_mem_nil
      | some fetched =>
        rw [hword] at hfetched
        obtain ⟨-, hpc, hsame⟩ := Event.fetch.inj (List.mem_singleton.mp hfetched)
        exact ⟨congrArg some hsame.symm, hpc.symm⟩
    · exact absurd (List.mem_singleton.mp hraised) nofun
  · exact absurd (List.mem_singleton.mp hlast) nofun

/-- Whether a program under way is where its run over the flat view is, after the given
instructions. -/
structure Execution.Running (execution : Execution) (map : AddressMap) (memory : UnitMemory)
    (words : UnitWords) (retired : List Retirement) : Prop where
  map_eq : words.map = map
  fits : execution.program.length ≤ map.hierarchyWords
  follows : execution.Follows memory words
  length_eq : retired.length = execution.retired
  retires : ∀ (i : Nat) (instruction : Retirement), retired[i]? = some instruction →
    ∃ group, (FlatMachine.after execution.program words i).outcome =
      .retired instruction.pc instruction.word group instruction.mnemonic

namespace Execution.Running

variable {execution : Execution} {map : AddressMap} {memory : UnitMemory} {words : UnitWords}
  {retired : List Retirement}

/-- A program begins. -/
theorem of_start {program : Program} {machine : Machine} (hsound : memory.Sound map)
    (hfits : program.length ≤ memory.hierarchy.size)
    (hstart : Machine.start program memory = .ok machine) (ticket : Nat) :
    Execution.Running { program, ticket, regs := machine.regs, retired := 0 } map machine.memory
      memory.words [] where
  map_eq := (UnitMemory.map_words memory).trans hsound.map_eq
  fits := hsound.map_eq ▸ hfits
  follows := Machine.follows_of_start hsound hfits hstart ticket
  length_eq := rfl
  retires _ _ hinstruction := absurd hinstruction nofun

/-- An instruction retires. -/
theorem retire (hrunning : execution.Running map memory words retired) (hsound : memory.Sound map)
    (hstays : ¬execution.Leaves) {pc : Doubleword} {word : Word} {group : InstructionGroup}
    {mnemonic : Mnemonic} {regs : RegisterFile} {after : UnitMemory}
    (hstep : step execution.regs memory = .ok (.retired pc word group mnemonic, regs, after)) :
    Execution.Running { execution with regs, retired := execution.retired + 1 } map after words
      (retired ++ [⟨pc, word, mnemonic⟩]) where
  map_eq := hrunning.map_eq
  fits := hrunning.fits
  follows := hrunning.follows.retire hsound hstays hstep
  length_eq := by rw [List.length_append, hrunning.length_eq, List.length_singleton]
  retires i instruction hinstruction := by
    rw [List.getElem?_append] at hinstruction
    split at hinstruction
    next => exact hrunning.retires i instruction hinstruction
    next hpast =>
      have hlast := (List.getElem?_eq_some_iff.mp hinstruction).1
      rw [List.length_singleton] at hlast
      obtain rfl : i = retired.length := by omega
      rw [Nat.sub_self] at hinstruction
      obtain rfl := Option.some.inj hinstruction
      rw [hrunning.length_eq]
      exact ⟨group, (hrunning.follows.step hsound hstep).1.symm⟩

/-- What has been reported in between makes no difference. -/
theorem of_words (hrunning : execution.Running map memory words retired) {after : UnitMemory}
    (hwords : after.words = memory.words) : execution.Running map after words retired :=
  { hrunning with follows := hrunning.follows.of_words hwords }

/-- An instruction that retired was fetched from the image. -/
theorem fetched (hrunning : execution.Running map memory words retired)
    (hloadable : execution.program.Loadable) {i : Nat} {instruction : Retirement}
    (hinstruction : retired[i]? = some instruction) :
    instruction.pc = (FlatMachine.after execution.program words i).regs.pc ∧
      instruction.pc.toNat % wordBytes = 0 ∧
      instruction.pc.toNat < execution.program.endAddress := by
  obtain ⟨group, houtcome⟩ := hrunning.retires i instruction hinstruction
  have hpc := (FlatMachine.after execution.program words i).pc_outcome
  have hword := congrArg StepOutcome.word? houtcome
  rw [houtcome] at hpc
  have hsame : instruction.pc = (FlatMachine.after execution.program words i).regs.pc := hpc
  have hbound := (List.getElem?_eq_some_iff.mp hinstruction).1
  have hstays := hrunning.follows.stays i (hrunning.length_eq ▸ hbound)
  rw [hsame]
  rw [hloadable.leaves_iff] at hstays
  exact ⟨rfl, FlatMachine.aligned_of_word? hword, Nat.lt_of_not_le hstays⟩

/-- The trace of a program that ends where its run is, with a fault of the next instruction or
without. -/
theorem wellFormed (hrunning : execution.Running map memory words retired)
    (hloadable : execution.program.Loadable) {stopped : Prop} {fault : Option RaisedFault}
    {interrupted : Bool} {frame : Frame} (hframe : frame.retired = execution.retired)
    (hfault : ∀ raised, fault = some raised → ¬execution.Leaves ∧
      (FlatMachine.after execution.program words execution.retired).outcome =
        .faulted raised.pc raised.word raised.cause)
    (hleft : interrupted = false → execution.Leaves)
    (hnormal : execution.Leaves → interrupted = false ∨ stopped) :
    ProgramTrace.WellFormed ⟨execution.ticket, execution.program, retired, fault, interrupted⟩ map
      stopped (.ended frame (fault.map (·.cause)) interrupted) := by
  have hleaves : execution.Leaves ↔ execution.program.endAddress ≤
      (FlatMachine.after execution.program words retired.length).regs.pc.toNat := by
    rw [hrunning.follows.leaves_iff, hloadable.leaves_iff, hrunning.length_eq]
  rw [← hrunning.length_eq] at hfault
  have hraised (raised : RaisedFault) (hsome : fault = some raised) :
      raised.pc = (FlatMachine.after execution.program words retired.length).regs.pc ∧
        (FlatMachine.after execution.program words retired.length).outcome.word? = raised.word ∧
        raised.pc.toNat < execution.program.endAddress := by
    obtain ⟨hstays, houtcome⟩ := hfault raised hsome
    have hpc := (FlatMachine.after execution.program words retired.length).pc_outcome
    rw [houtcome] at hpc ⊢
    rw [hleaves, ← hpc] at hstays
    exact ⟨hpc, rfl, Nat.lt_of_not_le hstays⟩
  constructor
  case state_eq => rfl
  case fault_eq => rfl
  case retired_eq => exact hframe.trans hrunning.length_eq.symm
  case fetches =>
    intro index pc word hfetch
    rcases ProgramTrace.mem_fetch_events hfetch with
      ⟨instruction, hinstruction, rfl⟩ | ⟨raised, hsome, hword, rfl⟩
    · obtain ⟨i, hi⟩ := List.mem_iff_getElem?.mp hinstruction
      exact (hrunning.fetched hloadable hi).2
    · obtain ⟨hpc, hfetched, hlt⟩ := hraised raised hsome
      refine ⟨?_, hlt⟩
      rw [hpc]
      exact FlatMachine.aligned_of_word? (hfetched.trans hword)
  case unfetched =>
    intro raised hsome hnone
    obtain ⟨hpc, hfetched, hlt⟩ := hraised raised hsome
    left
    rw [hpc] at hlt ⊢
    refine FlatMachine.misaligned_of_word? (hfetched.trans hnone) ?_
    rw [FlatMachine.map_after, hrunning.map_eq]
    exact Nat.lt_of_lt_of_le hlt (Nat.mul_le_mul_right _ hrunning.fits)
  case runs =>
    refine ⟨words, hrunning.map_eq, ?_⟩
    constructor
    case entry => exact hloadable.toNat_entryAddress.1
    case retires =>
      intro i instruction hi
      exact ⟨(hrunning.fetched hloadable hi).1, hrunning.retires i instruction hi⟩
    case faults =>
      exact fun raised hsome => ⟨(hraised raised hsome).1, fun _ => (hfault raised hsome).2⟩
    case left => exact fun hfalse => hleaves.mp (hleft hfalse)
    case normal => exact fun hbeyond => hnormal (hleaves.mpr hbeyond)

end Execution.Running

/-- The trace of a program whose image does not fit. -/
theorem ProgramTrace.wellFormed_of_tooLong {program : Program} (hloadable : program.Loadable)
    {words : UnitWords} (htoolong : words.map.hierarchyWords < program.length) (number : Nat)
    {stopped : Prop} {frame : Frame} (hframe : frame.retired = 0) :
    ProgramTrace.WellFormed
      ⟨number, program, [], some ⟨ExecutionUnit.entryAddress program, none, .dataAbort⟩, true⟩
      words.map stopped (.ended frame (some .dataAbort) true) := by
  obtain ⟨hentry, hlt⟩ := hloadable.toNat_entryAddress
  constructor
  case state_eq => rfl
  case fault_eq => rfl
  case retired_eq => exact hframe
  case fetches =>
    intro index pc word hfetch
    rcases mem_fetch_events hfetch with ⟨instruction, hinstruction, -⟩ | ⟨raised, hsome, hword, -⟩
    · exact absurd hinstruction List.not_mem_nil
    · obtain rfl := Option.some.inj hsome
      contradiction
  case unfetched => exact fun _ _ _ => .inr htoolong
  case runs =>
    refine ⟨words, rfl, ?_⟩
    constructor
    case entry => exact hentry
    case retires => exact fun i instruction hi => absurd hi nofun
    case faults =>
      intro raised hsome
      obtain rfl := Option.some.inj hsome
      exact ⟨rfl, fun hfits => absurd hfits (Nat.not_le_of_lt htoolong)⟩
    case left => exact nofun
    case normal =>
      intro hbeyond
      change program.endAddress ≤ (ExecutionUnit.entryAddress program).toNat at hbeyond
      rw [hentry] at hbeyond
      exact absurd hbeyond (Nat.not_le_of_lt hlt)

/-- Less can be said of having been asked to stop. -/
theorem ProgramTrace.WellFormed.mono {trace : ProgramTrace} {map : AddressMap}
    {stopped stopped' : Prop} {shown : Shown} (hwell : trace.WellFormed map stopped shown)
    (himplies : stopped → stopped') : trace.WellFormed map stopped' shown := by
  obtain ⟨words, hmap, hruns⟩ := hwell.runs
  have hruns' : trace.Runs stopped' words :=
    { hruns with normal := fun hbeyond => (hruns.normal hbeyond).imp_right himplies }
  exact { hwell with runs := ⟨words, hmap, hruns'⟩ }

theorem ProgramTrace.WellFormed.isFinished {trace : ProgramTrace} {map : AddressMap}
    {stopped : Prop} {shown : Shown} (hwell : trace.WellFormed map stopped shown) :
    shown.state.isFinished = true := by
  rw [hwell.state_eq]
  cases trace.interrupted with
  | true => rfl
  | false => rfl

end A64Machine
