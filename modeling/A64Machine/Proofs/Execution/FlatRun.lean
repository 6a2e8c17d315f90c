import A64Machine.Proofs.Execution.StepFrame
import A64Machine.Unit.Lifecycle

/-!
The run of a program over the flat view of memory, with the words that it reads and writes.  Two
runs of a program on memories that differ take the same steps as long as the program reads only
words that both have in common: those of its image, and those that it wrote itself.
-/

namespace A64Machine

/-- The words that an access of `bytes` bytes at `address` reads or writes; none when it faults. -/
def AddressMap.touched (map : AddressMap) (address : Doubleword) (bytes : Nat) : List Location :=
  match map.resolve address bytes with
  | .error _ => []
  | .ok first => if bytes ≤ wordBytes then [first] else [first, UnitWords.next first]

/-- The words that some loads read, up to the first load that faults. -/
def AddressMap.loaded (map : AddressMap) : List LoadRequest → List Location
  | [] => []
  | request :: rest =>
    match map.resolve request.address request.bytes with
    | .error _ => []
    | .ok _ => map.touched request.address request.bytes ++ loaded map rest

/-- The words that some stores write. -/
def AddressMap.stored (map : AddressMap) (stores : List PendingStore) : List Location :=
  stores.flatMap fun pending => map.touched pending.address pending.bytes

namespace UnitWords

/-- The instruction at the program counter, when it can be fetched and decoded. -/
def instruction? (words : UnitWords) (pc : Doubleword) : Option Instruction :=
  match words.fetch pc with
  | .error _ => none
  | .ok word => (decode word).toOption

/-- The stores of the instruction at the program counter; none when it faults. -/
def stores (words : UnitWords) (regs : RegisterFile) : List PendingStore :=
  match words.instruction? regs.pc with
  | none => []
  | some instruction =>
    match words.execute instruction regs with
    | .error _ => []
    | .ok effects => effects.stores

/-- The word that is read to fetch the instruction at the program counter. -/
def fetched (words : UnitWords) (pc : Doubleword) : List Location :=
  match words.fetch pc with
  | .error _ => []
  | .ok _ => [⟨.hierarchy, pc.toNat / wordBytes⟩]

def reads (words : UnitWords) (regs : RegisterFile) : List Location :=
  words.fetched regs.pc ++
    match words.instruction? regs.pc with
    | none => []
    | some instruction =>
      match plan instruction regs with
      | .error _ => []
      | .ok made => words.map.loaded made.loads

/-- A step leaves the words that its stores leave. -/
theorem step_words (words : UnitWords) (regs : RegisterFile) :
    (words.step regs).2 = words.commitStores (words.stores regs) := by
  unfold step stores instruction?
  cases words.fetch regs.pc with
  | error cause => rfl
  | ok word =>
    simp only [stepFrom]
    cases decode word with
    | error fault => rfl
    | ok instruction =>
      simp only [Except.toOption]
      cases words.execute instruction regs with
      | error cause => rfl
      | ok effects => rfl

/-- A step faults at the program counter, and then it changes nothing. -/
theorem step_of_faulted {words : UnitWords} {regs : RegisterFile} {pc : Doubleword}
    {word : Option Word} {cause : FaultCode}
    (hfaulted : (words.step regs).1.1 = .faulted pc word cause) :
    pc = regs.pc ∧ words.step regs = ((.faulted pc word cause, regs), words) := by
  unfold step at hfaulted ⊢
  cases hfetch : words.fetch regs.pc with
  | error fault =>
    rw [hfetch] at hfaulted
    obtain ⟨rfl, rfl, rfl⟩ := StepOutcome.faulted.inj hfaulted
    exact ⟨rfl, rfl⟩
  | ok start =>
    rw [hfetch] at hfaulted
    simp only [stepFrom] at hfaulted ⊢
    cases hdecode : decode start with
    | error fault =>
      rw [hdecode] at hfaulted
      obtain ⟨rfl, rfl, rfl⟩ := StepOutcome.faulted.inj hfaulted
      exact ⟨rfl, rfl⟩
    | ok instruction =>
      rw [hdecode] at hfaulted
      simp only at hfaulted ⊢
      cases hexecute : words.execute instruction regs with
      | error fault =>
        rw [hexecute] at hfaulted
        obtain ⟨rfl, rfl, rfl⟩ := StepOutcome.faulted.inj hfaulted
        exact ⟨rfl, rfl⟩
      | ok effects =>
        rw [hexecute] at hfaulted
        contradiction

theorem map_commitStores (words : UnitWords) (stores : List PendingStore) :
    (words.commitStores stores).map = words.map := by
  induction stores generalizing words with
  | nil => rfl
  | cons pending rest ih => exact (ih _).trans (map_store pending.access pending.value)

/-- Words that agree on the stack, and in RAM on those that a program has of its own. -/
structure AgreeOn (own : Nat → Prop) (words other : UnitWords) : Prop where
  stack_eq : words.stack = other.stack
  size_eq : words.ram.size = other.ram.size
  ram_eq : ∀ i, own i → words.ram[i]? = other.ram[i]?

/-- Whether the words of RAM among some words are a program's own. -/
def Within (own : Nat → Prop) (locations : List Location) : Prop :=
  ∀ location ∈ locations, location.region = .hierarchy → own location.word

namespace AgreeOn

variable {own : Nat → Prop} {words other : UnitWords}

theorem map_eq (hagree : words.AgreeOn own other) : words.map = other.map := by
  rw [map, map, hagree.stack_eq, hagree.size_eq]

theorem wordAt_eq (hagree : words.AgreeOn own other) {location : Location}
    (hown : location.region = .hierarchy → own location.word) :
    words.wordAt location = other.wordAt location := by
  obtain ⟨region, word⟩ := location
  cases region with
  | stack => rw [wordAt, wordAt, hagree.stack_eq]
  | hierarchy => rw [wordAt, wordAt, hagree.ram_eq word (hown rfl)]

theorem fetch_eq (hagree : words.AgreeOn own other) {pc : Doubleword}
    (hreads : Within own (words.fetched pc)) : words.fetch pc = other.fetch pc := by
  unfold fetched at hreads
  unfold fetch at hreads ⊢
  rw [← hagree.size_eq]
  split
  · rfl
  next haligned =>
  rw [if_neg haligned] at hreads
  split
  · rfl
  next hmapped =>
    rw [if_neg hmapped] at hreads
    have hown := hreads _ (List.mem_singleton_self _) rfl
    rw [hagree.ram_eq _ hown]

theorem load_eq (hagree : words.AgreeOn own other) {address : Doubleword} {bytes : Nat}
    (hreads : Within own (words.map.touched address bytes)) :
    words.load address bytes = other.load address bytes := by
  unfold AddressMap.touched at hreads
  unfold load
  rw [← hagree.map_eq]
  split
  · rfl
  next first hresolve =>
    rw [hresolve] at hreads
    simp only at hreads
    by_cases hword : bytes ≤ wordBytes
    · rw [if_pos hword] at hreads ⊢
      rw [if_pos hword, hagree.wordAt_eq (hreads _ List.mem_cons_self)]
    · rw [if_neg hword] at hreads ⊢
      rw [if_neg hword, hagree.wordAt_eq (hreads _ List.mem_cons_self),
        hagree.wordAt_eq (hreads _ (List.mem_cons_of_mem _ List.mem_cons_self))]

theorem performLoads_eq (hagree : words.AgreeOn own other) {loads : List LoadRequest}
    (hreads : Within own (words.map.loaded loads)) :
    words.performLoads loads = other.performLoads loads := by
  induction loads with
  | nil => rfl
  | cons request rest ih =>
    unfold AddressMap.loaded at hreads
    cases hresolve : words.map.resolve request.address request.bytes with
    | error cause =>
      have hload : words.load request.address request.bytes = .error cause := by
        rw [load, hresolve]
      have hload' : other.load request.address request.bytes = .error cause := by
        rw [load, ← hagree.map_eq, hresolve]
      rw [performLoads, performLoads, hload, hload']
      rfl
    | ok first =>
      rw [hresolve] at hreads
      have hfirst : Within own (words.map.touched request.address request.bytes) :=
        fun location hmem => hreads location (List.mem_append_left _ hmem)
      have hrest : Within own (words.map.loaded rest) :=
        fun location hmem => hreads location (List.mem_append_right _ hmem)
      rw [performLoads, performLoads, hagree.load_eq hfirst, ih hrest]

/-- A step that reads only what two memories have in common ends in the same way on both, with the
same registers and the same stores. -/
theorem step_eq (hagree : words.AgreeOn own other) {regs : RegisterFile}
    (hreads : Within own (words.reads regs)) :
    (words.step regs).1 = (other.step regs).1 ∧ words.stores regs = other.stores regs := by
  have hfetched : Within own (words.fetched regs.pc) :=
    fun location hmem => hreads location (List.mem_append_left _ hmem)
  have hfetch := hagree.fetch_eq hfetched
  have hloads := fun location hmem => hreads location (List.mem_append_right _ hmem)
  unfold step stores
  unfold instruction? at hloads ⊢
  rw [← hfetch]
  cases hword : words.fetch regs.pc with
  | error cause => exact ⟨rfl, rfl⟩
  | ok word =>
    rw [hword] at hloads
    simp only [stepFrom] at hloads ⊢
    cases hdecode : decode word with
    | error fault => exact ⟨rfl, rfl⟩
    | ok instruction =>
      rw [hdecode] at hloads
      simp only [Except.toOption] at hloads ⊢
      have hexecute : words.execute instruction regs = other.execute instruction regs := by
        unfold execute
        cases hplan : plan instruction regs with
        | error cause => rfl
        | ok made =>
          rw [hplan] at hloads
          have hperform := hagree.performLoads_eq hloads
          simp only [bind, Except.bind, perform, hperform, hagree.map_eq]
      rw [hexecute]
      cases other.execute instruction regs with
      | error cause => exact ⟨rfl, rfl⟩
      | ok effects => exact ⟨rfl, rfl⟩

/-- A word that is written to both is a word that both have in common. -/
theorem setWord (hagree : words.AgreeOn own other) (location : Location) (value : Word) :
    AgreeOn (fun i => own i ∨ location = ⟨.hierarchy, i⟩) (words.setWord location value)
      (other.setWord location value) := by
  obtain ⟨hstack, hsize, hram⟩ := hagree
  obtain ⟨region, word⟩ := location
  cases region with
  | stack =>
    refine ⟨?_, hsize, ?_⟩
    · simp only [UnitWords.setWord, hstack]
    · intro i hi
      rcases hi with hown | hwritten
      · exact hram i hown
      · have hregion := congrArg Location.region hwritten
        contradiction
  | hierarchy =>
    refine ⟨hstack, ?_, ?_⟩
    · simp only [UnitWords.setWord, size_splice, hsize]
    · intro i hi
      simp only [UnitWords.setWord, getElem?_splice, List.length_singleton, hsize]
      split
      · rfl
      next hout =>
        rcases hi with hown | hwritten
        · exact hram i hown
        · obtain rfl : word = i := congrArg Location.word hwritten
          have hbeyond : other.ram.size ≤ word := by omega
          rw [Array.getElem?_eq_none hbeyond, Array.getElem?_eq_none (by omega)]

theorem mono {more : Nat → Prop} (hagree : words.AgreeOn own other) (hless : ∀ i, more i → own i) :
    words.AgreeOn more other :=
  ⟨hagree.stack_eq, hagree.size_eq, fun i hi => hagree.ram_eq i (hless i hi)⟩

theorem store (hagree : words.AgreeOn own other) (address : Doubleword) (bytes : Nat)
    (value : Doubleword) :
    AgreeOn (fun i => own i ∨ ⟨.hierarchy, i⟩ ∈ words.map.touched address bytes)
      (words.store address bytes value) (other.store address bytes value) := by
  unfold UnitWords.store AddressMap.touched
  rw [← hagree.map_eq]
  cases words.map.resolve address bytes with
  | error cause => exact hagree.mono fun i hi => Or.resolve_right hi List.not_mem_nil
  | ok first =>
    simp only
    split
    · refine (hagree.setWord first _).mono fun i hi => ?_
      exact Or.imp_right (fun hmem => (List.mem_singleton.mp hmem).symm) hi
    · refine ((hagree.setWord first _).setWord (next first) _).mono fun i hi => ?_
      rcases hi with hown | hmem
      · exact .inl (.inl hown)
      rcases List.mem_cons.mp hmem with hlow | hhigh
      · exact .inl (.inr hlow.symm)
      · exact .inr (List.mem_singleton.mp hhigh).symm

theorem commitStores (hagree : words.AgreeOn own other) (stores : List PendingStore) :
    AgreeOn (fun i => own i ∨ ⟨.hierarchy, i⟩ ∈ words.map.stored stores)
      (words.commitStores stores) (other.commitStores stores) := by
  induction stores generalizing words other own with
  | nil => exact hagree.mono fun i hi => Or.resolve_right hi List.not_mem_nil
  | cons pending rest ih =>
    have hmap : (words.store pending.address pending.bytes pending.value).map = words.map :=
      map_store pending.access pending.value
    refine (ih (hagree.store pending.address pending.bytes pending.value)).mono fun i hi => ?_
    rw [hmap]
    rw [AddressMap.stored, List.flatMap_cons, List.mem_append] at hi
    exact or_assoc.mpr hi

end AgreeOn

end UnitWords

/-- A machine over the flat view of memory. -/
@[ext] structure FlatMachine where
  regs : RegisterFile
  words : UnitWords
  deriving Repr, DecidableEq

namespace FlatMachine

/-- The machine with which a program begins: the stack is clear and the image is loaded. -/
def start (program : Program) (words : UnitWords) : FlatMachine where
  regs := ExecutionUnit.startRegisters program words.map
  words := words.resetStack.loadImage program.words.toList

def next (machine : FlatMachine) : FlatMachine where
  regs := (machine.words.step machine.regs).1.2
  words := (machine.words.step machine.regs).2

def outcome (machine : FlatMachine) : StepOutcome :=
  (machine.words.step machine.regs).1.1

/-- The machine of a program after so many steps from its start. -/
def after (program : Program) (words : UnitWords) : Nat → FlatMachine
  | 0 => start program words
  | count + 1 => (after program words count).next

/-- Whether a program has left its image. -/
def Leaves (program : Program) (machine : FlatMachine) : Prop :=
  machine.regs.pc = programExit ∨ program.endAddress ≤ machine.regs.pc.toNat

/-- The stores that a program made in so many steps from its start. -/
def storesOf (program : Program) (words : UnitWords) : Nat → List PendingStore
  | 0 => []
  | count + 1 => storesOf program words count ++
      (after program words count).words.stores (after program words count).regs

/-- Whether a word of RAM is a program's own after so many steps from its start: a word of its image
or one that it has written. -/
def Owns (program : Program) (words : UnitWords) (count i : Nat) : Prop :=
  i < program.length ∨ ⟨.hierarchy, i⟩ ∈ words.map.stored (storesOf program words count)

/-- Whether a program, run on the given words, reads no words of RAM but its own. -/
def ReadsOwn (program : Program) (words : UnitWords) : Prop :=
  ∀ count, (∀ earlier ≤ count, ¬(after program words earlier).Leaves program) →
    UnitWords.Within (Owns program words count)
      ((after program words count).words.reads (after program words count).regs)

variable {program : Program} {words other : UnitWords}

theorem map_start (program : Program) (words : UnitWords) :
    (start program words).words.map = words.map := by
  simp only [start, UnitWords.map, UnitWords.loadImage, UnitWords.resetStack, size_splice,
    Array.size_replicate]

theorem map_after (program : Program) (words : UnitWords) (count : Nat) :
    (after program words count).words.map = words.map := by
  induction count with
  | zero => exact map_start program words
  | succ count ih => rw [after, next, UnitWords.step_words, UnitWords.map_commitStores, ih]

/-- Two runs of a program that reads only its own words: they take the same steps. -/
theorem agree_after (hmap : other.map = words.map) (hown : ReadsOwn program words) (count : Nat)
    (hstays : ∀ earlier < count, ¬(after program words earlier).Leaves program) :
    (after program other count).regs = (after program words count).regs ∧
      storesOf program other count = storesOf program words count ∧
      (after program words count).words.AgreeOn (Owns program words count)
        (after program other count).words := by
  induction count with
  | zero =>
    refine ⟨?_, rfl, ?_, ?_, ?_⟩
    · simp only [after, start, hmap]
    · have hstack : words.stack.size = other.stack.size := (congrArg AddressMap.stackWords hmap).symm
      simp only [after, start, UnitWords.loadImage, UnitWords.resetStack, hstack]
    · have hsize : words.ram.size = other.ram.size := (congrArg AddressMap.hierarchyWords hmap).symm
      simp only [after, start, UnitWords.loadImage, UnitWords.resetStack, size_splice, hsize]
    · intro i hi
      have hsize : words.ram.size = other.ram.size := (congrArg AddressMap.hierarchyWords hmap).symm
      have himage : i < 0 + program.words.toList.length := by
        rw [Nat.zero_add, Array.length_toList]
        exact hi.resolve_right List.not_mem_nil
      simp only [after, start, UnitWords.loadImage, UnitWords.resetStack, getElem?_splice, himage,
        Nat.zero_le, true_and, hsize]
      split
      · rfl
      next hout => rw [Array.getElem?_eq_none (by omega), Array.getElem?_eq_none (by omega)]
  | succ count ih =>
    obtain ⟨hregs, hstores, hagree⟩ := ih fun earlier hlt => hstays earlier (Nat.lt_succ_of_lt hlt)
    have hreads := hown count fun earlier hle => hstays earlier (Nat.lt_succ_of_le hle)
    obtain ⟨hstep, hsame⟩ := hagree.step_eq hreads
    refine ⟨?_, ?_, ?_⟩
    · simp only [after, next, hregs, hstep]
    · simp only [storesOf, hregs, hstores, hsame]
    · rw [after, after, next, next, UnitWords.step_words, UnitWords.step_words, hregs, ← hsame]
      refine (hagree.commitStores _).mono fun i hi => ?_
      rw [map_after]
      rcases hi with himage | hmem
      · exact .inl (.inl himage)
      · rw [storesOf, AddressMap.stored, List.flatMap_append, List.mem_append] at hmem
        exact hmem.imp_left .inr

/-- Two such runs also end in the same way. -/
theorem outcome_after (hmap : other.map = words.map) (hown : ReadsOwn program words) (count : Nat)
    (hstays : ∀ earlier ≤ count, ¬(after program words earlier).Leaves program) :
    (after program other count).outcome = (after program words count).outcome := by
  obtain ⟨hregs, -, hagree⟩ :=
    agree_after hmap hown count fun earlier hlt => hstays earlier (Nat.le_of_lt hlt)
  rw [outcome, outcome, hregs, (hagree.step_eq (hown count hstays)).1]

end FlatMachine

end A64Machine
