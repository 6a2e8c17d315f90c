import A64Machine.Proofs.Execution.FlatMachine
import A64Machine.Proofs.Memory.FlatRefinement

/-!
The states that a unit's memory can come to when the unit is the only client of its caches.  In all
of them the caches agree with RAM, so that what the unit is answered depends on the flat view alone.
-/

namespace A64Machine

/-- Something asked of the memory of a unit, or a clear of one of its caches. -/
inductive UnitCall where
  | fetch (pc : Doubleword)
  | load (address : Doubleword) (bytes : Nat)
  | store (address : Doubleword) (bytes : Nat) (value : Doubleword)
  | loadImage (image : List Word)
  | resetStack
  | clear (depth : Nat)
  | execute (instruction : Instruction) (regs : RegisterFile)
  | step (regs : RegisterFile)
  deriving Repr, DecidableEq

/-- What a call is answered with. -/
inductive UnitAnswer where
  | done
  | word (answer : Except FaultCode Word)
  | value (answer : Except FaultCode Doubleword)
  | effects (answer : Except FaultCode Effects)
  | stepped (outcome : StepOutcome) (regs : RegisterFile)

namespace UnitCall

/-- A call keeps the contract when it asks for some bytes, stores where there is memory and loads an
image that fits. -/
def Allowed (map : AddressMap) : UnitCall → Prop
  | .load _ bytes => 0 < bytes
  | .store address bytes _ => 0 < bytes ∧ map.fault? address bytes = none
  | .loadImage image => image.length ≤ map.hierarchyWords
  | _ => True

def run (memory : UnitMemory) : UnitCall → Except Violation (UnitAnswer × UnitMemory)
  | .fetch pc => do
    let (answer, memory) ← memory.fetch pc
    pure (.word answer, memory)
  | .load address bytes => do
    let (answer, memory) ← memory.load address bytes
    pure (.value answer, memory)
  | .store address bytes value => do
    let memory ← memory.store address bytes value
    pure (.done, memory)
  | .loadImage image => do
    let (loaded, memory) := memory.loadImage image
    loaded
    pure (.done, memory)
  | .resetStack => do
    let memory ← memory.resetStack
    pure (.done, memory)
  | .clear depth => do
    let (_, memory) ← memory.onHierarchy fun hierarchy =>
      Memory.atDepth (fun level => .ok ⟨(), level.clear, []⟩) hierarchy depth
    pure (.done, memory)
  | .execute instruction regs => do
    let (answer, memory) ← A64Machine.execute instruction regs memory
    pure (.effects answer, memory)
  | .step regs => do
    let (outcome, regs, memory) ← A64Machine.step regs memory
    pure (.stepped outcome regs, memory)

/-- What the flat view answers to a call, and the flat view afterwards. -/
def onWords (words : UnitWords) : UnitCall → UnitAnswer × UnitWords
  | .fetch pc => (.word (words.fetch pc), words)
  | .load address bytes => (.value (words.load address bytes), words)
  | .store address bytes value => (.done, words.store address bytes value)
  | .loadImage image => (.done, words.loadImage image)
  | .resetStack => (.done, words.resetStack)
  | .clear _ => (.done, words)
  | .execute instruction regs => (.effects (words.execute instruction regs), words)
  | .step regs =>
    let ((outcome, regs), words) := words.step regs
    (.stepped outcome regs, words)

/-- One call that keeps the contract. -/
theorem run_serves {memory : UnitMemory} (hformed : memory.WellFormed) {call : UnitCall}
    (hallowed : call.Allowed memory.map) :
    ∃ answer after, call.run memory = .ok (answer, after) ∧
      memory.Serves answer after (call.onWords memory.words).1 (call.onWords memory.words).2 := by
  cases call with
  | fetch pc =>
    obtain ⟨answer, after, hfetch, hserves⟩ := memory.fetch_serves hformed pc
    refine ⟨.word answer, after, ?_, hserves.map UnitAnswer.word⟩
    simp only [run, hfetch]
    rfl
  | load address bytes =>
    obtain ⟨answer, after, hload, -, hserves⟩ := memory.load_serves hformed address hallowed
    refine ⟨.value answer, after, ?_, hserves.map UnitAnswer.value⟩
    simp only [run, hload]
    rfl
  | store address bytes value =>
    obtain ⟨after, hstore, hserves⟩ := memory.store_serves hformed hallowed.1 value hallowed.2
    refine ⟨.done, after, ?_, hserves.map fun _ => UnitAnswer.done⟩
    simp only [run, hstore]
    rfl
  | loadImage image =>
    obtain ⟨after, hload, hserves⟩ := memory.loadImage_serves hformed hallowed
    refine ⟨.done, after, ?_, hserves.map fun _ => UnitAnswer.done⟩
    simp only [run, hload]
    rfl
  | resetStack =>
    obtain ⟨after, hreset, hserves⟩ := memory.resetStack_serves hformed
    refine ⟨.done, after, ?_, hserves.map fun _ => UnitAnswer.done⟩
    simp only [run, hreset]
    rfl
  | clear depth =>
    obtain ⟨reply, hreply, hclear⟩ := memory.hierarchy.clear_serves hformed depth
    obtain ⟨after, hcall, hserves⟩ := UnitMemory.onHierarchy_serves
      (fun hierarchy => Memory.atDepth (fun level => .ok ⟨(), level.clear, []⟩) hierarchy depth)
      hreply hclear
    refine ⟨.done, after, ?_, hserves.map fun _ => UnitAnswer.done⟩
    simp only [run, hcall]
    rfl
  | execute instruction regs =>
    obtain ⟨answer, after, hexecute, -, -, hserves⟩ :=
      UnitMemory.execute_serves instruction regs hformed
    refine ⟨.effects answer, after, ?_, hserves.map UnitAnswer.effects⟩
    simp only [run, hexecute]
    rfl
  | step regs =>
    obtain ⟨outcome, regs', after, hstep, hserves⟩ := UnitMemory.step_serves regs hformed
    refine ⟨.stepped outcome regs', after, ?_,
      hserves.map fun ended => UnitAnswer.stepped ended.1 ended.2⟩
    simp only [run, hstep]
    rfl

end UnitCall

/-- A chain of memories in a state that it can come to: some of its caches were put in front of
memories that had been used before, and every level was used only through the top. -/
inductive Memory.Reachable : Memory → Prop
  | ram (store : Ram) : Reachable (.ram store)
  | cache {backing memory : Memory} {name : String} {policy : CachePolicy} {size : Nat}
      (hbacking : Reachable backing) (hbuild : backing.withCache name policy size = .ok memory) :
      Reachable memory
  | call {memory : Memory} {call : MemoryCall} {reply : Reply Memory (List Word)}
      (hmemory : Reachable memory) (hallowed : call.Allowed memory.size)
      (hrun : call.run memory = .ok reply) : Reachable reply.state

theorem Memory.Reachable.coherent {memory : Memory} (hreachable : memory.Reachable) :
    memory.WellFormed ∧ memory.Coherent := by
  induction hreachable with
  | ram store => exact ⟨trivial, trivial⟩
  | cache hbacking hbuild ih => exact coherent_withCache ih.1 ih.2 hbuild
  | call hmemory hallowed hrun ih =>
    obtain ⟨reply, hreply, hserves⟩ := MemoryCall.run_serves ih.1 hallowed
    obtain rfl := Except.ok.inj (hreply.symm.trans hrun)
    exact ⟨hserves.wellFormed, hserves.coherent ih.2⟩

namespace UnitMemory

/-- The memory of a unit in a state that it can come to: any private stack, and a chain of caches
that nobody but the unit uses. -/
inductive Reachable : UnitMemory → Prop
  | start {hierarchy : Memory} (hhierarchy : hierarchy.Reachable) (stack : Ram)
      (events : Array Event) : Reachable { hierarchy, stack, events }
  | call {memory after : UnitMemory} {call : UnitCall} {answer : UnitAnswer}
      (hmemory : Reachable memory) (hallowed : call.Allowed memory.map)
      (hrun : call.run memory = .ok (answer, after)) : Reachable after

theorem Reachable.coherent {memory : UnitMemory} (hreachable : memory.Reachable) :
    memory.WellFormed ∧ memory.Coherent := by
  induction hreachable with
  | start hhierarchy stack events => exact hhierarchy.coherent
  | call hmemory hallowed hrun ih =>
    obtain ⟨answer, after, hcall, hserves⟩ := UnitCall.run_serves ih.1 hallowed
    obtain ⟨rfl, rfl⟩ := Prod.mk.inj (Except.ok.inj (hcall.symm.trans hrun))
    exact ⟨hserves.wellFormed, hserves.coherent ih.2⟩

/-- The answers to calls made one after the other. -/
def answers : List UnitCall → UnitMemory → Except Violation (List UnitAnswer)
  | [], _ => pure []
  | call :: rest, memory => do
    let (answer, memory) ← call.run memory
    let later ← answers rest memory
    pure (answer :: later)

end UnitMemory

/-- The answers of the flat view to calls made one after the other. -/
def UnitWords.answers : List UnitCall → UnitWords → List UnitAnswer
  | [], _ => []
  | call :: rest, words =>
    let (answer, words) := call.onWords words
    answer :: UnitWords.answers rest words

namespace UnitMemory

/-- Whatever is asked of a coherent memory, the flat view answers the same. -/
theorem answers_eq {memory : UnitMemory} (hformed : memory.WellFormed)
    (hcoherent : memory.Coherent) (calls : List UnitCall)
    (hallowed : ∀ call ∈ calls, call.Allowed memory.map) :
    memory.answers calls = .ok (memory.words.answers calls) := by
  induction calls generalizing memory with
  | nil => rfl
  | cons call rest ih =>
    obtain ⟨answer, after, hrun, hserves⟩ :=
      UnitCall.run_serves hformed (hallowed call List.mem_cons_self)
    have hrest : ∀ later ∈ rest, later.Allowed after.map := by
      intro later hlater
      rw [hserves.map_eq]
      exact hallowed later (List.mem_cons_of_mem call hlater)
    have hanswers := ih hserves.wellFormed (hserves.coherent hcoherent) hrest
    simp only [answers, UnitWords.answers, hrun, bind, Except.bind, hanswers,
      hserves.value_eq hcoherent, hserves.words_eq hcoherent]
    rfl

end UnitMemory

end A64Machine
