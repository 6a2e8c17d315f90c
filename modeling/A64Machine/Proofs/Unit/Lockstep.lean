import A64Machine.Proofs.Execution.FlatMachine
import A64Machine.Proofs.Execution.Footprint
import A64Machine.Unit.Lifecycle

/-!
Two units in lockstep.  Units with the same worker and the same words, whatever their caches hold
and however large they are, make the same moves: each move is a function of the worker and of the
words alone, and it leaves the two units with the same worker and the same words again.
-/

namespace A64Machine

/-- Both calls succeed, and their results are in a relation. -/
def BothOk {α β : Type} (relation : α → β → Prop) (first : Except Violation α)
    (second : Except Violation β) : Prop :=
  ∃ a b, first = .ok a ∧ second = .ok b ∧ relation a b

namespace BothOk

variable {α β γ δ : Type} {before : α → β → Prop} {after : γ → δ → Prop}

theorem pure {a : α} {b : β} (hbefore : before a b) :
    BothOk before (Pure.pure a) (Pure.pure b) :=
  ⟨a, b, rfl, rfl, hbefore⟩

theorem bind {first : Except Violation α} {second : Except Violation β}
    {next : α → Except Violation γ} {later : β → Except Violation δ}
    (hboth : BothOk before first second)
    (hnext : ∀ a b, before a b → BothOk after (next a) (later b)) :
    BothOk after (first >>= next) (second >>= later) := by
  obtain ⟨a, b, rfl, rfl, hbefore⟩ := hboth
  exact hnext a b hbefore

end BothOk

namespace UnitMemory

/-- Two memories of units that differ in nothing that a program can see.  In each of them `depth`
caches stand in front of the RAM and agree with it. -/
structure Alike (depth : Nat) (first second : UnitMemory) : Prop where
  wellFormed : first.WellFormed ∧ second.WellFormed
  coherent : first.Coherent ∧ second.Coherent
  depth_eq : first.hierarchy.depth = depth ∧ second.hierarchy.depth = depth
  words_eq : first.words = second.words
  events_eq : first.programEvents = second.programEvents

variable {depth : Nat} {first second after after' : UnitMemory}

theorem Alike.map_eq (halike : first.Alike depth second) : first.map = second.map := by
  rw [← map_words, ← map_words, halike.words_eq]

theorem Alike.size_eq (halike : first.Alike depth second) :
    first.hierarchy.size = second.hierarchy.size :=
  congrArg AddressMap.hierarchyWords halike.map_eq

theorem Alike.stack_eq (halike : first.Alike depth second) :
    first.stack.words = second.stack.words :=
  congrArg UnitWords.stack halike.words_eq

/-- Accesses that are served in the same way by words that are the same. -/
theorem Alike.of_serves {α : Type} {answer answer' value : α} {words : UnitWords}
    (halike : first.Alike depth second) (hserves : first.Serves answer after value words)
    (hserves' : second.Serves answer' after' value words) (haccessed : first.Accessed after)
    (haccessed' : second.Accessed after') : answer = answer' ∧ after.Alike depth after' := by
  obtain ⟨hcoherent, hcoherent'⟩ := halike.coherent
  refine ⟨(hserves.value_eq hcoherent).trans (hserves'.value_eq hcoherent').symm, ?_⟩
  exact {
    wellFormed := ⟨hserves.wellFormed, hserves'.wellFormed⟩
    coherent := ⟨hserves.coherent hcoherent, hserves'.coherent hcoherent'⟩
    depth_eq := ⟨haccessed.depth_eq.trans halike.depth_eq.1,
      haccessed'.depth_eq.trans halike.depth_eq.2⟩
    words_eq := (hserves.words_eq hcoherent).trans (hserves'.words_eq hcoherent').symm
    events_eq := haccessed.events_eq.trans (halike.events_eq.trans haccessed'.events_eq.symm) }

/-- A step ends in the same way and with the same registers. -/
theorem Alike.step (halike : first.Alike depth second) (regs : RegisterFile) :
    BothOk (fun ended ended' =>
      ended.1 = ended'.1 ∧ ended.2.1 = ended'.2.1 ∧ ended.2.2.Alike depth ended'.2.2)
      (step regs first) (step regs second) := by
  obtain ⟨outcome, regs', after, hstep, hserves⟩ := step_serves regs halike.wellFormed.1
  obtain ⟨outcome', regs'', after', hstep', hserves'⟩ := step_serves regs halike.wellFormed.2
  rw [← halike.words_eq] at hserves'
  obtain ⟨hsame, hafter⟩ :=
    halike.of_serves hserves hserves' (step_accessed hstep) (step_accessed hstep')
  obtain ⟨houtcome, hregs⟩ := Prod.mk.inj hsame
  exact ⟨_, _, hstep, hstep', houtcome, hregs, hafter⟩

theorem Alike.resetStack (halike : first.Alike depth second) :
    BothOk (fun after after' => after.Alike depth after' ∧ after.map = first.map)
      first.resetStack second.resetStack := by
  obtain ⟨after, hreset, hserves⟩ := resetStack_serves halike.wellFormed.1
  obtain ⟨after', hreset', hserves'⟩ := resetStack_serves halike.wellFormed.2
  rw [← halike.words_eq] at hserves'
  exact ⟨after, after', hreset, hreset', (halike.of_serves hserves hserves'
    (resetStack_accessed hreset) (resetStack_accessed hreset')).2, hserves.map_eq⟩

theorem Alike.loadImage (halike : first.Alike depth second) {image : List Word}
    (hfits : image.length ≤ first.hierarchy.size) :
    ∃ after after', first.loadImage image = (.ok (), after) ∧
      second.loadImage image = (.ok (), after') ∧ after.Alike depth after' := by
  obtain ⟨after, hload, hserves⟩ := loadImage_serves halike.wellFormed.1 hfits
  rw [halike.size_eq] at hfits
  obtain ⟨after', hload', hserves'⟩ := loadImage_serves halike.wellFormed.2 hfits
  rw [← halike.words_eq] at hserves'
  exact ⟨after, after', hload, hload', (halike.of_serves hserves hserves'
    (loadImage_accessed hload) (loadImage_accessed hload')).2⟩

/-- The same events are added to both. -/
theorem Alike.push (halike : first.Alike depth second) (event : Event) :
    Alike depth { first with events := first.events.push event }
      { second with events := second.events.push event } where
  wellFormed := halike.wellFormed
  coherent := halike.coherent
  depth_eq := halike.depth_eq
  words_eq := halike.words_eq
  events_eq := by
    have hevents := halike.events_eq
    unfold programEvents at hevents ⊢
    rw [Array.toList_push, Array.toList_push, List.filter_append, List.filter_append, hevents]

end UnitMemory

namespace ExecutionUnit

/-- Two units that differ in nothing that a program can see. -/
structure Alike (depth : Nat) (first second : ExecutionUnit) : Prop where
  worker_eq : first.worker = second.worker
  memory : first.memory.Alike depth second.memory

variable {depth : Nat} {first second : ExecutionUnit}

theorem Alike.withWorker (halike : first.Alike depth second) (worker : Worker) :
    Alike depth { first with worker } { second with worker } :=
  ⟨rfl, halike.memory⟩

theorem Alike.report (halike : first.Alike depth second) (event : Event) :
    (first.report event).Alike depth (second.report event) :=
  ⟨halike.worker_eq, halike.memory.push event⟩

theorem Alike.recordFault (halike : first.Alike depth second) (cause : FaultCode)
    (pc : Doubleword) : (first.recordFault cause pc).Alike depth (second.recordFault cause pc) := by
  obtain ⟨worker, memory⟩ := first
  obtain ⟨worker', memory'⟩ := second
  obtain rfl : worker = worker' := halike.worker_eq
  exact ⟨rfl, halike.memory.push _⟩

theorem Alike.frame (halike : first.Alike depth second) (regs : RegisterFile) (retired : Nat) :
    first.frame regs retired = second.frame regs retired :=
  congrArg (Frame.capture regs retired) halike.memory.stack_eq

theorem Alike.finish (halike : first.Alike depth second) (execution : Execution)
    (fault : Option FaultCode) (interrupted : Bool) :
    (first.finish execution fault interrupted).Alike depth
      (second.finish execution fault interrupted) := by
  have hframe := halike.frame execution.regs execution.retired
  unfold ExecutionUnit.finish
  rw [hframe, halike.worker_eq]
  exact (halike.withWorker _).report _

/-- Two units with the worker of the first. -/
theorem Alike.exists_worker (halike : first.Alike depth second) :
    ∃ worker memory memory', first = ⟨worker, memory⟩ ∧ second = ⟨worker, memory'⟩ ∧
      memory.Alike depth memory' := by
  obtain ⟨worker, memory⟩ := first
  obtain ⟨worker', memory'⟩ := second
  obtain rfl : worker = worker' := halike.worker_eq
  exact ⟨worker, memory, memory', rfl, rfl, halike.memory⟩

/-- A program begins in the same way: whether its image fits is a matter of the size of RAM. -/
theorem Alike.start (halike : first.Alike depth second) (job : Job) :
    BothOk (Alike depth) (first.start job) (second.start job) := by
  obtain ⟨worker, memory, memory', rfl, rfl, hmemory⟩ := halike.exists_worker
  obtain ⟨program, ticket⟩ := job
  have hstarted := ((halike.report (.programStarted worker.index program.entry)).withWorker
    { worker with status := .running })
  -- An image is measured against RAM, never against a cache, and RAM is as large for both.
  have hsize := hmemory.size_eq
  unfold ExecutionUnit.start
  by_cases hrejected : memory.hierarchy.size < program.length
  · have hrejected' : memory'.hierarchy.size < program.length := by rwa [← hsize]
    simp only [ExecutionUnit.report, hrejected, hrejected', if_true]
    exact .pure ((hstarted.recordFault _ _).finish _ _ _)
  · have hfits' : ¬memory'.hierarchy.size < program.length := by rwa [← hsize]
    simp only [ExecutionUnit.report, hrejected, hfits', if_false]
    refine hstarted.memory.resetStack.bind fun cleared cleared' ⟨hcleared, hmap⟩ => ?_
    have hfits : program.words.toList.length ≤ cleared.hierarchy.size := by
      have hsame : cleared.hierarchy.size = memory.hierarchy.size :=
        congrArg AddressMap.hierarchyWords hmap
      rw [Array.length_toList, hsame]
      exact Nat.le_of_not_lt hrejected
    obtain ⟨loaded, loaded', hload, hload', hloaded⟩ := hcleared.loadImage hfits
    simp only [hload, hload', ← hloaded.map_eq, ← hloaded.stack_eq]
    exact .pure ⟨rfl, hloaded⟩

/-- The next program of the queue. -/
theorem Alike.next (halike : first.Alike depth second) (job : Job) (rest : List Job) :
    BothOk (Alike depth) (first.next job rest) (second.next job rest) := by
  obtain ⟨worker, memory, memory', rfl, rfl, hmemory⟩ := halike.exists_worker
  simp only [ExecutionUnit.next]
  split
  · exact .pure ⟨rfl, hmemory⟩
  · exact (halike.withWorker { worker with queue := rest }).start job

/-- One instruction of a program. -/
theorem Alike.advance (halike : first.Alike depth second) (execution : Execution) :
    BothOk (Alike depth) (first.advance execution) (second.advance execution) := by
  obtain ⟨worker, memory, memory', rfl, rfl, hmemory⟩ := halike.exists_worker
  obtain ⟨program, ticket, regs, retired⟩ := execution
  refine (hmemory.step regs).bind fun ended ended' hended => ?_
  obtain ⟨outcome, regs, after⟩ := ended
  obtain ⟨outcome', regs', after'⟩ := ended'
  obtain ⟨rfl, rfl, hafter⟩ := hended
  cases outcome with
  | retired pc word group mnemonic => exact .pure ⟨rfl, (hafter.push _).push _⟩
  | faulted pc word cause =>
    cases word with
    | none =>
      have hfaulted : Alike depth ⟨worker, after⟩ ⟨worker, after'⟩ := ⟨rfl, hafter⟩
      exact .pure ((hfaulted.recordFault cause pc).finish _ _ _)
    | some word =>
      have hfaulted : Alike depth ⟨worker, after⟩ ⟨worker, after'⟩ := ⟨rfl, hafter⟩
      exact .pure (((hfaulted.report (.fetch worker.index pc word)).recordFault cause pc).finish
        _ _ _)

theorem Alike.atBoundary (halike : first.Alike depth second) (execution : Execution) :
    BothOk (Alike depth) (first.atBoundary execution) (second.atBoundary execution) := by
  obtain ⟨worker, memory, memory', rfl, rfl, hmemory⟩ := halike.exists_worker
  simp only [ExecutionUnit.atBoundary]
  split
  · exact .pure (halike.finish _ _ _)
  split
  · exact .pure (halike.finish _ _ _)
  split
  · exact halike.advance execution
  split
  · exact .pure (halike.finish _ _ _)
  split
  · rw [halike.frame]
    exact .pure ⟨rfl, hmemory⟩
  · exact (halike.withWorker _).advance execution

/-- A move of the first unit is a move of the second one. -/
theorem Alike.tick (halike : first.Alike depth second) :
    BothOk (Alike depth) first.tick second.tick := by
  unfold ExecutionUnit.tick
  rw [← halike.worker_eq]
  split
  · exact halike.atBoundary _
  · exact halike.next _ _
  · exact .pure halike

/-- The moves of two units that are left to themselves. -/
theorem Alike.settle (halike : first.Alike depth second) (fuel : Nat) :
    BothOk (Alike depth) (ExecutionUnit.settle fuel first) (ExecutionUnit.settle fuel second) := by
  -- Whether a unit is settled is a matter of its worker, so both come to rest after the same moves.
  induction fuel generalizing first second with
  | zero => exact .pure halike
  | succ fuel ih =>
    rw [ExecutionUnit.settle, ExecutionUnit.settle, ← halike.worker_eq]
    split
    · exact .pure halike
    · exact halike.tick.bind fun _ _ => ih

/-- A step that is asked for is answered in the same way. -/
theorem Alike.stepTicket (halike : first.Alike depth second) (fuel number : Nat) :
    BothOk (fun answered answered' =>
      answered.1 = answered'.1 ∧ answered.2.Alike depth answered'.2)
      (first.stepTicket fuel number) (second.stepTicket fuel number) := by
  unfold ExecutionUnit.stepTicket
  rw [← halike.worker_eq]
  split
  · exact .pure ⟨rfl, halike⟩
  split
  · exact .pure ⟨rfl, halike⟩
  split
  · exact .pure ⟨rfl, halike⟩
  · refine ((halike.withWorker _).settle fuel).bind fun after after' hafter => ?_
    rw [hafter.worker_eq]
    exact .pure ⟨rfl, hafter⟩

end ExecutionUnit

end A64Machine
