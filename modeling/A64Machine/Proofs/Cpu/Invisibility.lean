import A64Machine.Proofs.Cpu.FirstUnit
import A64Machine.Proofs.Unit.History
import A64Machine.Proofs.Unit.Lockstep

/-!
The sizes of the caches cannot be seen.  Two CPUs that differ in nothing else, asked for the same
things in the same order, show the same of their first unit and of RAM after each request, however
many moves the unit gets to make in between.
-/

namespace A64Machine

/-- What a request is answered with. -/
inductive UnitReply where
  | submitted (ticket : Option Nat)
  | stepped (answer : Option (Option (Except StepError Frame)))
  | done

/-- What can be seen of the first unit and of RAM: the worker with its tickets, the words of the
stack and of RAM, and what was reported about programs. -/
structure CpuView where
  worker : Option Worker
  stack : Option (Array Word)
  ram : Array Word
  events : List Event

namespace Cpu

def view (cpu : Cpu) : CpuView where
  worker := (cpu.core? 0 0).map (·.worker)
  stack := (cpu.core? 0 0).map (·.stack.words)
  ram := (cpu.hierarchy.memory cpu.ram).ramWords
  events := cpu.programEvents

/-- Makes a request; the unit makes at most `fuel` moves before the answer. -/
def request (cpu : Cpu) (fuel : Nat) : UnitRequest → Except Violation (UnitReply × Cpu)
  | .submit program mode => do
    let (ticket, cpu) ← cpu.submit fuel 0 0 program mode
    pure (.submitted ticket, cpu)
  | .step ticket => do
    let (answer, cpu) ← cpu.stepTicket fuel 0 0 ticket
    pure (.stepped answer, cpu)
  | .drop ticket => do
    let (_, cpu) ← cpu.dropTicket fuel 0 0 ticket
    pure (.done, cpu)
  | .stop => do
    let cpu ← cpu.stopUnit fuel 0 0
    pure (.done, cpu)

/-- Makes requests in order, each with a number of moves.  For each there is the answer and what can
be seen after it.  To drop a ticket that does not exist changes nothing, so a unit can be watched
from one move to the next. -/
def watch : List (Nat × UnitRequest) → Cpu → Except Violation (List (UnitReply × CpuView))
  | [], _ => pure []
  | (fuel, request) :: rest, cpu => do
    let (reply, cpu) ← cpu.request fuel request
    let later ← watch rest cpu
    pure ((reply, cpu.view) :: later)

theorem FirstUnit.view_eq {cpu : Cpu} {unit : ExecutionUnit} (hfirst : cpu.FirstUnit unit) :
    cpu.view = ⟨some unit.worker, some unit.memory.stack.words, unit.memory.words.ram,
      unit.memory.programEvents⟩ := by
  rw [view, hfirst.core_eq, hfirst.ramWords_eq, programEvents, ← hfirst.events_eq]
  rfl

/-- Two CPUs whose first units differ in nothing that a program can see. -/
def Alike (first second : Cpu) : Prop :=
  ∃ unit unit', first.FirstUnit unit ∧ second.FirstUnit unit' ∧ unit.Alike 3 unit'

variable {first second : Cpu}

theorem Alike.view_eq (halike : first.Alike second) : first.view = second.view := by
  obtain ⟨unit, unit', hfirst, hsecond, hunits⟩ := halike
  rw [hfirst.view_eq, hsecond.view_eq, hunits.worker_eq, hunits.memory.stack_eq,
    hunits.memory.words_eq, hunits.memory.events_eq]

/-- A call that is answered by alike units in the same way is answered so by their CPUs. -/
theorem Alike.onUnit (halike : first.Alike second) {α : Type}
    {call : ExecutionUnit → Except Violation (α × ExecutionUnit)}
    (hcall : ∀ unit unit', ExecutionUnit.Alike 3 unit unit' →
      BothOk (fun answered answered' =>
        answered.1 = answered'.1 ∧ answered.2.Alike 3 answered'.2) (call unit) (call unit')) :
    BothOk (fun answered answered' => answered.1 = answered'.1 ∧ answered.2.Alike answered'.2)
      (first.onUnit 0 0 call) (second.onUnit 0 0 call) := by
  obtain ⟨unit, unit', hfirst, hsecond, hunits⟩ := halike
  rw [hfirst.onUnit_eq, hsecond.onUnit_eq]
  refine (hcall unit unit' hunits).bind fun ⟨value, after⟩ ⟨value', after'⟩ ⟨hvalue, hafter⟩ => ?_
  obtain rfl : value = value' := hvalue
  exact .pure ⟨rfl, after, after', hfirst.withFirst hafter.memory.depth_eq.1,
    hsecond.withFirst hafter.memory.depth_eq.2, hafter⟩

/-- A change of the worker, after which the unit is left to itself. -/
theorem Alike.onUnit_settle (halike : first.Alike second) (fuel : Nat) {α : Type}
    (change : Worker → Worker) (answer : Worker → α) :
    BothOk (fun answered answered' => answered.1 = answered'.1 ∧ answered.2.Alike answered'.2)
      (first.onUnit 0 0 fun unit => do
        let settled ← ExecutionUnit.settle fuel { unit with worker := change unit.worker }
        pure (answer unit.worker, settled))
      (second.onUnit 0 0 fun unit => do
        let settled ← ExecutionUnit.settle fuel { unit with worker := change unit.worker }
        pure (answer unit.worker, settled)) := by
  refine halike.onUnit fun unit unit' hunits => ?_
  rw [← hunits.worker_eq]
  exact ((hunits.withWorker _).settle fuel).bind fun _ _ hsettled => .pure ⟨rfl, hsettled⟩

/-- A request is answered in the same way, and what can be seen stays the same. -/
theorem Alike.request (halike : first.Alike second) (fuel : Nat) (request : UnitRequest) :
    BothOk (fun answered answered' => answered.1 = answered'.1 ∧ answered.2.Alike answered'.2)
      (first.request fuel request) (second.request fuel request) := by
  cases request with
  | submit program mode =>
    have hsubmit := halike.onUnit_settle fuel (·.submit program mode) (·.tickets.size)
    refine hsubmit.bind fun ⟨ticket, after⟩ ⟨ticket', after'⟩ ⟨hticket, hafter⟩ => ?_
    exact .pure ⟨congrArg UnitReply.submitted hticket, hafter⟩
  | step ticket =>
    have hstep := halike.onUnit fun _ _ hunits => hunits.stepTicket fuel ticket
    refine hstep.bind fun ⟨answer, after⟩ ⟨answer', after'⟩ ⟨hanswer, hafter⟩ => ?_
    exact .pure ⟨congrArg UnitReply.stepped hanswer, hafter⟩
  | drop ticket =>
    have hdrop := halike.onUnit_settle fuel (·.drop ticket) fun _ => ()
    exact hdrop.bind fun _ _ hdropped => .pure ⟨rfl, hdropped.2⟩
  | stop =>
    have hstop := halike.onUnit_settle fuel (·.stop) fun _ => ()
    exact (hstop.bind fun _ _ hstopped => .pure hstopped.2).bind fun _ _ hafter =>
      .pure ⟨rfl, hafter⟩

/-- Requests made one after the other. -/
theorem Alike.watch (halike : first.Alike second) (requests : List (Nat × UnitRequest)) :
    ∃ views, first.watch requests = .ok views ∧ second.watch requests = .ok views := by
  induction requests generalizing first second with
  | nil => exact ⟨[], rfl, rfl⟩
  | cons head rest ih =>
    obtain ⟨fuel, request⟩ := head
    obtain ⟨⟨reply, after⟩, ⟨reply', after'⟩, hrequest, hrequest', hreply, hafter⟩ :=
      halike.request fuel request
    obtain rfl : reply = reply' := hreply
    obtain ⟨views, hwatch, hwatch'⟩ := ih hafter
    refine ⟨(reply, after.view) :: views, ?_, ?_⟩
    · rw [Cpu.watch, hrequest]
      simp only [bind, Except.bind, hwatch]
      rfl
    · rw [Cpu.watch, hrequest', hafter.view_eq]
      simp only [bind, Except.bind, hwatch']
      rfl

/-- Nothing that a program computes, and nothing that is published about it, depends on the sizes of
the caches. -/
theorem caches_invisible {config : CpuConfig} {l1Size l2Size l3Size : UInt64} {cpu cpu' : Cpu}
    (hbuild : build config = .ok cpu)
    (hbuild' : build { config with l1Size, l2Size, l3Size } = .ok cpu')
    (requests : List (Nat × UnitRequest)) :
    ∃ views, cpu.watch requests = .ok views ∧ cpu'.watch requests = .ok views := by
  obtain ⟨unit, hfirst, hworker, hformed, hcoherent, hwords, hevents⟩ := firstUnit_of_build hbuild
  obtain ⟨unit', hfirst', hworker', hformed', hcoherent', hwords', hevents'⟩ :=
    firstUnit_of_build hbuild'
  refine Alike.watch ⟨unit, unit', hfirst, hfirst', hworker.trans hworker'.symm, ?_⟩ requests
  exact {
    wellFormed := ⟨hformed, hformed'⟩
    coherent := ⟨hcoherent, hcoherent'⟩
    depth_eq := ⟨hfirst.depth_eq, hfirst'.depth_eq⟩
    words_eq := hwords.trans hwords'.symm
    events_eq := hevents.trans hevents'.symm }

/-- Caches of one line each, and caches as large as RAM: a program runs, a second one is stepped
while a third one waits, and the unit is stopped. -/
theorem caches_invisible_smallest_largest :
    let small : CpuConfig :=
      { cores := 1, l1Size := 64, l2Size := 64, l3Size := 64, ramSize := 192, stackSize := 16 }
    let large : CpuConfig := { small with l1Size := 128, l2Size := 192, l3Size := 192 }
    let requests : List (Nat × UnitRequest) :=
      [(100, .submit .countdownSum .run), (10, .submit .countdownSum .step), (3, .step 1),
        (1, .submit .countdownSum .run), (1, .drop 1), (50, .stop)]
    ∃ cpu cpu', build small = .ok cpu ∧ build large = .ok cpu' ∧
      ∃ views, cpu.watch requests = .ok views ∧ cpu'.watch requests = .ok views := by
  intro small large requests
  have hsmall : (build small).isOk = true := by decide +kernel
  have hlarge : (build large).isOk = true := by decide +kernel
  obtain ⟨cpu, hbuild⟩ := exists_of_isOk hsmall
  obtain ⟨cpu', hbuild'⟩ := exists_of_isOk hlarge
  exact ⟨cpu, cpu', hbuild, hbuild', caches_invisible hbuild hbuild' requests⟩

end Cpu

end A64Machine
