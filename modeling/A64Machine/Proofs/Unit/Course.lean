import A64Machine.Execution.Run
import A64Machine.Proofs.Execution.Silence
import A64Machine.Unit.Lifecycle

/-!
The course of one program on a unit that has no other: what the program itself determines, apart
from the ticket that shows it.  Both ways of executing a program, to its end or step by step, follow
the same course and differ in the ticket alone.
-/

namespace A64Machine

/-- The machine with which a program begins: the stack is clear and the image is loaded. -/
def Machine.start (program : Program) (memory : UnitMemory) : Except Violation Machine := do
  let memory ← memory.resetStack
  let (loaded, memory) := memory.loadImage program.words.toList
  loaded
  pure ⟨ExecutionUnit.startRegisters program memory.map, memory⟩

/-- A program in execution, with the memory and the counters of its unit. -/
structure Course where
  execution : Execution
  memory : UnitMemory
  diagnostics : Diagnostics

/-- A unit that has nothing to do and was not stopped. -/
structure ExecutionUnit.Idle (unit : ExecutionUnit) : Prop where
  current : unit.worker.current = none
  queue : unit.worker.queue = []
  stopRequested : unit.worker.stopRequested = false
  status : unit.worker.status = .idle

namespace Course

def frame (course : Course) : Frame :=
  .capture course.execution.regs course.execution.retired course.memory.stack.words

/-- Whether the program has left its image. -/
def Leaves (course : Course) : Prop :=
  course.execution.regs.pc = programExit ∨
    course.execution.program.endAddress ≤ course.execution.regs.pc.toNat

instance (course : Course) : Decidable course.Leaves :=
  inferInstanceAs (Decidable (_ ∨ _))

def recordFault (course : Course) (index : Nat) (cause : FaultCode) (pc : Doubleword) : Course :=
  { course with
    memory :=
      { course.memory with events := course.memory.events.push (.fault index pc cause) }
    diagnostics := course.diagnostics.recordFault cause pc }

/-- One instruction of a course on the unit with the given index, with the fault that it raises. -/
def next (index : Nat) (course : Course) : Except Violation (Option FaultCode × Course) := do
  let { execution, memory, diagnostics } := course
  let (outcome, regs, memory) ← step execution.regs memory
  match outcome with
  | .retired pc word group mnemonic =>
    let events := (memory.events.push (.fetch index pc word)).push (.retire index pc mnemonic)
    pure (none,
      { execution := { execution with regs, retired := execution.retired + 1 }
        memory := { memory with events }
        diagnostics := diagnostics.recordRetired group })
  | .faulted pc word cause =>
    let events := match word with
      | some word => memory.events.push (.fetch index pc word)
      | none => memory.events
    let faulted : Course :=
      { execution := { execution with regs }, memory := { memory with events }, diagnostics }
    pure (some cause, faulted.recordFault index cause pc)

/-- The unit that is in the middle of a course.  The program was submitted to `base`, and its ticket
is the last one. -/
def unit (base : Worker) (ticket : Ticket) (course : Course) : ExecutionUnit where
  worker :=
    { base with
      status := .running
      current := some course.execution
      queue := []
      tickets := base.tickets.push ticket
      diagnostics := course.diagnostics }
  memory := course.memory

def ended (base : Worker) (ticket : Ticket) (course : Course) (fault : Option FaultCode) :
    ExecutionUnit where
  worker :=
    { base with
      status := .idle
      current := none
      queue := []
      tickets := base.tickets.push (ticket.finish course.frame fault fault.isSome)
      diagnostics := course.diagnostics.recordProgram fault.isSome }
  memory :=
    { course.memory with
      events := course.memory.events.push (.programFinished base.index fault.isSome) }

end Course

theorem modify_push_size {α : Type} (values : Array α) (last : α) (f : α → α) :
    (values.push last).modify values.size f = values.push (f last) := by
  apply Array.ext_getElem?
  intro i
  rw [Array.getElem?_modify, Array.getElem?_push, Array.getElem?_push]
  by_cases hlast : i = values.size
  · simp [hlast]
  · simp [hlast, Ne.symm hlast]

namespace Course

variable {base : Worker} {ticket : Ticket} {course : Course}

theorem modifyTicket_unit (hnumber : course.execution.ticket = base.tickets.size)
    (f : Ticket → Ticket) :
    (course.unit base ticket).worker.modifyTicket course.execution.ticket f =
      (course.unit base (f ticket)).worker := by
  rw [hnumber]
  simp only [Worker.modifyTicket, unit, modify_push_size]

theorem finish_unit (course : Course) (hstop : base.stopRequested = false)
    (hnumber : course.execution.ticket = base.tickets.size) (fault : Option FaultCode) :
    (course.unit base ticket).finish course.execution fault fault.isSome =
      course.ended base ticket fault := by
  simp only [ExecutionUnit.finish, unit, ended, hstop, hnumber, Worker.modifyTicket, modify_push_size]
  rfl

theorem tickets_unit :
    (course.unit base ticket).worker.tickets[base.tickets.size]? = some ticket := by
  simp only [unit, Array.getElem?_push_size]

theorem tickets_ended (fault : Option FaultCode) :
    (course.ended base ticket fault).worker.tickets[base.tickets.size]? =
      some (ticket.finish course.frame fault fault.isSome) := by
  simp only [ended, Array.getElem?_push_size]

theorem canStep_ended (fault : Option FaultCode) :
    (course.ended base ticket fault).worker.ticketIs base.tickets.size (·.canStep) = false := by
  rw [Worker.ticketIs, tickets_ended]
  simp [Ticket.canStep, Ticket.finish]

theorem ticketIs_unit (hnumber : course.execution.ticket = base.tickets.size) (p : Ticket → Bool) :
    (course.unit base ticket).worker.ticketIs course.execution.ticket p = p ticket := by
  rw [hnumber]
  simp [Worker.ticketIs, unit]

def advanced (base : Worker) (ticket : Ticket) (course : Course) :
    Except Violation ExecutionUnit := do
  let (fault, after) ← course.next base.index
  match fault with
  | none => pure (after.unit base ticket)
  | some cause => pure (after.ended base ticket (some cause))

theorem advance_unit (hstop : base.stopRequested = false)
    (hnumber : course.execution.ticket = base.tickets.size) :
    (course.unit base ticket).advance course.execution = course.advanced base ticket := by
  simp only [ExecutionUnit.advance, advanced, next, unit]
  cases step course.execution.regs course.memory with
  | error violation => rfl
  | ok result =>
    obtain ⟨outcome, regs, memory⟩ := result
    cases outcome with
    | retired pc word group mnemonic => rfl
    | faulted pc word cause =>
      let events := match word with
        | some word => memory.events.push (.fetch base.index pc word)
        | none => memory.events
      let faulted : Course :=
        { execution := { course.execution with regs }
          memory := { memory with events }
          diagnostics := course.diagnostics }
      have hfinish : ((faulted.recordFault base.index cause pc).unit base ticket).finish
          (faulted.recordFault base.index cause pc).execution (some cause) true =
          (faulted.recordFault base.index cause pc).ended base ticket (some cause) :=
        finish_unit (faulted.recordFault base.index cause pc) hstop hnumber (some cause)
      exact congrArg Except.ok hfinish

/-- What a unit does at an instruction boundary of a program that nobody has let go. -/
theorem tick_unit (hstop : base.stopRequested = false)
    (hnumber : course.execution.ticket = base.tickets.size) (hheld : ticket.abandoned = false) :
    (course.unit base ticket).tick =
      if course.Leaves then .ok (course.ended base ticket none)
      else if ticket.mode = .run then course.advanced base ticket
      else if ticket.pendingSteps = 0 then .ok (course.unit base (ticket.park course.frame))
      else course.advanced base ticket.takeStep := by
  have hstop' : (course.unit base ticket).worker.stopRequested = false := hstop
  have htick : (course.unit base ticket).tick =
      (course.unit base ticket).atBoundary course.execution := rfl
  rw [htick]
  simp only [ExecutionUnit.atBoundary, hstop', ticketIs_unit hnumber, hheld,
    modifyTicket_unit hnumber, Bool.false_eq_true, if_false]
  have hend : (course.unit base ticket).finish course.execution none false =
      course.ended base ticket none := finish_unit course hstop hnumber none
  have hrun : (course.unit base ticket).advance course.execution = course.advanced base ticket :=
    advance_unit hstop hnumber
  have hgranted : ExecutionUnit.advance
      { worker := (course.unit base ticket.takeStep).worker
        memory := (course.unit base ticket).memory } course.execution =
      course.advanced base ticket.takeStep := advance_unit hstop hnumber
  rw [hend, hrun, hgranted]
  simp only [beq_iff_eq]
  rfl

theorem isSettled_unit (hstop : base.stopRequested = false)
    (hnumber : course.execution.ticket = base.tickets.size) :
    (course.unit base ticket).worker.isSettled =
      (ticket.parked && ticket.pendingSteps == 0 && !ticket.abandoned) := by
  have hstop' : (course.unit base ticket).worker.stopRequested = false := hstop
  have hcurrent : (course.unit base ticket).worker.current = some course.execution := rfl
  simp only [Worker.isSettled, hcurrent, hstop', ticketIs_unit hnumber, Bool.not_false,
    Bool.true_and]

theorem isSettled_ended (fault : Option FaultCode) :
    (course.ended base ticket fault).worker.isSettled = true := rfl

/-- An instruction of a course is a step of its registers and its memory, apart from the events. -/
theorem next_eq_ok {index : Nat} {fault : Option FaultCode} {after : Course}
    (hnext : course.next index = .ok (fault, after)) :
    after.execution.ticket = course.execution.ticket ∧
      after.execution.retired = course.execution.retired + (if fault.isSome then 0 else 1) ∧
      ∃ outcome memory, step course.execution.regs course.memory =
        .ok (outcome, after.execution.regs, memory) ∧ memory.silent = after.memory.silent := by
  unfold next at hnext
  simp only at hnext
  cases hstep : step course.execution.regs course.memory with
  | error violation =>
    rw [hstep] at hnext
    contradiction
  | ok result =>
    obtain ⟨outcome, regs, memory⟩ := result
    rw [hstep] at hnext
    cases outcome with
    | retired pc word group mnemonic =>
      obtain ⟨rfl, rfl⟩ := Prod.mk.inj (Except.ok.inj hnext)
      exact ⟨rfl, rfl, _, _, rfl, rfl⟩
    | faulted pc word cause =>
      obtain ⟨rfl, rfl⟩ := Prod.mk.inj (Except.ok.inj hnext)
      exact ⟨rfl, rfl, _, _, rfl, rfl⟩

/-- A course keeps its ticket. -/
theorem ticket_of_next {index : Nat} {fault : Option FaultCode} {after : Course}
    (hnext : course.next index = .ok (fault, after)) :
    after.execution.ticket = course.execution.ticket :=
  (next_eq_ok hnext).1

theorem retired_of_retires {index : Nat} {after : Course}
    (hnext : course.next index = .ok (none, after)) :
    after.execution.retired = course.execution.retired + 1 :=
  (next_eq_ok hnext).2.1

theorem retired_of_faults {index : Nat} {cause : FaultCode} {after : Course}
    (hnext : course.next index = .ok (some cause, after)) :
    after.execution.retired = course.execution.retired :=
  (next_eq_ok hnext).2.1

theorem advanced_eq_ok {unit : ExecutionUnit} (hunit : course.advanced base ticket = .ok unit) :
    (∃ after, course.next base.index = .ok (none, after) ∧ unit = after.unit base ticket) ∨
      ∃ cause after, course.next base.index = .ok (some cause, after) ∧
        unit = after.ended base ticket (some cause) := by
  unfold advanced at hunit
  cases hnext : course.next base.index with
  | error violation =>
    rw [hnext] at hunit
    contradiction
  | ok result =>
    obtain ⟨fault, after⟩ := result
    rw [hnext] at hunit
    cases fault with
    | none => exact .inl ⟨after, rfl, (Except.ok.inj hunit).symm⟩
    | some cause => exact .inr ⟨cause, after, rfl, (Except.ok.inj hunit).symm⟩

/-- How a program begins, with its fault when its image does not fit. -/
def enter (base : Worker) (program : Program) (memory : UnitMemory) :
    Except Violation (Option FaultCode × Course) :=
  let ticket := base.tickets.size
  let diagnostics := base.diagnostics
  let memory := { memory with
    events := memory.events.push (.programStarted base.index program.entry) }
  if memory.hierarchy.size < program.length then
    let rejected : Course := ⟨{ program, ticket, regs := {}, retired := 0 }, memory, diagnostics⟩
    let entry := BitVec.ofNat 64 (program.entry * wordBytes)
    pure (some .dataAbort, rejected.recordFault base.index .dataAbort entry)
  else do
    let machine ← Machine.start program memory
    pure (none, ⟨{ program, ticket, regs := machine.regs, retired := 0 }, machine.memory, diagnostics⟩)

end Course

namespace ExecutionUnit

theorem settle_of_isSettled {unit : ExecutionUnit} (hsettled : unit.worker.isSettled = true)
    (fuel : Nat) : settle fuel unit = .ok unit := by
  cases fuel with
  | zero => rfl
  | succ fuel => exact if_pos hsettled

theorem settle_ended (base : Worker) (ticket : Ticket) (course : Course)
    (fault : Option FaultCode) (fuel : Nat) :
    settle fuel (course.ended base ticket fault) = .ok (course.ended base ticket fault) :=
  settle_of_isSettled (Course.isSettled_ended fault) fuel

theorem settle_succ {unit : ExecutionUnit} (hopen : unit.worker.isSettled = false) (fuel : Nat) :
    settle (fuel + 1) unit = unit.tick >>= settle fuel := by
  rw [settle, hopen, if_neg Bool.false_ne_true]

end ExecutionUnit

def ExecutionUnit.submitted (unit : ExecutionUnit) (program : Program) (mode : RunMode) :
    ExecutionUnit :=
  { unit with worker := unit.worker.submit program mode }

theorem ExecutionUnit.Idle.submit_eq {unit : ExecutionUnit} (hidle : unit.Idle)
    (program : Program) (mode : RunMode) :
    unit.worker.submit program mode =
      { unit.worker with
        tickets := unit.worker.tickets.push { mode }
        queue := [{ program, ticket := unit.worker.tickets.size }] } := by
  have haccepts : unit.worker.status.acceptsPrograms = true := by
    rw [hidle.status]
    rfl
  rw [Worker.submit, if_pos haccepts, hidle.queue]
  rfl

/-- The first move of an idle unit after a program was submitted. -/
theorem ExecutionUnit.Idle.tick_submitted {unit : ExecutionUnit} (hidle : unit.Idle)
    (program : Program) (mode : RunMode) :
    (unit.submitted program mode).tick = (do
      let (fault, course) ← Course.enter unit.worker program unit.memory
      match fault with
      | some cause => pure (course.ended unit.worker { mode } (some cause))
      | none => pure (course.unit unit.worker (Ticket.begin { mode } course.frame))) := by
  obtain ⟨worker, memory⟩ := unit
  obtain ⟨index, status, stopRequested, current, queue, tickets, diagnostics⟩ := worker
  obtain ⟨hcurrent, hqueue, hstop, hstatus⟩ := hidle
  simp only at hcurrent hqueue hstop hstatus
  subst hcurrent hqueue hstop hstatus
  simp only [submitted, Worker.submit, UnitStatus.acceptsPrograms, if_true, List.nil_append, tick,
    next, Bool.false_eq_true, if_false, start, Course.enter, report]
  split
  · let memory := { memory with
      events := memory.events.push (.programStarted index program.entry) }
    let rejected : Course :=
      ⟨{ program, ticket := tickets.size, regs := {}, retired := 0 }, memory, diagnostics⟩
    let base : Worker := { index, tickets, diagnostics }
    let last := rejected.recordFault index .dataAbort (BitVec.ofNat 64 (program.entry * wordBytes))
    have hfinish : (last.unit base { mode }).finish last.execution (some .dataAbort) true =
        last.ended base { mode } (some .dataAbort) :=
      Course.finish_unit last rfl rfl (some .dataAbort)
    exact congrArg Except.ok hfinish
  · simp only [Machine.start, bind_assoc]
    refine bind_congr fun cleared => bind_congr fun _ => ?_
    simp only [Worker.modifyTicket, modify_push_size]
    rfl

end A64Machine
