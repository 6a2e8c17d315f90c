import A64Machine.Proofs.Unit.Driving

/-!
Stepping equals running.  A program that is driven by one granted step after another follows the
course that it follows when it is left to run, shows a frame after every instruction, and leaves the
unit as the run leaves it.
-/

namespace A64Machine

/-- The states that a unit comes to when it moves by itself and steps of one ticket are asked for at
any time. -/
inductive ExecutionUnit.Stepping (start : ExecutionUnit) (number : Nat) : ExecutionUnit → Prop
  | submitted : Stepping start number start
  | moves {unit after : ExecutionUnit} (hunit : Stepping start number unit)
      (htick : unit.tick = .ok after) : Stepping start number after
  | grants {unit : ExecutionUnit} (hunit : Stepping start number unit) :
      Stepping start number { unit with worker := unit.worker.grantStep number }

/-- Where a unit is with a program that is stepped. -/
inductive SteppingPhase (idle : ExecutionUnit) (program : Program) : ExecutionUnit → Prop
  | submitted : SteppingPhase idle program (idle.submitted program .step)
  | underWay {course : Course} (hnumber : course.execution.ticket = idle.worker.tickets.size)
      (state : TicketState) (frame : Frame) :
      SteppingPhase idle program (course.unit idle.worker (.underWay state frame))
  | parked {course : Course} (hnumber : course.execution.ticket = idle.worker.tickets.size)
      (hstays : ¬course.Leaves) :
      SteppingPhase idle program (course.unit idle.worker (.parkedAt course.frame))
  | granted {course : Course} (hnumber : course.execution.ticket = idle.worker.tickets.size)
      (hstays : ¬course.Leaves) :
      SteppingPhase idle program (course.unit idle.worker (.grantedAt course.frame))
  | ended (course : Course) (fault : Option FaultCode) :
      SteppingPhase idle program (course.ended idle.worker { mode := .step } fault)

namespace SteppingPhase

variable {idle unit after : ExecutionUnit} {program : Program}

theorem atRest {course : Course} (hnumber : course.execution.ticket = idle.worker.tickets.size) :
    SteppingPhase idle program (course.atRest idle.worker) := by
  unfold Course.atRest
  split
  · exact ended course none
  next hstays => exact parked hnumber hstays

theorem tick (hidle : idle.Idle) (hunit : SteppingPhase idle program unit)
    (htick : unit.tick = .ok after) : SteppingPhase idle program after := by
  have hstop := hidle.stopRequested
  cases hunit with
  | submitted =>
    rw [hidle.tick_submitted] at htick
    cases henter : Course.enter idle.worker program idle.memory with
    | error violation =>
      rw [henter] at htick
      contradiction
    | ok result =>
      obtain ⟨fault, course⟩ := result
      rw [henter] at htick
      cases fault with
      | none =>
        obtain ⟨-, hnumber, -⟩ := Course.enter_eq_started henter
        obtain rfl := Except.ok.inj htick
        exact underWay hnumber .waiting course.frame
      | some cause =>
        obtain rfl := Except.ok.inj htick
        exact ended course (some cause)
  | underWay hnumber state frame =>
    rw [Course.tick_underWay hstop hnumber] at htick
    obtain rfl := Except.ok.inj htick
    exact atRest hnumber
  | parked hnumber hstays =>
    rw [Course.tick_parkedAt hstop hnumber hstays] at htick
    obtain rfl := Except.ok.inj htick
    exact parked hnumber hstays
  | @granted course hnumber hstays =>
    rw [Course.tick_grantedAt hstop hnumber hstays] at htick
    rcases Course.advanced_eq_ok htick with ⟨next, hnext, rfl⟩ | ⟨cause, next, -, rfl⟩
    · exact underWay ((Course.ticket_of_next hnext).trans hnumber) .stepInMode course.frame
    · exact ended next (some cause)
  | ended course fault =>
    rw [Course.tick_ended] at htick
    obtain rfl := Except.ok.inj htick
    exact ended course fault

theorem grant (hidle : idle.Idle) (hunit : SteppingPhase idle program unit) :
    SteppingPhase idle program
      { unit with worker := unit.worker.grantStep idle.worker.tickets.size } := by
  cases hunit with
  | submitted =>
    have hwaits : (idle.submitted program .step).worker.grantStep idle.worker.tickets.size =
        (idle.submitted program .step).worker := by
      simp only [ExecutionUnit.submitted, hidle.submit_eq, Worker.grantStep, Worker.modifyTicket,
        modify_push_size]
      rfl
    rw [hwaits]
    exact submitted
  | underWay hnumber state frame =>
    rw [Course.grantStep_unit]
    have hbusy : (Ticket.underWay state frame).canStep = false := by
      simp [Ticket.canStep, Ticket.underWay]
    rw [hbusy]
    exact underWay hnumber state frame
  | parked hnumber hstays =>
    rw [Course.grantStep_unit]
    exact granted hnumber hstays
  | granted hnumber hstays =>
    rw [Course.grantStep_unit]
    exact granted hnumber hstays
  | ended course fault =>
    have hover : (course.ended idle.worker { mode := .step } fault).worker.grantStep
        idle.worker.tickets.size = (course.ended idle.worker { mode := .step } fault).worker := by
      simp only [Course.ended, Worker.grantStep, Worker.modifyTicket, modify_push_size]
      cases fault with
      | none => rfl
      | some cause => rfl
    rw [hover]
    exact ended course fault

theorem of_stepping (hidle : idle.Idle)
    (hunit : ExecutionUnit.Stepping (idle.submitted program .step) idle.worker.tickets.size unit) :
    SteppingPhase idle program unit := by
  induction hunit with
  | submitted => exact submitted
  | moves _ htick ih => exact tick hidle ih htick
  | grants _ ih => exact grant hidle ih

/-- A step can be granted exactly when the unit has the program and waits. -/
theorem canStep_iff (hidle : idle.Idle) (hunit : SteppingPhase idle program unit) :
    unit.worker.ticketIs idle.worker.tickets.size (·.canStep) ↔
      unit.worker.current.isSome ∧ unit.tick = .ok unit := by
  have hstop := hidle.stopRequested
  cases hunit with
  | submitted =>
    have hcurrent : (idle.submitted program .step).worker.current = none := by
      rw [ExecutionUnit.submitted, hidle.submit_eq]
      exact hidle.current
    rw [hcurrent]
    simp [ExecutionUnit.submitted, hidle.submit_eq, Worker.ticketIs, Ticket.canStep]
  | @underWay course hnumber state frame =>
    rw [← hnumber, Course.ticketIs_unit hnumber, Course.tick_underWay hstop hnumber]
    constructor
    · intro hcan
      simp [Ticket.canStep, Ticket.underWay] at hcan
    · rintro ⟨-, hstill⟩
      have hrest := Course.isSettled_atRest hstop hnumber
      rw [Except.ok.inj hstill, Course.isSettled_unit hstop hnumber] at hrest
      contradiction
  | @parked course hnumber hstays =>
    rw [← hnumber, Course.ticketIs_unit hnumber]
    constructor
    · intro _
      exact ⟨rfl, Course.tick_parkedAt hstop hnumber hstays⟩
    · intro _
      rfl
  | @granted course hnumber hstays =>
    rw [← hnumber, Course.ticketIs_unit hnumber, Course.tick_grantedAt hstop hnumber hstays]
    constructor
    · intro hcan
      contradiction
    · rintro ⟨-, hstill⟩
      have hbusy : (course.unit idle.worker (.grantedAt course.frame)).worker.isSettled = false := by
        rw [Course.isSettled_unit hstop hnumber]
        rfl
      -- The instruction leaves the park or ends the program: either way the unit has moved.
      rcases Course.advanced_eq_ok hstill with ⟨after, -, hafter⟩ | ⟨cause, after, -, hafter⟩
      · have htaken : (after.unit idle.worker (.underWay .stepInMode course.frame)).worker.ticketIs
            idle.worker.tickets.size (·.parked) = false := by
          simp only [Worker.ticketIs, Course.tickets_unit]
          rfl
        rw [← hafter, ← hnumber, Course.ticketIs_unit hnumber] at htaken
        contradiction
      · rw [hafter, Course.isSettled_ended] at hbusy
        contradiction
  | ended course fault =>
    constructor
    · intro hcan
      rw [Course.canStep_ended] at hcan
      contradiction
    · rintro ⟨hcurrent, -⟩
      contradiction

end SteppingPhase

namespace ExecutionUnit

variable {unit ended : ExecutionUnit} {program : Program} {fuel : Nat}

theorem settle_submitted (hidle : unit.Idle) (program : Program) (mode : RunMode) (fuel : Nat) :
    settle (fuel + 1) (unit.submitted program mode) =
      (unit.submitted program mode).tick >>= settle fuel := by
  apply settle_succ
  simp only [submitted, hidle.submit_eq, Worker.isSettled, hidle.current]
  rfl

/-- Whether a stepped program still has to end after so many steps, when a run of it ended with the
given ticket.  One that faults takes a step more than it retires, unless it was never begun. -/
def Outlasts (program : Program) (idle : ExecutionUnit) (ticket : Ticket) (calls : Nat) : Prop :=
  calls < ticket.frame.retired ∨
    (calls = ticket.frame.retired ∧ ticket.fault.isSome ∧
      program.length ≤ idle.memory.hierarchy.size)

/-- The answers to so many steps of a program, and the unit after them, when a run of the program
from the idle unit ended with the given ticket and the given unit. -/
structure StepsLike (program : Program) (idle ended : ExecutionUnit) (ticket : Ticket)
    (calls : Nat) (answers : List (Option (Except StepError Frame))) (last : ExecutionUnit) :
    Prop where
  length : answers.length = calls
  retires : ∀ k < calls, k < ticket.frame.retired →
    ∃ frame, Machine.frameAfter program idle.memory (k + 1) = .ok frame ∧
      answers[k]? = some (some (.ok frame))
  refuses : ∀ k < calls, ticket.frame.retired ≤ k →
    answers[k]? = some (some (.error (ticket.fault.elim .finished .faulted)))
  canStep : last.worker.ticketIs idle.worker.tickets.size (·.canStep) ↔
    Outlasts program idle ticket calls
  ends : ¬Outlasts program idle ticket calls →
    last = { ended with
      worker := { ended.worker with
        tickets := idle.worker.tickets.push { ticket with mode := .step } } }

theorem stepsLike_rejected {course : Course} {cause : FaultCode}
    (hretired : course.execution.retired = 0)
    (htoolong : unit.memory.hierarchy.size < program.length) (calls : Nat) :
    StepsLike program unit (course.ended unit.worker { mode := .run } (some cause))
      (Ticket.finish { mode := .run } course.frame (some cause) true) calls
      ((List.range calls).map fun k => some (Course.answerAt [] (some cause) k))
      (course.ended unit.worker { mode := .step } (some cause)) where
  length := by rw [List.length_map, List.length_range]
  retires := by
    intro k _ hk
    have hzero : k < course.execution.retired := hk
    omega
  refuses := by
    intro k hk _
    rw [List.getElem?_map, List.getElem?_range hk]
    rfl
  canStep := by
    rw [Course.canStep_ended]
    constructor
    · intro hcan
      contradiction
    · rintro (hcalls | ⟨-, -, hfits⟩)
      · have hzero : calls < course.execution.retired := hcalls
        omega
      · omega
  ends := by
    intro _
    rfl

theorem stepsLike_started {course last : Course} {machine : Machine} {visited : List Course}
    {fault : Option FaultCode} {ticket : Ticket} {calls : Nat} {rest : ExecutionUnit}
    (hfits : program.length ≤ unit.memory.hierarchy.size)
    (hretired : course.execution.retired = 0)
    (hstart : Machine.start program unit.memory = .ok machine) (hat : course.IsAt machine)
    (hends : course.Ends unit.worker.index visited fault last)
    (hheld : ticket.abandoned = false)
    (hrest : if calls < visited.length ∨ (calls = visited.length ∧ fault.isSome) then
        ∃ place : Course, ¬place.Leaves ∧ rest = place.unit unit.worker (.parkedAt place.frame)
      else rest = last.ended unit.worker { mode := .step } fault) :
    StepsLike program unit (last.ended unit.worker ticket fault)
      (ticket.finish last.frame fault fault.isSome) calls
      ((List.range calls).map fun k => some (Course.answerAt visited fault k)) rest := by
  have hlast : (ticket.finish last.frame fault fault.isSome).frame.retired = visited.length := by
    have hcount := hends.retired_eq
    rw [hretired, Nat.zero_add] at hcount
    exact hcount
  have houtlasts : Outlasts program unit (ticket.finish last.frame fault fault.isSome) calls ↔
      calls < visited.length ∨ (calls = visited.length ∧ fault.isSome) := by
    rw [Outlasts, hlast]
    simp only [hfits, and_true]
    rfl
  constructor
  · rw [List.length_map, List.length_range]
  · intro k hk hvisited
    rw [hlast] at hvisited
    obtain ⟨after, hafter, hframe⟩ := hends.iterate_eq hat hvisited
    rw [hretired, Nat.zero_add] at hframe
    refine ⟨visited[k].frame, ?_, ?_⟩
    · rw [Machine.frameAfter, hstart]
      change (machine.iterate (k + 1) >>= _) = _
      rw [hafter, hframe]
      rfl
    · rw [List.getElem?_map, List.getElem?_range hk]
      simp only [Option.map_some, Course.answerAt, List.getElem?_eq_getElem hvisited]
  · intro k hk hvisited
    rw [hlast] at hvisited
    rw [List.getElem?_map, List.getElem?_range hk]
    simp only [Option.map_some, Course.answerAt, List.getElem?_eq_none hvisited]
    rfl
  · rw [houtlasts]
    split at hrest
    next hgoes =>
      obtain ⟨place, -, rfl⟩ := hrest
      simp only [Worker.ticketIs, Course.tickets_unit, hgoes, iff_true]
      rfl
    next hover =>
      rw [hrest, Course.canStep_ended]
      simp only [hover, Bool.false_eq_true]
  · intro hover
    rw [if_neg (mt houtlasts.mpr hover)] at hrest
    rw [hrest]
    obtain ⟨mode, state, frame, fault', pendingSteps, parked, abandoned⟩ := ticket
    simp only at hheld
    subst hheld
    rfl

/-- Stepping equals running.  When a program that was left to run has ended on a unit that was idle,
the same program, submitted to the same unit and driven by any number of steps, answers with the
frames of its machine after one step, two steps and so on, as many as the run retired, and then with
the reason why it ended; and it leaves the unit as the run left it.  A step can be granted exactly
while the unit holds the program and waits. -/
theorem stepping_eq_running (hidle : unit.Idle)
    (hrun : settle fuel (unit.submitted program .run) = .ok ended)
    (hfinished : ended.worker.ticketIs unit.worker.tickets.size (·.state.isFinished)) :
    ∃ ticket first, ended.worker.tickets = unit.worker.tickets.push ticket ∧
      (∀ pace, settle (pace + 2) (unit.submitted program .step) = .ok first) ∧
      (∀ pace calls, ∃ answers last,
        drive (pace + 2) unit.worker.tickets.size calls first = .ok (answers, last) ∧
        StepsLike program unit ended ticket calls answers last) ∧
      ∀ state, Stepping (unit.submitted program .step) unit.worker.tickets.size state →
        (state.worker.ticketIs unit.worker.tickets.size (·.canStep) ↔
          state.worker.current.isSome ∧ state.tick = .ok state) := by
  have hstop := hidle.stopRequested
  have hphases : ∀ state,
      Stepping (unit.submitted program .step) unit.worker.tickets.size state →
        (state.worker.ticketIs unit.worker.tickets.size (·.canStep) ↔
          state.worker.current.isSome ∧ state.tick = .ok state) := by
    intro state hstate
    exact SteppingPhase.canStep_iff hidle (SteppingPhase.of_stepping hidle hstate)
  cases fuel with
  | zero =>
    obtain rfl := Except.ok.inj hrun
    simp [submitted, hidle.submit_eq, Worker.ticketIs, TicketState.isFinished]
      at hfinished
  | succ fuel =>
    rw [settle_submitted hidle, hidle.tick_submitted] at hrun
    have hstepped (pace : Nat) := settle_submitted hidle program .step (pace + 1)
    simp only [hidle.tick_submitted] at hstepped
    cases henter : Course.enter unit.worker program unit.memory with
    | error violation =>
      rw [henter] at hrun
      contradiction
    | ok result =>
      obtain ⟨fault, course⟩ := result
      rw [henter] at hrun
      simp only [henter] at hstepped
      cases fault with
      -- An image that does not fit: both handles end before the first instruction.
      | some cause =>
        obtain ⟨htoolong, hretired⟩ := Course.enter_eq_rejected henter
        obtain rfl := Except.ok.inj (hrun.symm.trans (settle_ended _ _ course (some cause) fuel))
        refine ⟨_, course.ended unit.worker { mode := .step } (some cause), rfl, ?_, ?_, hphases⟩
        · intro pace
          exact (hstepped pace).trans (settle_ended _ _ course (some cause) (pace + 1))
        · intro pace calls
          exact ⟨_, _, Course.drive_ended course (some cause) (pace + 2) calls,
            stepsLike_rejected hretired htoolong calls⟩
      | none =>
        obtain ⟨hfits, hnumber, hretired, machine, hstart, hat⟩ := Course.enter_eq_started henter
        obtain ⟨visited, fault, last, hends, rfl⟩ :=
          Course.ends_of_settle hstop hnumber rfl rfl rfl rfl hrun hfinished
        refine ⟨_, course.atRest unit.worker, rfl, ?_, ?_, hphases⟩
        · intro pace
          exact (hstepped pace).trans
            (Course.settle_underWay hstop hnumber .waiting course.frame pace)
        · intro pace calls
          obtain ⟨rest, hdrive, hrest⟩ := hends.drive_eq hstop hnumber pace calls
          exact ⟨_, rest, hdrive, stepsLike_started hfits hretired hstart hat hends rfl hrest⟩

/-- The sum of the numbers from 10 down to 1, on a unit of 16 words. -/
theorem stepping_eq_running_countdown :
    ∃ unit : ExecutionUnit, unit.Idle ∧ ∃ ended,
      settle 36 (unit.submitted .countdownSum .run) = .ok ended ∧
      ∃ ticket first, ticket.frame.retired = 33 ∧
        settle 2 (unit.submitted .countdownSum .step) = .ok first ∧
        ∀ calls, ∃ answers last, drive 2 0 calls first = .ok (answers, last) ∧
          StepsLike .countdownSum unit ended ticket calls answers last := by
  let unit : ExecutionUnit :=
    { worker := { index := 0 }
      memory := { hierarchy := .ram (.zeroed "RAM" 16), stack := .zeroed "STACK" 4 } }
  have hidle : unit.Idle := ⟨rfl, rfl, rfl, rfl⟩
  have hends : (settle 36 (unit.submitted .countdownSum .run)).toOption.any (fun ended =>
      ended.worker.ticketIs 0 (·.state.isFinished) &&
        ended.worker.ticketIs 0 (·.frame.retired == 33)) = true := by
    decide +kernel
  cases hrun : settle 36 (unit.submitted .countdownSum .run) with
  | error violation =>
    rw [hrun] at hends
    contradiction
  | ok ended =>
    rw [hrun] at hends
    obtain ⟨hfinished, hretired⟩ := (Bool.and_eq_true _ _).mp hends
    obtain ⟨ticket, first, htickets, hfirst, hdrive, -⟩ :=
      stepping_eq_running hidle hrun hfinished
    refine ⟨unit, hidle, ended, hrun, ticket, first, ?_, hfirst 0, hdrive 0⟩
    rw [Worker.ticketIs, htickets] at hretired
    exact of_decide_eq_true hretired

end ExecutionUnit

end A64Machine
