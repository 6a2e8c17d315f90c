import A64Machine.Proofs.Unit.Ends

/-!
A program that is driven step by step.  Each step that is asked for takes the unit from one park to the
next, or to the end, and answers with the place that the course has come to.
-/

namespace A64Machine

namespace Ticket

/-- The ticket of a stepped program that is between two parks. -/
def underWay (state : TicketState) (frame : Frame) : Ticket :=
  { mode := .step, state, frame }

def parkedAt (frame : Frame) : Ticket :=
  { mode := .step, state := .stepInMode, frame, parked := true }

def grantedAt (frame : Frame) : Ticket :=
  { parkedAt frame with pendingSteps := 1 }

/-- What a ticket answers to the step that was granted last. -/
def answer (ticket : Ticket) : Except StepError Frame :=
  if ticket.state = .interrupted then .error ticket.refusal else .ok ticket.frame

end Ticket

namespace Course

variable {base : Worker} {course : Course}

/-- The unit when a stepped program comes to rest. -/
def atRest (base : Worker) (course : Course) : ExecutionUnit :=
  if course.Leaves then course.ended base { mode := .step } none
  else course.unit base (.parkedAt course.frame)

theorem isSettled_atRest (hstop : base.stopRequested = false)
    (hnumber : course.execution.ticket = base.tickets.size) :
    (course.atRest base).worker.isSettled = true := by
  unfold atRest
  split
  · exact isSettled_ended none
  · rw [isSettled_unit hstop hnumber]
    rfl

theorem tick_underWay (hstop : base.stopRequested = false)
    (hnumber : course.execution.ticket = base.tickets.size) (state : TicketState) (frame : Frame) :
    (course.unit base (.underWay state frame)).tick = .ok (course.atRest base) := by
  rw [tick_unit hstop hnumber rfl, atRest]
  split
  · rfl
  · rfl

theorem settle_underWay (hstop : base.stopRequested = false)
    (hnumber : course.execution.ticket = base.tickets.size) (state : TicketState) (frame : Frame)
    (fuel : Nat) :
    ExecutionUnit.settle (fuel + 1) (course.unit base (.underWay state frame)) =
      .ok (course.atRest base) := by
  have hbusy : (course.unit base (.underWay state frame)).worker.isSettled = false := by
    rw [isSettled_unit hstop hnumber]
    rfl
  rw [ExecutionUnit.settle_succ hbusy, tick_underWay hstop hnumber]
  exact ExecutionUnit.settle_of_isSettled (isSettled_atRest hstop hnumber) fuel

theorem tick_ended (fault : Option FaultCode) :
    (course.ended base { mode := .step } fault).tick =
      .ok (course.ended base { mode := .step } fault) := rfl

theorem tick_parkedAt (hstop : base.stopRequested = false)
    (hnumber : course.execution.ticket = base.tickets.size) (hstays : ¬course.Leaves) :
    (course.unit base (.parkedAt course.frame)).tick =
      .ok (course.unit base (.parkedAt course.frame)) := by
  rw [tick_unit hstop hnumber rfl, if_neg hstays]
  rfl

/-- A granted step makes the program take one instruction. -/
theorem tick_grantedAt (hstop : base.stopRequested = false)
    (hnumber : course.execution.ticket = base.tickets.size) (hstays : ¬course.Leaves)
    (frame : Frame) :
    (course.unit base (.grantedAt frame)).tick =
      course.advanced base (.underWay .stepInMode frame) := by
  rw [tick_unit hstop hnumber rfl, if_neg hstays]
  rfl

theorem grantStep_unit (ticket : Ticket) :
    (course.unit base ticket).worker.grantStep base.tickets.size =
      (course.unit base
        (if ticket.canStep then { ticket with pendingSteps := ticket.pendingSteps + 1 }
          else ticket)).worker := by
  simp only [Worker.grantStep, Worker.modifyTicket, unit, modify_push_size]

/-- The move of a unit when a step is asked of a parked program. -/
theorem stepTicket_parkedAt (hstop : base.stopRequested = false)
    (hnumber : course.execution.ticket = base.tickets.size) (hstays : ¬course.Leaves)
    (frame : Frame) (fuel : Nat) :
    (course.unit base (.parkedAt frame)).stepTicket (fuel + 1) base.tickets.size = (do
      let moved ← course.advanced base (.underWay .stepInMode frame)
      let unit ← ExecutionUnit.settle fuel moved
      pure (unit.worker.tickets[base.tickets.size]?.map Ticket.answer, unit)) := by
  have hbusy : (course.unit base (.grantedAt frame)).worker.isSettled = false := by
    rw [isSettled_unit hstop hnumber]
    rfl
  have hgranted : ExecutionUnit.settle (fuel + 1)
      { course.unit base (.parkedAt frame) with
        worker := (course.unit base (.parkedAt frame)).worker.grantStep base.tickets.size } =
      course.advanced base (.underWay .stepInMode frame) >>= ExecutionUnit.settle fuel := by
    rw [grantStep_unit]
    change ExecutionUnit.settle (fuel + 1) (course.unit base (.grantedAt frame)) = _
    rw [ExecutionUnit.settle_succ hbusy, tick_grantedAt hstop hnumber hstays]
  rw [ExecutionUnit.stepTicket, tickets_unit]
  change (ExecutionUnit.settle (fuel + 1) _ >>= _) = _
  rw [hgranted, bind_assoc]
  rfl

theorem answer_atRest :
    (course.atRest base).worker.tickets[base.tickets.size]?.map Ticket.answer =
      some (.ok course.frame) := by
  unfold atRest
  split
  · rw [tickets_ended]
    rfl
  · rw [tickets_unit]
    rfl

/-- A step that retires answers with the frame after it. -/
theorem stepTicket_of_retires {after : Course} (hstop : base.stopRequested = false)
    (hnumber : course.execution.ticket = base.tickets.size) (hstays : ¬course.Leaves)
    (hnext : course.next base.index = .ok (none, after)) (frame : Frame) (fuel : Nat) :
    (course.unit base (.parkedAt frame)).stepTicket (fuel + 2) base.tickets.size =
      .ok (some (.ok after.frame), after.atRest base) := by
  have hrest := settle_underWay hstop ((ticket_of_next hnext).trans hnumber) .stepInMode frame fuel
  rw [stepTicket_parkedAt hstop hnumber hstays, advanced, hnext, ← answer_atRest]
  change (ExecutionUnit.settle (fuel + 1) (after.unit base (.underWay .stepInMode frame)) >>= _) = _
  rw [hrest]
  rfl

/-- A step that faults answers with the fault and ends the program. -/
theorem stepTicket_of_faults {after : Course} {cause : FaultCode}
    (hstop : base.stopRequested = false)
    (hnumber : course.execution.ticket = base.tickets.size) (hstays : ¬course.Leaves)
    (hnext : course.next base.index = .ok (some cause, after)) (frame : Frame) (fuel : Nat) :
    (course.unit base (.parkedAt frame)).stepTicket (fuel + 1) base.tickets.size =
      .ok (some (.error (.faulted cause)), after.ended base { mode := .step } (some cause)) := by
  have hanswer : (after.ended base { mode := .step } (some cause)).worker.tickets[
      base.tickets.size]?.map Ticket.answer = some (.error (.faulted cause)) := by
    rw [tickets_ended]
    rfl
  rw [stepTicket_parkedAt hstop hnumber hstays, advanced, hnext, ← hanswer]
  change (ExecutionUnit.settle fuel
    (after.ended base (.underWay .stepInMode frame) (some cause)) >>= _) = _
  rw [ExecutionUnit.settle_ended]
  rfl

/-- A step is refused after the end. -/
theorem stepTicket_ended (fault : Option FaultCode) (fuel : Nat) :
    (course.ended base { mode := .step } fault).stepTicket fuel base.tickets.size =
      .ok (some (.error (fault.elim .finished .faulted)),
        course.ended base { mode := .step } fault) := by
  rw [ExecutionUnit.stepTicket, tickets_ended]
  cases fault with
  | none => rfl
  | some cause => rfl

end Course

namespace ExecutionUnit

/-- The answers to a number of steps asked for one after another, and the unit after them. -/
def drive (fuel number : Nat) : Nat → ExecutionUnit →
    Except Violation (List (Option (Except StepError Frame)) × ExecutionUnit)
  | 0, unit => pure ([], unit)
  | calls + 1, unit => do
    let (answer, unit) ← unit.stepTicket fuel number
    let (answers, unit) ← drive fuel number calls unit
    pure (answer :: answers, unit)

theorem drive_succ {fuel number calls : Nat} {unit after last : ExecutionUnit}
    {answer : Option (Except StepError Frame)} {answers : List (Option (Except StepError Frame))}
    (hstep : unit.stepTicket fuel number = .ok (answer, after))
    (hdrive : drive fuel number calls after = .ok (answers, last)) :
    drive fuel number (calls + 1) unit = .ok (answer :: answers, last) := by
  rw [drive, hstep]
  change (drive fuel number calls after >>= _) = _
  rw [hdrive]
  rfl

end ExecutionUnit

namespace Course

variable {base : Worker} {course last : Course} {visited : List Course} {fault : Option FaultCode}

/-- The answer to a step asked for in a course, after `k` others. -/
def answerAt (visited : List Course) (fault : Option FaultCode) (k : Nat) :
    Except StepError Frame :=
  match visited[k]? with
  | some place => .ok place.frame
  | none => .error (fault.elim .finished .faulted)

theorem range_succ_map_answerAt (calls : Nat) :
    (List.range (calls + 1)).map (fun k => some (answerAt visited fault k)) =
      some (answerAt visited fault 0) ::
        (List.range calls).map fun k => some (answerAt visited.tail fault k) := by
  rw [List.range_succ_eq_map, List.map_cons, List.map_map]
  congr 1
  apply List.map_congr_left
  intro k _
  simp only [Function.comp_apply, answerAt, List.getElem?_tail]

/-- After the end every step is refused. -/
theorem drive_ended (course : Course) (fault : Option FaultCode) (fuel calls : Nat) :
    ExecutionUnit.drive fuel base.tickets.size calls (course.ended base { mode := .step } fault) =
      .ok ((List.range calls).map fun k => some (answerAt [] fault k),
        course.ended base { mode := .step } fault) := by
  induction calls with
  | zero => rfl
  | succ calls ih =>
    rw [range_succ_map_answerAt]
    exact ExecutionUnit.drive_succ (stepTicket_ended fault fuel) ih

/-- A course that is driven step by step answers with a frame for every place that it visits, and
then refuses.  The unit is parked until the course has ended. -/
theorem Ends.drive_eq (hends : Ends base.index course visited fault last)
    (hstop : base.stopRequested = false)
    (hnumber : course.execution.ticket = base.tickets.size) (pace calls : Nat) :
    ∃ rest, ExecutionUnit.drive (pace + 2) base.tickets.size calls (course.atRest base) =
        .ok ((List.range calls).map fun k => some (answerAt visited fault k), rest) ∧
      if calls < visited.length ∨ (calls = visited.length ∧ fault.isSome) then
        ∃ place : Course, ¬place.Leaves ∧ rest = place.unit base (.parkedAt place.frame)
      else rest = last.ended base { mode := .step } fault := by
  -- The unit rests at every place of the course, so one call is one constructor.
  induction hends generalizing calls with
  | @leaves course hleaves =>
    refine ⟨course.ended base { mode := .step } none, ?_, ?_⟩
    · rw [atRest, if_pos hleaves]
      exact drive_ended course none (pace + 2) calls
    · simp
  | @faults course last cause hstays hnext =>
    rw [atRest, if_neg hstays]
    cases calls with
    | zero => exact ⟨_, rfl, by simpa using ⟨course, hstays, rfl⟩⟩
    | succ calls =>
      refine ⟨last.ended base { mode := .step } (some cause), ?_, by simp⟩
      rw [range_succ_map_answerAt]
      exact ExecutionUnit.drive_succ
        (stepTicket_of_faults hstop hnumber hstays hnext course.frame (pace + 1))
        (drive_ended last (some cause) (pace + 2) calls)
  | @retires course after last places fault hstays hnext hrest ih =>
    rw [atRest, if_neg hstays]
    cases calls with
    | zero => exact ⟨_, rfl, by simpa using ⟨course, hstays, rfl⟩⟩
    | succ calls =>
      obtain ⟨rest, hdrive, hplace⟩ := ih ((ticket_of_next hnext).trans hnumber) calls
      refine ⟨rest, ?_, by simpa using hplace⟩
      rw [range_succ_map_answerAt]
      exact ExecutionUnit.drive_succ
        (stepTicket_of_retires hstop hnumber hstays hnext course.frame pace) hdrive

end Course

end A64Machine
