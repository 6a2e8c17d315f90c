import A64Machine.Proofs.Unit.Roster

/-!
What the tickets of a unit show of its programs: their states, frames and faults.  A move changes
what is shown of one program at most, and a request none of it; a program that is submitted is shown
last.
-/

namespace A64Machine

/-- What a ticket shows of its program. -/
structure Shown where
  state : TicketState
  frame : Frame
  fault : Option FaultCode

namespace Shown

/-- The instructions that a program retired, once it has ended. -/
def retired (shown : Shown) : Nat :=
  if shown.state.isFinished then shown.frame.retired else 0

/-- Whether a program has not ended. -/
structure IsOpen (shown : Shown) : Prop where
  state : shown.state.isFinished = false
  fault : shown.fault = none

theorem IsOpen.retired_eq {shown : Shown} (hopen : shown.IsOpen) : shown.retired = 0 := by
  rw [retired, hopen.state, if_neg Bool.false_ne_true]

end Shown

def Shown.ended (frame : Frame) (fault : Option FaultCode) (interrupted : Bool) : Shown where
  state := if interrupted then .interrupted else .ready
  frame := frame
  fault := fault

theorem Shown.retired_ended (frame : Frame) (fault : Option FaultCode) (interrupted : Bool) :
    (Shown.ended frame fault interrupted).retired = frame.retired := by
  cases interrupted <;> rfl

theorem Shown.interrupted_ended (frame : Frame) (fault : Option FaultCode) (interrupted : Bool) :
    ((Shown.ended frame fault interrupted).state == .interrupted) = interrupted := by
  cases interrupted <;> rfl

def Ticket.shown (ticket : Ticket) : Shown where
  state := ticket.state
  frame := ticket.frame
  fault := ticket.fault

def Shown.queued : Shown where
  state := .waiting
  frame := {}
  fault := none

namespace Shown.IsOpen

variable {ticket : Ticket}

theorem begin (hopen : ticket.shown.IsOpen) (frame : Frame) : (ticket.begin frame).shown.IsOpen := by
  refine ⟨?_, hopen.fault⟩
  rw [Ticket.begin]
  cases ticket.mode <;> rfl

theorem park (hopen : ticket.shown.IsOpen) (frame : Frame) : (ticket.park frame).shown.IsOpen :=
  ⟨rfl, hopen.fault⟩

theorem spend (hopen : ticket.shown.IsOpen) : ticket.spend.shown.IsOpen := by
  rw [Ticket.spend]
  split
  · exact hopen
  · exact hopen

end Shown.IsOpen

/-- No request changes the counters. -/
theorem Worker.diagnostics_ask (worker : Worker) (request : UnitRequest) :
    (worker.ask request).diagnostics = worker.diagnostics := by
  cases request with
  | submit program mode =>
    rw [ask, submit]
    split <;> rfl
  | step ticket => rfl
  | drop ticket => rfl
  | stop => rfl

namespace ExecutionUnit

variable {unit after : ExecutionUnit} {number : Nat} {f : Ticket → Ticket}

def shown (unit : ExecutionUnit) : List Shown :=
  unit.worker.tickets.toList.map Ticket.shown

theorem New.shown_eq (hnew : unit.New) : unit.shown = [] := by
  rw [shown, hnew.tickets_eq]
  rfl

theorem length_shown (unit : ExecutionUnit) : unit.shown.length = unit.worker.tickets.size := by
  rw [shown, List.length_map, Array.length_toList]

theorem getElem?_shown {ticket : Ticket} (hticket : unit.worker.tickets[number]? = some ticket) :
    unit.shown[number]? = some ticket.shown := by
  rw [shown, List.getElem?_map, Array.getElem?_toList, hticket, Option.map_some]

theorem ticketIs_eq_shown (unit : ExecutionUnit) (number : Nat) :
    unit.worker.ticketIs number (·.state == .interrupted) =
      unit.shown[number]?.any (·.state == .interrupted) := by
  rw [Worker.ticketIs, shown, List.getElem?_map, Array.getElem?_toList, Option.any_map]
  rfl

theorem bind_shown (unit : ExecutionUnit) (number : Nat) :
    unit.shown[number]?.bind (·.fault) = unit.worker.tickets[number]?.bind (·.fault) := by
  rw [shown, List.getElem?_map, Array.getElem?_toList, Option.bind_map]
  rfl

theorem shown_of_modify {old : Ticket} (hold : unit.worker.tickets[number]? = some old)
    (htickets : after.worker.tickets = unit.worker.tickets.modify number f) :
    after.shown = unit.shown.set number (f old).shown := by
  apply List.ext_getElem?
  intro i
  rw [shown, htickets, Array.toList_modify, List.getElem?_map, List.getElem?_modify,
    Array.getElem?_toList]
  by_cases hi : number = i
  · have hshown : unit.shown[i]? = some old.shown := getElem?_shown (hi ▸ hold)
    rw [← hi, hold, List.getElem?_set_self (List.getElem?_eq_some_iff.mp (hi ▸ hshown)).1]
    simp only [if_true, Option.map_eq_map, Option.map_some]
  · rw [List.getElem?_set_ne hi, shown, List.getElem?_map, Array.getElem?_toList]
    simp only [if_neg hi]
    exact congrArg _ (Option.map_id_apply)

theorem shown_of_push {ticket : Ticket}
    (htickets : after.worker.tickets = unit.worker.tickets.push ticket) :
    after.shown = unit.shown ++ [ticket.shown] := by
  rw [shown, htickets, Array.toList_push, List.map_append, List.map_singleton]
  rfl

/-- What changes only between a ticket and the unit is not shown. -/
theorem shown_of_touch (unit : ExecutionUnit) (number : Nat)
    (hshown : ∀ ticket, (f ticket).shown = ticket.shown) :
    shown { unit with worker := unit.worker.modifyTicket number f } = unit.shown := by
  apply List.ext_getElem?
  intro i
  change ((unit.worker.tickets.modify number f).toList.map Ticket.shown)[i]? = _
  rw [shown, Array.toList_modify, List.getElem?_map, List.getElem?_map, List.getElem?_modify]
  by_cases hi : number = i
  · simp only [if_pos hi, Option.map_eq_map, Option.map_map]
    exact congrArg (Option.map · _) (funext hshown)
  · simp only [if_neg hi, Option.map_eq_map, Option.map_id']

/-- A request shows nothing new of a program but that it was submitted. -/
theorem shown_ask (unit : ExecutionUnit) (request : UnitRequest) :
    (unit.ask request).shown = unit.shown ∨
      ∃ new, (new = Shown.queued ∨ new = Shown.ended {} none true) ∧
        (unit.ask request).shown = unit.shown ++ [new] := by
  cases request with
  | submit program mode =>
    right
    rw [ask, Worker.ask, Worker.submit]
    split
    · exact ⟨Ticket.shown { mode }, .inl rfl, shown_of_push rfl⟩
    · exact ⟨(Ticket.finish { mode } {} none true).shown, .inr rfl, shown_of_push rfl⟩
  | step number =>
    refine .inl (unit.shown_of_touch number fun ticket => ?_)
    split
    · rfl
    · rfl
  | drop number =>
    refine .inl (unit.shown_of_touch number fun ticket => ?_)
    split
    · rfl
    · rfl
  | stop => exact .inl rfl

theorem getElem?_shown_ask (unit : ExecutionUnit) (request : UnitRequest)
    (hbound : number < unit.worker.tickets.size) :
    (unit.ask request).shown[number]? = unit.shown[number]? := by
  rcases unit.shown_ask request with hsame | ⟨new, -, hmore⟩
  · rw [hsame]
  · rw [hmore]
    exact List.getElem?_append_left (unit.length_shown.symm ▸ hbound)

end ExecutionUnit

end A64Machine
