import A64Machine.Fault
import A64Machine.Frame

/-!
Tickets: what a processing unit publishes about one program submitted to it.  A ticket shows the
state of the program, the latest frame and the fault that ended it; on a stepped program it also
carries the steps that were granted and not yet taken.
-/

namespace A64Machine

/-- Where a submitted program is. -/
inductive TicketState where
  | waiting | running | ready | interrupted | stepInMode
  deriving Repr, DecidableEq

namespace TicketState

def all : List TicketState :=
  [.waiting, .running, .ready, .interrupted, .stepInMode]

def isFinished : TicketState → Bool
  | .ready | .interrupted => true
  | _ => false

end TicketState

/-- How a program is executed: to its end, or one instruction per granted step. -/
inductive RunMode where
  | run | step
  deriving Repr, DecidableEq

/-- Why a step is refused. -/
inductive StepError where
  | finished
  | stopped
  | faulted (code : FaultCode)
  deriving Repr, DecidableEq

def StepError.message : StepError → String
  | .finished => "program has already finished"
  | .stopped => "cpu was stopped"
  | .faulted code => s!"step raised {code.message}"

/-- What is published about one program. -/
structure Ticket where
  mode : RunMode
  state : TicketState := .waiting
  frame : Frame := {}
  fault : Option FaultCode := none
  pendingSteps : Nat := 0
  parked : Bool := false
  abandoned : Bool := false
  deriving Repr, DecidableEq

namespace Ticket

/-- The program has been set up. -/
def begin (ticket : Ticket) (frame : Frame) : Ticket :=
  let state := match ticket.mode with
    | .run => .running
    | .step => .waiting
  { ticket with state, frame }

def park (ticket : Ticket) (frame : Frame) : Ticket :=
  { ticket with state := .stepInMode, frame, parked := true }

def takeStep (ticket : Ticket) : Ticket :=
  { ticket with pendingSteps := ticket.pendingSteps - 1, parked := false }

def finish (ticket : Ticket) (frame : Frame) (fault : Option FaultCode) (interrupted : Bool) :
    Ticket :=
  { ticket with
    frame
    fault
    parked := false
    pendingSteps := 0
    state := if interrupted then .interrupted else .ready }

/-- Whether the program is parked and one more instruction may be granted. -/
def canStep (ticket : Ticket) : Bool :=
  ticket.mode == .step && ticket.state == .stepInMode && ticket.parked &&
    ticket.pendingSteps == 0

def refusal (ticket : Ticket) : StepError :=
  match ticket.state, ticket.fault with
  | .interrupted, some code => .faulted code
  | .interrupted, none => .stopped
  | _, _ => .finished

end Ticket

end A64Machine
