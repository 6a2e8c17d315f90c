import A64Machine.Diagnostics
import A64Machine.Execution.Step
import A64Machine.Program
import A64Machine.Unit.Ticket

/-!
The life of a processing unit.  Programs are submitted, wait in a queue and are executed one at a
time in the order of submission.  A unit moves by ticks: it takes the next program, or it comes to
an instruction boundary of the current one, where it observes a stop request, the end of the program,
and on a stepped program whether a step was granted, and otherwise executes one instruction.
-/

namespace A64Machine

/-- Whether a unit has a program. -/
inductive UnitStatus where
  | idle | running | interrupted
  deriving Repr, DecidableEq

namespace UnitStatus

def all : List UnitStatus := [.idle, .running, .interrupted]

/-- Whether a unit in this status takes further programs. -/
def acceptsPrograms : UnitStatus → Bool
  | .interrupted => false
  | _ => true

end UnitStatus

/-- A program that waits for its turn, with the number of its ticket. -/
structure Job where
  program : Program
  ticket : Nat
  deriving Repr, DecidableEq

/-- The program that a unit is executing, between two instructions. -/
structure Execution where
  program : Program
  ticket : Nat
  regs : RegisterFile
  retired : Nat
  deriving Repr, DecidableEq

/-- The part of a unit that is not memory. -/
structure Worker where
  index : Nat
  status : UnitStatus := .idle
  stopRequested : Bool := false
  current : Option Execution := none
  queue : List Job := []
  tickets : Array Ticket := #[]
  diagnostics : Diagnostics := {}
  deriving Repr

namespace Worker

def name (worker : Worker) : String :=
  s!"PU[{worker.index}]"

def constructed (worker : Worker) : Event :=
  .construction worker.name "worker started"

def modifyTicket (worker : Worker) (number : Nat) (f : Ticket → Ticket) : Worker :=
  { worker with tickets := worker.tickets.modify number f }

def ticketIs (worker : Worker) (number : Nat) (p : Ticket → Bool) : Bool :=
  worker.tickets[number]?.any p

/-- Whether nothing happens until someone submits a program, grants a step, drops the ticket of a
parked program or requests a stop. -/
def isSettled (worker : Worker) : Bool :=
  match worker.current with
  | none => worker.queue.isEmpty
  | some execution =>
    !worker.stopRequested && worker.ticketIs execution.ticket fun ticket =>
      ticket.parked && ticket.pendingSteps == 0 && !ticket.abandoned

end Worker

/-- A processing unit: its worker and its memory. -/
structure ExecutionUnit where
  worker : Worker
  memory : UnitMemory

namespace ExecutionUnit

def report (unit : ExecutionUnit) (event : Event) : ExecutionUnit :=
  { unit with memory := { unit.memory with events := unit.memory.events.push event } }

def frame (unit : ExecutionUnit) (regs : RegisterFile) (retired : Nat) : Frame :=
  .capture regs retired unit.memory.stack.words

def recordFault (unit : ExecutionUnit) (cause : FaultCode) (pc : Doubleword) : ExecutionUnit :=
  let unit := unit.report (.fault unit.worker.index pc cause)
  { unit with
    worker :=
      { unit.worker with diagnostics := unit.worker.diagnostics.recordFault cause pc } }

def finish (unit : ExecutionUnit) (execution : Execution) (fault : Option FaultCode)
    (interrupted : Bool) : ExecutionUnit :=
  let worker := unit.worker
  let worker :=
    { worker with
      current := none
      diagnostics := worker.diagnostics.recordProgram interrupted
      status := if worker.stopRequested then .interrupted else .idle }
  let frame := unit.frame execution.regs execution.retired
  let worker := worker.modifyTicket execution.ticket (·.finish frame fault interrupted)
  ({ unit with worker } : ExecutionUnit).report (.programFinished worker.index interrupted)

/-- The registers with which a program starts: the program counter at its entry, the stack pointer
at the top of the stack, and the exit address in the link register. -/
def startRegisters (program : Program) (map : AddressMap) : RegisterFile :=
  (({} : RegisterFile).setPc (BitVec.ofNat 64 (program.entry * wordBytes))
    |>.setSp (BitVec.ofNat 64 map.stackTop)).setGpr linkRegister programExit

/-- Begins a program: clears the stack, loads the image and sets up the registers.  An image that
does not fit the hierarchy faults at the entry. -/
def start (unit : ExecutionUnit) (job : Job) : Except Violation ExecutionUnit := do
  let { program, ticket } := job
  let unit := unit.report (.programStarted unit.worker.index program.entry)
  let unit := { unit with worker := { unit.worker with status := .running } }
  if unit.memory.hierarchy.size < program.length then
    let entry := BitVec.ofNat 64 (program.entry * wordBytes)
    let unit := unit.recordFault .dataAbort entry
    pure (unit.finish { program, ticket, regs := {}, retired := 0 } (some .dataAbort) true)
  else
    let memory ← unit.memory.resetStack
    let (loaded, memory) := memory.loadImage program.words.toList
    loaded
    let regs := startRegisters program memory.map
    let frame := Frame.capture regs 0 memory.stack.words
    let worker := unit.worker.modifyTicket ticket (·.begin frame)
    let current := some { program, ticket, regs, retired := 0 }
    pure { worker := { worker with current }, memory }

/-- Takes the next program from the queue.  After a stop request it is discarded. -/
def next (unit : ExecutionUnit) (job : Job) (rest : List Job) : Except Violation ExecutionUnit :=
  let worker := { unit.worker with queue := rest }
  if worker.stopRequested then
    let worker := { worker with diagnostics := worker.diagnostics.recordProgram true }
    pure { unit with worker := worker.modifyTicket job.ticket (·.finish {} none true) }
  else
    ({ unit with worker } : ExecutionUnit).start job

/-- Executes one instruction of the current program. -/
def advance (unit : ExecutionUnit) (execution : Execution) : Except Violation ExecutionUnit := do
  let { worker, memory } := unit
  let { program, ticket, regs, retired } := execution
  let (outcome, regs, memory) ← step regs memory
  match outcome with
  | .retired pc word group mnemonic =>
    let events := (memory.events.push (.fetch worker.index pc word)).push
      (.retire worker.index pc mnemonic)
    let current := some { program, ticket, regs, retired := retired + 1 }
    pure
      { worker :=
          { worker with current, diagnostics := worker.diagnostics.recordRetired group }
        memory := { memory with events } }
  | .faulted pc word cause =>
    let events := match word with
      | some word => memory.events.push (.fetch worker.index pc word)
      | none => memory.events
    let unit : ExecutionUnit := { worker, memory := { memory with events } }
    pure ((unit.recordFault cause pc).finish { program, ticket, regs, retired } (some cause) true)

/-- The current program is at an instruction boundary. -/
def atBoundary (unit : ExecutionUnit) (execution : Execution) : Except Violation ExecutionUnit :=
  let { worker, memory } := unit
  let number := execution.ticket
  if worker.stopRequested then
    pure (unit.finish execution none true)
  else if execution.regs.pc = programExit ∨
      execution.program.endAddress ≤ execution.regs.pc.toNat then
    pure (unit.finish execution none false)
  else if worker.ticketIs number (·.mode == .run) then
    unit.advance execution
  else if worker.ticketIs number (·.abandoned) then
    pure (unit.finish execution none true)
  else if worker.ticketIs number (·.pendingSteps == 0) then
    let frame := unit.frame execution.regs execution.retired
    pure { worker := worker.modifyTicket number (·.park frame), memory }
  else
    let worker := worker.modifyTicket number (·.takeStep)
    ExecutionUnit.advance { worker, memory } execution

def tick (unit : ExecutionUnit) : Except Violation ExecutionUnit :=
  match unit.worker.current, unit.worker.queue with
  | some execution, _ => unit.atBoundary execution
  | none, job :: rest => unit.next job rest
  | none, [] => pure unit

/-- At most `fuel` moves, until nothing more happens by itself. -/
def settle : Nat → ExecutionUnit → Except Violation ExecutionUnit
  | 0, unit => pure unit
  | fuel + 1, unit =>
    if unit.worker.isSettled then pure unit
    else do
      let unit ← unit.tick
      settle fuel unit

end ExecutionUnit

namespace Worker

/-- Submits a program; its ticket gets the next number.  A unit that was stopped while it had a
program refuses further ones. -/
def submit (worker : Worker) (program : Program) (mode : RunMode) : Worker :=
  let number := worker.tickets.size
  let ticket : Ticket := { mode }
  if worker.status.acceptsPrograms then
    { worker with
      tickets := worker.tickets.push ticket
      queue := worker.queue ++ [{ program, ticket := number }] }
  else
    { worker with tickets := worker.tickets.push (ticket.finish {} none true) }

def grantStep (worker : Worker) (number : Nat) : Worker :=
  worker.modifyTicket number fun ticket =>
    if ticket.canStep then { ticket with pendingSteps := ticket.pendingSteps + 1 } else ticket

/-- The holder of a ticket lets it go.  A stepped program without a holder ends at its next
instruction boundary. -/
def drop (worker : Worker) (number : Nat) : Worker :=
  worker.modifyTicket number fun ticket =>
    match ticket.mode with
    | .run => ticket
    | .step => { ticket with abandoned := true }

/-- Requests a stop at the next instruction boundary. -/
def stop (worker : Worker) : Worker :=
  { worker with stopRequested := true }

end Worker

namespace ExecutionUnit

/-- Asks for one step of the program of a ticket and lets the unit settle.  The answer is the frame
after the step, or why there was none; there is no answer while the program waits behind another. -/
def stepTicket (fuel : Nat) (unit : ExecutionUnit) (number : Nat) :
    Except Violation (Option (Except StepError Frame) × ExecutionUnit) :=
  match unit.worker.tickets[number]? with
  | none => pure (none, unit)
  | some ticket =>
    if ticket.state.isFinished then pure (some (.error ticket.refusal), unit)
    else if !ticket.canStep then pure (none, unit)
    else do
      let unit ← settle fuel { unit with worker := unit.worker.grantStep number }
      let answer := unit.worker.tickets[number]?.map fun ticket =>
        if ticket.state = .interrupted then .error ticket.refusal else .ok ticket.frame
      pure (answer, unit)

end ExecutionUnit

end A64Machine
