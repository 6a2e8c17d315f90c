import A64Machine.Proofs.Execution.FlatMachine
import A64Machine.Proofs.Execution.Footprint
import A64Machine.Proofs.Execution.Reachable
import A64Machine.Proofs.Unit.Ends

/-!
The histories of a unit: the moves that it makes by itself, and between them whatever it is asked
for.  There are eight kinds of moves, and what is true of all units is proved kind by kind; a move
never breaks the contract of a memory.
-/

namespace A64Machine

/-- What a unit can be asked for. -/
inductive UnitRequest where
  | submit (program : Program) (mode : RunMode)
  | step (ticket : Nat)
  | drop (ticket : Nat)
  | stop
  deriving Repr, DecidableEq

def Worker.ask (worker : Worker) : UnitRequest → Worker
  | .submit program mode => worker.submit program mode
  | .step ticket => worker.grantStep ticket
  | .drop ticket => worker.drop ticket
  | .stop => worker.stop

/-- No request changes the program that is under way. -/
theorem Worker.current_ask (worker : Worker) (request : UnitRequest) :
    (worker.ask request).current = worker.current := by
  cases request with
  | submit program mode =>
    rw [ask, submit]
    split <;> rfl
  | step ticket => rfl
  | drop ticket => rfl
  | stop => rfl

theorem Worker.index_ask (worker : Worker) (request : UnitRequest) :
    (worker.ask request).index = worker.index := by
  cases request with
  | submit program mode =>
    rw [ask, submit]
    split <;> rfl
  | step ticket => rfl
  | drop ticket => rfl
  | stop => rfl

/-- Whether a program has left its image. -/
def Execution.Leaves (execution : Execution) : Prop :=
  execution.regs.pc = programExit ∨ execution.program.endAddress ≤ execution.regs.pc.toNat

instance (execution : Execution) : Decidable execution.Leaves :=
  inferInstanceAs (Decidable (_ ∨ _))

/-- What a program that executes an instruction does to its ticket: if it is stepped, it takes a
granted step. -/
def Ticket.spend (ticket : Ticket) : Ticket :=
  match ticket.mode with
  | .run => ticket
  | .step => ticket.takeStep

namespace Worker

/-- The worker as it executes an instruction, which uses up a granted step if there have to be any. -/
def granted (worker : Worker) (execution : Execution) : Worker :=
  if worker.ticketIs execution.ticket (·.mode == .run) then worker
  else worker.modifyTicket execution.ticket (·.takeStep)

theorem ticketIs_eq {worker : Worker} {number : Nat} {ticket : Ticket}
    (hticket : worker.tickets[number]? = some ticket) (p : Ticket → Bool) :
    worker.ticketIs number p = p ticket := by
  rw [ticketIs, hticket]
  rfl

theorem modifyTicket_congr {worker : Worker} {number : Nat} {f g : Ticket → Ticket}
    (hsame : ∀ ticket, worker.tickets[number]? = some ticket → f ticket = g ticket) :
    worker.modifyTicket number f = worker.modifyTicket number g := by
  have htickets : worker.tickets.modify number f = worker.tickets.modify number g := by
    apply Array.ext_getElem?
    intro i
    rw [Array.getElem?_modify, Array.getElem?_modify]
    split
    next hi =>
      cases hticket : worker.tickets[i]? with
      | none => rfl
      | some ticket => exact congrArg some (hsame ticket (hi ▸ hticket))
    next => rfl
  rw [modifyTicket, modifyTicket, htickets]

theorem modifyTicket_id (worker : Worker) (number : Nat) : worker.modifyTicket number id = worker := by
  have htickets : worker.tickets.modify number id = worker.tickets := by
    apply Array.ext_getElem?
    intro i
    rw [Array.getElem?_modify]
    split
    · exact Option.map_id_apply
    · rfl
  rw [modifyTicket, htickets]

/-- Only the ticket of the program changes. -/
theorem granted_eq (worker : Worker) (execution : Execution) :
    worker.granted execution = worker.modifyTicket execution.ticket Ticket.spend := by
  unfold granted
  split
  next hrun =>
    refine (worker.modifyTicket_id execution.ticket).symm.trans ?_
    refine modifyTicket_congr fun ticket hticket => ?_
    rw [ticketIs_eq hticket] at hrun
    rw [Ticket.spend, beq_iff_eq.mp hrun]
    rfl
  next hmode =>
    refine modifyTicket_congr fun ticket hticket => ?_
    rw [ticketIs_eq hticket] at hmode
    rw [Ticket.spend]
    cases hstep : ticket.mode with
    | run => rw [hstep] at hmode; contradiction
    | step => rfl

@[simp] theorem index_granted (worker : Worker) (execution : Execution) :
    (worker.granted execution).index = worker.index := by
  rw [granted_eq]
  rfl

@[simp] theorem status_granted (worker : Worker) (execution : Execution) :
    (worker.granted execution).status = worker.status := by
  rw [granted_eq]
  rfl

@[simp] theorem stopRequested_granted (worker : Worker) (execution : Execution) :
    (worker.granted execution).stopRequested = worker.stopRequested := by
  rw [granted_eq]
  rfl

@[simp] theorem diagnostics_granted (worker : Worker) (execution : Execution) :
    (worker.granted execution).diagnostics = worker.diagnostics := by
  rw [granted_eq]
  rfl

@[simp] theorem queue_granted (worker : Worker) (execution : Execution) :
    (worker.granted execution).queue = worker.queue := by
  rw [granted_eq]
  rfl

@[simp] theorem tickets_granted (worker : Worker) (execution : Execution) :
    (worker.granted execution).tickets = worker.tickets.modify execution.ticket Ticket.spend := by
  rw [granted_eq]
  rfl

end Worker

namespace ExecutionUnit

def ask (unit : ExecutionUnit) (request : UnitRequest) : ExecutionUnit :=
  { unit with worker := unit.worker.ask request }

def discarded (unit : ExecutionUnit) (job : Job) (rest : List Job) : ExecutionUnit :=
  let worker :=
    { unit.worker with
      queue := rest
      diagnostics := unit.worker.diagnostics.recordProgram true }
  { unit with worker := worker.modifyTicket job.ticket (·.finish {} none true) }

def taken (unit : ExecutionUnit) (job : Job) (rest : List Job) : ExecutionUnit where
  worker := { unit.worker with queue := rest, status := .running }
  memory :=
    { unit.memory with
      events := unit.memory.events.push (.programStarted unit.worker.index job.program.entry) }

/-- Byte address of the entry of a program. -/
def entryAddress (program : Program) : Doubleword :=
  BitVec.ofNat 64 (program.entry * wordBytes)

/-- The unit after it took a program whose image does not fit. -/
def rejected (unit : ExecutionUnit) (job : Job) (rest : List Job) : ExecutionUnit :=
  ((unit.taken job rest).recordFault .dataAbort (entryAddress job.program)).finish
    { program := job.program, ticket := job.ticket, regs := {}, retired := 0 } (some .dataAbort) true

def begun (unit : ExecutionUnit) (job : Job) (rest : List Job) (machine : Machine) :
    ExecutionUnit where
  worker :=
    { (unit.taken job rest).worker.modifyTicket job.ticket (·.begin (machine.frame 0)) with
      current :=
        some { program := job.program, ticket := job.ticket, regs := machine.regs, retired := 0 } }
  memory := machine.memory

/-- The unit after it executed an instruction and reported the given events. -/
def executed (unit : ExecutionUnit) (execution : Execution) (memory : UnitMemory)
    (events : List Event) : ExecutionUnit where
  worker := unit.worker.granted execution
  memory := { memory with events := memory.events.appendList events }

/-- What a unit reports about an instruction before its fault. -/
def fetched (index : Nat) (pc : Doubleword) : Option Word → List Event
  | some word => [.fetch index pc word]
  | none => []

def advanced (unit : ExecutionUnit) (execution : Execution) (group : InstructionGroup)
    (regs : RegisterFile) : ExecutionUnit :=
  { unit with
    worker :=
      { unit.worker with
        current := some { execution with regs, retired := execution.retired + 1 }
        diagnostics := unit.worker.diagnostics.recordRetired group } }

/-- Why a program ends without a fault, and whether it counts as interrupted. -/
inductive Ending (unit : ExecutionUnit) (execution : Execution) : Bool → Prop
  | stopped (hstop : unit.worker.stopRequested = true) : Ending unit execution true
  | left (hstop : unit.worker.stopRequested = false) (hleaves : execution.Leaves) :
      Ending unit execution false
  | abandoned (hstop : unit.worker.stopRequested = false) (hstays : ¬execution.Leaves)
      (hmode : unit.worker.ticketIs execution.ticket (·.mode == .run) = false)
      (hdropped : unit.worker.ticketIs execution.ticket (·.abandoned) = true) :
      Ending unit execution true

/-- Whether the unit executes an instruction of its program next. -/
structure Executes (unit : ExecutionUnit) (execution : Execution) : Prop where
  current : unit.worker.current = some execution
  stopRequested : unit.worker.stopRequested = false
  stays : ¬execution.Leaves
  mode : unit.worker.ticketIs execution.ticket (·.mode == .run) = true ∨
    unit.worker.ticketIs execution.ticket (·.mode == .run) = false ∧
      unit.worker.ticketIs execution.ticket (·.abandoned) = false ∧
        unit.worker.ticketIs execution.ticket (·.pendingSteps == 0) = false

/-- One move of a unit. -/
inductive Move (unit : ExecutionUnit) : ExecutionUnit → Prop
  | idles (hcurrent : unit.worker.current = none) (hqueue : unit.worker.queue = []) :
      Move unit unit
  | discards {job : Job} {rest : List Job} (hcurrent : unit.worker.current = none)
      (hqueue : unit.worker.queue = job :: rest) (hstop : unit.worker.stopRequested = true) :
      Move unit (unit.discarded job rest)
  | rejects {job : Job} {rest : List Job} (hcurrent : unit.worker.current = none)
      (hqueue : unit.worker.queue = job :: rest) (hstop : unit.worker.stopRequested = false)
      (htoolong : unit.memory.hierarchy.size < job.program.length) :
      Move unit (unit.rejected job rest)
  | begins {job : Job} {rest : List Job} {machine : Machine}
      (hcurrent : unit.worker.current = none) (hqueue : unit.worker.queue = job :: rest)
      (hstop : unit.worker.stopRequested = false)
      (hfits : job.program.length ≤ unit.memory.hierarchy.size)
      (hstart : Machine.start job.program (unit.taken job rest).memory = .ok machine) :
      Move unit (unit.begun job rest machine)
  | ends {execution : Execution} {interrupted : Bool}
      (hcurrent : unit.worker.current = some execution)
      (hending : unit.Ending execution interrupted) :
      Move unit (unit.finish execution none interrupted)
  | parks {execution : Execution} (hcurrent : unit.worker.current = some execution)
      (hstop : unit.worker.stopRequested = false) (hstays : ¬execution.Leaves)
      (hmode : unit.worker.ticketIs execution.ticket (·.mode == .run) = false)
      (hheld : unit.worker.ticketIs execution.ticket (·.abandoned) = false)
      (hnone : unit.worker.ticketIs execution.ticket (·.pendingSteps == 0) = true) :
      Move unit { unit with
        worker := unit.worker.modifyTicket execution.ticket
          (·.park (unit.frame execution.regs execution.retired)) }
  | retires {execution : Execution} {pc : Doubleword} {word : Word} {group : InstructionGroup}
      {mnemonic : Mnemonic} {regs : RegisterFile} {memory : UnitMemory}
      (hexecutes : unit.Executes execution)
      (hstep : step execution.regs unit.memory =
        .ok (.retired pc word group mnemonic, regs, memory)) :
      Move unit ((unit.executed execution memory
        [.fetch unit.worker.index pc word, .retire unit.worker.index pc mnemonic]).advanced
          execution group regs)
  | faults {execution : Execution} {pc : Doubleword} {word : Option Word} {cause : FaultCode}
      {regs : RegisterFile} {memory : UnitMemory} (hexecutes : unit.Executes execution)
      (hstep : step execution.regs unit.memory = .ok (.faulted pc word cause, regs, memory)) :
      Move unit (((unit.executed execution memory
        (fetched unit.worker.index pc word)).recordFault cause pc).finish
          { execution with regs } (some cause) true)

variable {unit after : ExecutionUnit}

/-- A unit keeps its index. -/
theorem Move.index_eq (hmove : unit.Move after) : after.worker.index = unit.worker.index := by
  cases hmove with
  | retires => exact unit.worker.index_granted _
  | faults => exact unit.worker.index_granted _
  | _ => rfl

/-- A unit never takes back a request to stop. -/
theorem Move.stopRequested_eq (hmove : unit.Move after) :
    after.worker.stopRequested = unit.worker.stopRequested := by
  cases hmove with
  | retires => exact unit.worker.stopRequested_granted _
  | faults => exact unit.worker.stopRequested_granted _
  | _ => rfl

/-- What becomes of the next program of the queue. -/
theorem next_eq (unit : ExecutionUnit) (job : Job) (rest : List Job) :
    unit.next job rest =
      if unit.worker.stopRequested then .ok (unit.discarded job rest)
      else if unit.memory.hierarchy.size < job.program.length then .ok (unit.rejected job rest)
      else
        Machine.start job.program (unit.taken job rest).memory >>=
          fun machine => pure (unit.begun job rest machine) := by
  obtain ⟨worker, memory⟩ := unit
  obtain ⟨program, ticket⟩ := job
  unfold next start
  simp only [report]
  by_cases hstop : worker.stopRequested = true
  · rw [if_pos hstop, if_pos hstop]
    rfl
  rw [if_neg hstop, if_neg hstop]
  by_cases htoolong : memory.hierarchy.size < program.length
  · simp only [htoolong, if_true]
    rfl
  · simp only [htoolong, if_false, Machine.start, bind_assoc]
    rfl

theorem move_of_next {job : Job} {rest : List Job} (hcurrent : unit.worker.current = none)
    (hqueue : unit.worker.queue = job :: rest) (hnext : unit.next job rest = .ok after) :
    unit.Move after := by
  rw [next_eq] at hnext
  split at hnext
  next hstop =>
    obtain rfl := Except.ok.inj hnext
    exact .discards hcurrent hqueue hstop
  next hstop =>
  rw [Bool.not_eq_true] at hstop
  split at hnext
  next htoolong =>
    obtain rfl := Except.ok.inj hnext
    exact .rejects hcurrent hqueue hstop htoolong
  next hfits =>
    obtain ⟨machine, hstart, hlast⟩ := bind_eq_ok hnext
    obtain rfl := Except.ok.inj hlast
    exact .begins hcurrent hqueue hstop (Nat.le_of_not_lt hfits) hstart

/-- The instruction of a move, or the fault. -/
theorem move_of_advance {execution : Execution} (hexecutes : unit.Executes execution)
    (hadvance : advance { unit with worker := unit.worker.granted execution } execution =
      .ok after) : unit.Move after := by
  obtain ⟨⟨outcome, regs, memory⟩, hstep, hlast⟩ := bind_eq_ok hadvance
  have hindex := unit.worker.index_granted execution
  cases outcome with
  | retired pc word group mnemonic =>
    have hmove := Move.retires hexecutes hstep
    rw [← hindex] at hmove
    obtain rfl := Except.ok.inj hlast
    exact hmove
  | faulted pc word cause =>
    have hmove := Move.faults hexecutes hstep
    rw [← hindex] at hmove
    cases word with
    | none =>
      obtain rfl := Except.ok.inj hlast
      exact hmove
    | some word =>
      obtain rfl := Except.ok.inj hlast
      exact hmove

theorem move_of_atBoundary {execution : Execution}
    (hcurrent : unit.worker.current = some execution)
    (hboundary : unit.atBoundary execution = .ok after) : unit.Move after := by
  unfold atBoundary at hboundary
  simp only at hboundary
  split at hboundary
  next hstop =>
    obtain rfl := Except.ok.inj hboundary
    exact .ends hcurrent (.stopped hstop)
  next hstop =>
  rw [Bool.not_eq_true] at hstop
  split at hboundary
  next hleaves =>
    obtain rfl := Except.ok.inj hboundary
    exact .ends hcurrent (.left hstop hleaves)
  next hstays =>
  split at hboundary
  next hrun =>
    refine move_of_advance ⟨hcurrent, hstop, hstays, .inl hrun⟩ ?_
    rw [Worker.granted, if_pos hrun]
    exact hboundary
  next hmode =>
  split at hboundary
  next hdropped =>
    obtain rfl := Except.ok.inj hboundary
    exact .ends hcurrent (.abandoned hstop hstays (Bool.eq_false_iff.mpr hmode) hdropped)
  next hheld =>
  split at hboundary
  next hnone =>
    obtain rfl := Except.ok.inj hboundary
    exact .parks hcurrent hstop hstays (Bool.eq_false_iff.mpr hmode) (Bool.eq_false_iff.mpr hheld)
      hnone
  next hpending =>
    refine move_of_advance ⟨hcurrent, hstop, hstays, .inr ⟨Bool.eq_false_iff.mpr hmode,
      Bool.eq_false_iff.mpr hheld, Bool.eq_false_iff.mpr hpending⟩⟩ ?_
    rw [Worker.granted, if_neg hmode]
    exact hboundary

/-- Whatever a unit does in a move is one of eight things. -/
theorem move_of_tick (htick : unit.tick = .ok after) : unit.Move after := by
  unfold tick at htick
  split at htick
  next execution hcurrent => exact move_of_atBoundary hcurrent htick
  next job rest hcurrent hqueue => exact move_of_next hcurrent hqueue htick
  next hcurrent hqueue =>
    obtain rfl := Except.ok.inj htick
    exact .idles hcurrent hqueue

end ExecutionUnit

/-- Whether the caches of a unit agree with its RAM, and its regions have the sizes of a map. -/
structure UnitMemory.Sound (map : AddressMap) (memory : UnitMemory) : Prop where
  wellFormed : memory.WellFormed
  coherent : memory.Coherent
  map_eq : memory.map = map

/-- What is reported makes no difference to the caches. -/
theorem UnitMemory.Sound.reporting {map : AddressMap} {memory : UnitMemory}
    (hsound : memory.Sound map) (events : Array Event) : Sound map { memory with events } :=
  ⟨hsound.wellFormed, hsound.coherent, hsound.map_eq⟩

/-- Whatever is served keeps the caches in agreement with RAM. -/
theorem UnitMemory.Sound.of_serves {map : AddressMap} {memory after : UnitMemory} {α : Type}
    {answer value : α} {words : UnitWords} (hsound : memory.Sound map)
    (hserves : memory.Serves answer after value words) : after.Sound map :=
  ⟨hserves.wellFormed, hserves.coherent hsound.coherent, hserves.map_eq.trans hsound.map_eq⟩

/-- The machine of a program whose image fits begins on a clear stack and the loaded image. -/
theorem Machine.start_serves {program : Program} {memory : UnitMemory}
    (hformed : memory.WellFormed) (hfits : program.length ≤ memory.hierarchy.size) :
    ∃ machine, Machine.start program memory = .ok machine ∧
      machine.regs = ExecutionUnit.startRegisters program memory.map ∧
      memory.Serves () machine.memory ()
        (memory.words.resetStack.loadImage program.words.toList) := by
  obtain ⟨cleared, hreset, hcleared⟩ := UnitMemory.resetStack_serves hformed
  have hsize : cleared.hierarchy.size = memory.hierarchy.size :=
    congrArg AddressMap.hierarchyWords hcleared.map_eq
  have himage : program.words.toList.length ≤ cleared.hierarchy.size := by
    rw [Array.length_toList, hsize]
    exact hfits
  obtain ⟨loaded, hload, hloaded⟩ := UnitMemory.loadImage_serves hcleared.wellFormed himage
  refine ⟨⟨ExecutionUnit.startRegisters program loaded.map, loaded⟩, ?_, ?_,
    hcleared.bind (fun _ words => ((), words.loadImage program.words.toList)) hloaded⟩
  · simp only [Machine.start, hreset, bind, Except.bind, hload]
    rfl
  · rw [hloaded.map_eq, hcleared.map_eq]

/-- A program is set up by accesses alone. -/
theorem Machine.start_accessed {program : Program} {memory : UnitMemory} {machine : Machine}
    (hstart : Machine.start program memory = .ok machine) : memory.Accessed machine.memory := by
  obtain ⟨cleared, hreset, hload⟩ := bind_eq_ok hstart
  obtain ⟨_, -, hlast⟩ := bind_eq_ok hload
  obtain rfl := Except.ok.inj hlast
  exact (UnitMemory.resetStack_accessed hreset).trans (UnitMemory.loadImage_accessed rfl)

namespace ExecutionUnit

variable {unit after start : ExecutionUnit} {map : AddressMap}

/-- What a report and an access keep of a well-formed memory is kept by a move. -/
theorem Move.preserves {p : UnitMemory → Prop} (hmove : unit.Move after)
    (hformed : ∀ memory, p memory → memory.WellFormed)
    (hreport : ∀ memory events, p memory → p { memory with events })
    (hserve : ∀ {α : Type} {memory memory' : UnitMemory} {answer value : α} {words : UnitWords},
      p memory → memory.Serves answer memory' value words → p memory')
    (hmemory : p unit.memory) : p after.memory := by
  cases hmove with
  | idles => exact hmemory
  | discards => exact hmemory
  | rejects => exact hreport _ _ (hreport _ _ (hreport _ _ hmemory))
  | ends => exact hreport _ _ hmemory
  | parks => exact hmemory
  | @begins job rest machine hcurrent hqueue hstop hfits hstart =>
    have htaken : p (unit.taken job rest).memory := hreport _ _ hmemory
    obtain ⟨machine', hmachine, -, hserves⟩ := Machine.start_serves (hformed _ htaken) hfits
    obtain rfl := Except.ok.inj (hmachine.symm.trans hstart)
    exact hserve htaken hserves
  | retires hexecutes hstep =>
    obtain ⟨outcome, regs, memory, hstepped, hserves⟩ :=
      UnitMemory.step_serves _ (hformed _ hmemory)
    obtain ⟨-, hlast⟩ := Prod.mk.inj (Except.ok.inj (hstepped.symm.trans hstep))
    obtain ⟨-, rfl⟩ := Prod.mk.inj hlast
    exact hreport _ _ (hserve hmemory hserves)
  | faults hexecutes hstep =>
    obtain ⟨outcome, regs, memory, hstepped, hserves⟩ :=
      UnitMemory.step_serves _ (hformed _ hmemory)
    obtain ⟨-, hlast⟩ := Prod.mk.inj (Except.ok.inj (hstepped.symm.trans hstep))
    obtain ⟨-, rfl⟩ := Prod.mk.inj hlast
    exact hreport _ _ (hreport _ _ (hreport _ _ (hserve hmemory hserves)))

/-- A move keeps the caches of the unit in agreement with RAM. -/
theorem Move.sound (hmove : unit.Move after) (hsound : unit.memory.Sound map) :
    after.memory.Sound map :=
  hmove.preserves (fun _ hmemory => hmemory.wellFormed) (fun _ events hmemory =>
    hmemory.reporting events) (fun hmemory hserves => hmemory.of_serves hserves) hsound

theorem exists_advance (hformed : unit.memory.WellFormed) (execution : Execution) :
    ∃ after, unit.advance execution = .ok after := by
  obtain ⟨outcome, regs, memory, hstep, -⟩ := UnitMemory.step_serves execution.regs hformed
  simp only [advance, hstep, bind, Except.bind]
  cases outcome with
  | retired pc word group mnemonic => exact ⟨_, rfl⟩
  | faulted pc word cause => exact ⟨_, rfl⟩

/-- A unit can always make a move. -/
theorem exists_tick (hformed : unit.memory.WellFormed) : ∃ after, unit.tick = .ok after := by
  unfold tick
  split
  next execution _ =>
    unfold atBoundary
    simp only
    split
    · exact ⟨_, rfl⟩
    split
    · exact ⟨_, rfl⟩
    split
    · exact exists_advance hformed execution
    split
    · exact ⟨_, rfl⟩
    split
    · exact ⟨_, rfl⟩
    · have hgranted :
          UnitMemory.WellFormed { unit with
            worker := unit.worker.modifyTicket execution.ticket (·.takeStep) }.memory := hformed
      exact exists_advance hgranted execution
  next job rest _ _ =>
    rw [next_eq]
    split
    · exact ⟨_, rfl⟩
    split
    · exact ⟨_, rfl⟩
    next hfits =>
      have htaken : (unit.taken job rest).memory.WellFormed := hformed
      obtain ⟨machine, hstart, -⟩ := Machine.start_serves htaken (Nat.le_of_not_lt hfits)
      rw [hstart]
      exact ⟨_, rfl⟩
  · exact ⟨_, rfl⟩

/-- A unit that nobody has asked for anything. -/
structure New (unit : ExecutionUnit) : Prop where
  worker_eq : unit.worker = { index := unit.worker.index }
  memory : unit.memory.Reachable

/-- The states that a unit can come to from `start`, with the requests that were made on the way,
the last one first.  Only those are made that are permitted at that moment. -/
inductive History (permits : Worker → UnitRequest → Prop) (start : ExecutionUnit) :
    List UnitRequest → ExecutionUnit → Prop
  | nothing : History permits start [] start
  | moves {requests : List UnitRequest} {unit after : ExecutionUnit}
      (hunit : History permits start requests unit) (htick : unit.tick = .ok after) :
      History permits start requests after
  | asks {requests : List UnitRequest} {unit : ExecutionUnit}
      (hunit : History permits start requests unit) {request : UnitRequest}
      (hpermits : permits unit.worker request) :
      History permits start (request :: requests) (unit.ask request)

namespace History

variable {permits : Worker → UnitRequest → Prop} {requests : List UnitRequest}

/-- What holds at the start, and is kept by every move and every permitted request, holds in every
state of a history. -/
theorem preserves {invariant : List UnitRequest → ExecutionUnit → Prop}
    (hhistory : History permits start requests unit) (hstart : invariant [] start)
    (hmove : ∀ requests unit after, invariant requests unit → unit.Move after →
      invariant requests after)
    (hask : ∀ requests unit request, invariant requests unit → permits unit.worker request →
      invariant (request :: requests) (unit.ask request)) : invariant requests unit := by
  induction hhistory with
  | nothing => exact hstart
  | moves hunit htick ih => exact hmove _ _ _ ih (move_of_tick htick)
  | asks hunit hpermits ih => exact hask _ _ _ ih hpermits

/-- A history goes on. -/
theorem trans {more : List UnitRequest} (hhistory : History permits start requests unit)
    (hlater : History permits unit more after) :
    History permits start (more ++ requests) after := by
  induction hlater with
  | nothing => exact hhistory
  | moves hunit htick ih => exact ih.moves htick
  | asks hunit hpermits ih => exact ih.asks hpermits

/-- A unit that settles makes moves. -/
theorem settle (hhistory : History permits start requests unit) {fuel : Nat}
    (hsettle : ExecutionUnit.settle fuel unit = .ok after) :
    History permits start requests after := by
  induction fuel generalizing unit with
  | zero =>
    obtain rfl := Except.ok.inj hsettle
    exact hhistory
  | succ fuel ih =>
    rw [ExecutionUnit.settle] at hsettle
    split at hsettle
    · obtain rfl := Except.ok.inj hsettle
      exact hhistory
    · obtain ⟨middle, htick, hrest⟩ := bind_eq_ok hsettle
      exact ih (hhistory.moves htick) hrest

theorem index_eq (hhistory : History permits start requests unit) :
    unit.worker.index = start.worker.index :=
  hhistory.preserves rfl (fun _ _ _ hsame hmove => hmove.index_eq.trans hsame)
    (fun _ later request hsame _ => (later.worker.index_ask request).trans hsame)

theorem sound (hhistory : History permits start requests unit)
    (hstart : start.memory.Sound map) : unit.memory.Sound map :=
  hhistory.preserves hstart (fun _ _ _ hunit hmove => hmove.sound hunit) (fun _ _ _ hunit _ => hunit)

end History

namespace New

variable (hnew : unit.New)

include hnew

theorem sound : unit.memory.Sound unit.memory.map :=
  ⟨hnew.memory.coherent.1, hnew.memory.coherent.2, rfl⟩

theorem queue_eq : unit.worker.queue = [] := congrArg Worker.queue hnew.worker_eq

theorem current_eq : unit.worker.current = none := congrArg Worker.current hnew.worker_eq

theorem tickets_eq : unit.worker.tickets = #[] := congrArg Worker.tickets hnew.worker_eq

end New

/-- A new unit with sixteen words of RAM and a stack of four. -/
def small : ExecutionUnit where
  worker := { index := 0 }
  memory := { hierarchy := .ram (.zeroed "RAM" 16), stack := .zeroed "STACK" 4 }

theorem new_small : small.New := ⟨rfl, .start (.ram _) _ _⟩

end ExecutionUnit

end A64Machine
