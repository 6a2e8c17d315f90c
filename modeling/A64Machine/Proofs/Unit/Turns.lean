import A64Machine.Proofs.Unit.History

/-!
The order in which a unit takes its programs.  Tickets are numbered as their programs are submitted,
and at every moment three groups follow each other: those that have ended, the one that has the unit
if any, and those in the queue.  Requests are made only when the unit waits for one.
-/

namespace A64Machine

/-- Whether a program in one state can come to be in another one. -/
inductive TicketState.Reaches (mode : RunMode) : TicketState → TicketState → Prop
  | stays (state : TicketState) : Reaches mode state state
  | runs (hmode : mode = .run) : Reaches mode .waiting .running
  | parks (hmode : mode = .step) : Reaches mode .waiting .stepInMode
  | ends {before after : TicketState} (hopen : before.isFinished = false)
      (hended : after.isFinished = true) : Reaches mode before after

theorem TicketState.Reaches.trans {mode : RunMode} {first second third : TicketState}
    (hfirst : Reaches mode first second) (hsecond : Reaches mode second third) :
    Reaches mode first third := by
  cases hfirst with
  | stays => exact hsecond
  | runs hmode =>
    cases hsecond with
    | stays => exact .runs hmode
    | ends hopen hended => exact .ends rfl hended
  | parks hmode =>
    cases hsecond with
    | stays => exact .parks hmode
    | ends hopen hended => exact .ends rfl hended
  | ends hopen hended =>
    cases hsecond with
    | stays => exact .ends hopen hended
    | runs => contradiction
    | parks => contradiction
    | ends hopen' => rw [hended] at hopen'; contradiction

namespace Ticket

/-- Whether a ticket can become another one: what it shows of a program that has ended stays. -/
structure Precedes (earlier later : Ticket) : Prop where
  mode_eq : later.mode = earlier.mode
  reaches : TicketState.Reaches earlier.mode earlier.state later.state
  kept : earlier.state.isFinished = true →
    later.state = earlier.state ∧ later.frame = earlier.frame ∧ later.fault = earlier.fault

theorem Precedes.refl (ticket : Ticket) : ticket.Precedes ticket :=
  ⟨rfl, .stays _, fun _ => ⟨rfl, rfl, rfl⟩⟩

theorem Precedes.trans {first second third : Ticket} (hfirst : first.Precedes second)
    (hsecond : second.Precedes third) : first.Precedes third := by
  refine ⟨hsecond.mode_eq.trans hfirst.mode_eq,
    hfirst.reaches.trans (hfirst.mode_eq ▸ hsecond.reaches), fun hended => ?_⟩
  obtain ⟨hstate, hframe, hfault⟩ := hfirst.kept hended
  obtain ⟨hstate', hframe', hfault'⟩ := hsecond.kept (hstate ▸ hended)
  exact ⟨hstate'.trans hstate, hframe'.trans hframe, hfault'.trans hfault⟩

theorem isFinished_finish (ticket : Ticket) (frame : Frame) (fault : Option FaultCode)
    (interrupted : Bool) : (ticket.finish frame fault interrupted).state.isFinished = true := by
  cases interrupted with
  | true => rfl
  | false => rfl

/-- A program that has not ended can end. -/
theorem precedes_finish {ticket : Ticket} (hopen : ticket.state.isFinished = false) (frame : Frame)
    (fault : Option FaultCode) (interrupted : Bool) :
    ticket.Precedes (ticket.finish frame fault interrupted) := by
  refine ⟨rfl, .ends hopen (ticket.isFinished_finish _ _ _), fun hended => ?_⟩
  rw [hopen] at hended
  contradiction

/-- A program in the queue can begin. -/
theorem precedes_begin {ticket : Ticket} (hwaits : ticket.state = .waiting) (frame : Frame) :
    ticket.Precedes (ticket.begin frame) := by
  refine ⟨rfl, ?_, fun hended => ?_⟩
  · rw [hwaits, begin]
    cases hmode : ticket.mode with
    | run => exact .runs rfl
    | step => exact .stays .waiting
  · rw [hwaits] at hended
    contradiction

/-- What the holder of a ticket does to it by letting it go. -/
def letGo (ticket : Ticket) : Ticket :=
  match ticket.mode with
  | .run => ticket
  | .step => { ticket with abandoned := true }

theorem letGo_eq (ticket : Ticket) :
    ticket.letGo = { ticket with abandoned := ticket.letGo.abandoned } := by
  unfold letGo
  split
  · rfl
  · rfl

theorem precedes_letGo (ticket : Ticket) : ticket.Precedes ticket.letGo := by
  rw [letGo_eq]
  exact ⟨rfl, .stays _, fun _ => ⟨rfl, rfl, rfl⟩⟩

/-- The ticket of a program in the queue. -/
structure Queued (ticket : Ticket) : Prop where
  state_eq : ticket.state = .waiting
  fault_eq : ticket.fault = none
  pendingSteps_eq : ticket.pendingSteps = 0
  parked_eq : ticket.parked = false

/-- The ticket of a program that has the unit, where its frame is `frame`, and was granted so many
steps. -/
structure Active (ticket : Ticket) (frame : Frame) (execution : Execution) (granted : Nat) :
    Prop where
  fault_eq : ticket.fault = none
  running : ticket.mode = .run → ticket.state = .running
  stepped : ticket.mode = .step → ticket.state = .waiting ∨ ticket.state = .stepInMode
  retired_eq : ticket.mode = .step → execution.retired + ticket.pendingSteps = granted
  pending_le : ticket.pendingSteps ≤ 1
  pending : ticket.pendingSteps ≠ 0 → ticket.parked = true
  parked : ticket.parked = true → ticket.state = .stepInMode ∧ ¬execution.Leaves ∧
    ticket.frame = frame

/-- The ticket of a program that has ended and was granted so many steps. -/
structure Ended (ticket : Ticket) (granted : Nat) : Prop where
  finished : ticket.state.isFinished = true
  fault : ticket.fault.isSome = true → ticket.state = .interrupted
  pendingSteps_eq : ticket.pendingSteps = 0
  retired_le : ticket.mode = .step → ticket.frame.retired ≤ granted

theorem ended_finish (ticket : Ticket) {frame : Frame} {fault : Option FaultCode}
    {interrupted : Bool} {granted : Nat} (hfault : fault.isSome = true → interrupted = true)
    (hretired : ticket.mode = .step → frame.retired ≤ granted) :
    (ticket.finish frame fault interrupted).Ended granted := by
  refine ⟨ticket.isFinished_finish _ _ _, fun hsome => ?_, rfl, hretired⟩
  rw [finish, hfault hsome]
  rfl

/-- The ticket of the program that left the queue last: it has the unit, or it has ended and no
program has it. -/
inductive Last (ticket : Ticket) (unit : ExecutionUnit) (number granted : Nat) : Prop
  | active {execution : Execution} (hcurrent : unit.worker.current = some execution)
      (hstatus : unit.worker.status = .running) (hnumber : execution.ticket = number)
      (hactive : ticket.Active (unit.frame execution.regs execution.retired) execution granted) :
      Last ticket unit number granted
  | ended (hcurrent : unit.worker.current = none) (hended : ticket.Ended granted) :
      Last ticket unit number granted

variable {ticket : Ticket} {frame shown : Frame} {execution : Execution} {granted : Nat}

/-- A program that has the unit has not ended. -/
theorem Active.isOpen (hactive : ticket.Active shown execution granted) :
    ticket.state.isFinished = false := by
  cases hmode : ticket.mode with
  | run => rw [hactive.running hmode]; rfl
  | step =>
    rcases hactive.stepped hmode with hstate | hstate
    · rw [hstate]; rfl
    · rw [hstate]; rfl

theorem Queued.isOpen (hqueued : ticket.Queued) : ticket.state.isFinished = false := by
  rw [hqueued.state_eq]
  rfl

/-- A program begins. -/
theorem Queued.begin (hqueued : ticket.Queued) (frame : Frame) (hretired : execution.retired = 0) :
    (ticket.begin frame).Active shown execution 0 where
  fault_eq := hqueued.fault_eq
  running hmode := by
    have hmode' : ticket.mode = .run := hmode
    rw [Ticket.begin, hmode']
  stepped hmode := by
    have hmode' : ticket.mode = .step := hmode
    rw [Ticket.begin, hmode']
    exact .inl rfl
  retired_eq _ := by
    rw [hretired, Nat.zero_add]
    exact hqueued.pendingSteps_eq
  pending_le := by
    have hzero : (ticket.begin frame).pendingSteps = 0 := hqueued.pendingSteps_eq
    rw [hzero]
    exact Nat.zero_le 1
  pending hpending := absurd hqueued.pendingSteps_eq hpending
  parked hparked := absurd (hqueued.parked_eq.symm.trans hparked) nofun

/-- Only stepped programs are parked. -/
theorem Active.mode_of_parked (hactive : ticket.Active shown execution granted)
    (hparked : ticket.parked = true) : ticket.mode = .step := by
  obtain ⟨hstate, -, -⟩ := hactive.parked hparked
  cases hmode : ticket.mode with
  | run => exact absurd (hstate.symm.trans (hactive.running hmode)) nofun
  | step => rfl

/-- An instruction retires. -/
theorem Active.spend (hactive : ticket.Active shown execution granted)
    (hsteps : ticket.mode = .step → ticket.pendingSteps ≠ 0) (regs : RegisterFile) :
    ticket.spend.Active frame { execution with regs, retired := execution.retired + 1 } granted := by
  cases hmode : ticket.mode with
  | run =>
    have hnever : ticket.mode ≠ .step := by
      rw [hmode]
      decide
    rw [Ticket.spend, hmode]
    exact ⟨hactive.fault_eq, hactive.running, hactive.stepped, fun hstep => absurd hstep hnever,
      hactive.pending_le, hactive.pending,
      fun hparked => absurd (hactive.mode_of_parked hparked) hnever⟩
  | step =>
    have hone := hactive.pending_le
    have hcount := hactive.retired_eq hmode
    have hpending := hsteps hmode
    rw [Ticket.spend, hmode]
    refine ⟨hactive.fault_eq, hactive.running, hactive.stepped, fun _ => ?_, ?_, fun hleft => ?_,
      fun hparked => absurd hparked Bool.false_ne_true⟩
    · simp only [takeStep]
      omega
    · simp only [takeStep]
      omega
    · simp only [takeStep] at hleft
      omega

/-- A stepped program waits for its next step. -/
theorem Active.park (hactive : ticket.Active shown execution granted) (hmode : ticket.mode = .step)
    (hstays : ¬execution.Leaves) : (ticket.park frame).Active frame execution granted where
  fault_eq := hactive.fault_eq
  running hrun := absurd (hmode.symm.trans hrun) nofun
  stepped _ := .inr rfl
  retired_eq := hactive.retired_eq
  pending_le := hactive.pending_le
  pending _ := rfl
  parked _ := ⟨rfl, hstays, rfl⟩

theorem Active.precedes_park (hactive : ticket.Active shown execution granted)
    (hmode : ticket.mode = .step) (frame : Frame) : ticket.Precedes (ticket.park frame) := by
  refine ⟨rfl, ?_, fun hended => absurd (hactive.isOpen.symm.trans hended) nofun⟩
  rcases hactive.stepped hmode with hstate | hstate
  · rw [hstate]
    exact .parks hmode
  · rw [hstate]
    exact .stays .stepInMode

theorem precedes_spend (ticket : Ticket) : ticket.Precedes ticket.spend := by
  rw [Ticket.spend]
  split
  · exact .refl ticket
  · exact ⟨rfl, .stays _, fun _ => ⟨rfl, rfl, rfl⟩⟩

theorem mode_spend (ticket : Ticket) : ticket.spend.mode = ticket.mode :=
  ticket.precedes_spend.mode_eq

theorem Active.precedes_finish_spend (hactive : ticket.Active shown execution granted) (frame : Frame)
    (fault : Option FaultCode) (interrupted : Bool) :
    ticket.Precedes (ticket.spend.finish frame fault interrupted) := by
  refine ticket.precedes_spend.trans (precedes_finish ?_ frame fault interrupted)
  have hopen := hactive.isOpen
  rw [Ticket.spend]
  split
  · exact hopen
  · exact hopen

/-- A step is granted to a program that waits for it. -/
theorem Active.grant (hactive : ticket.Active shown execution granted) (hparked : ticket.parked = true)
    (hnone : ticket.pendingSteps = 0) :
    (if ticket.canStep then { ticket with pendingSteps := ticket.pendingSteps + 1 }
      else ticket).Active shown execution (granted + 1) := by
  obtain ⟨hstate, -, -⟩ := hactive.parked hparked
  have hmode := hactive.mode_of_parked hparked
  have hcan : ticket.canStep = true := by
    rw [canStep, hmode, hstate, hparked, hnone]
    rfl
  rw [if_pos hcan]
  refine ⟨hactive.fault_eq, hactive.running, hactive.stepped, fun _ => ?_, ?_, fun _ => hparked,
    hactive.parked⟩
  · exact congrArg (· + 1) (hactive.retired_eq hmode)
  · exact Nat.le_of_eq (congrArg (· + 1) hnone)

theorem precedes_grant (ticket : Ticket) :
    ticket.Precedes (if ticket.canStep then { ticket with pendingSteps := ticket.pendingSteps + 1 }
      else ticket) := by
  split
  · exact ⟨rfl, .stays _, fun _ => ⟨rfl, rfl, rfl⟩⟩
  · exact .refl ticket

/-- A program ends. -/
theorem Active.finish (hactive : ticket.Active shown execution granted) {frame : Frame}
    (hretired : frame.retired = execution.retired) {fault : Option FaultCode} {interrupted : Bool}
    (hfault : fault.isSome = true → interrupted = true) :
    (ticket.finish frame fault interrupted).Ended granted := by
  refine ticket.ended_finish hfault fun hmode => ?_
  rw [hretired]
  exact Nat.le.intro (hactive.retired_eq hmode)

end Ticket

/-- What a unit may be asked for: anything while it waits for a request, but a step only of the
program that it has. -/
def Worker.Permits (worker : Worker) : UnitRequest → Prop
  | .step number => worker.isSettled = true ∧ worker.current.map (·.ticket) = some number
  | _ => worker.isSettled = true

instance (worker : Worker) : DecidablePred worker.Permits
  | .step _ => inferInstanceAs (Decidable (_ ∧ _))
  | .submit _ _ => inferInstanceAs (Decidable (_ = _))
  | .drop _ => inferInstanceAs (Decidable (_ = _))
  | .stop => inferInstanceAs (Decidable (_ = _))

theorem modify_modify {α : Type} (values : Array α) (i : Nat) (f g : α → α) :
    (values.modify i f).modify i g = values.modify i fun value => g (f value) := by
  apply Array.ext_getElem?
  intro j
  rw [Array.getElem?_modify, Array.getElem?_modify, Array.getElem?_modify]
  split
  · exact Option.map_map g f values[j]?
  · rfl

namespace ExecutionUnit

/-- The tickets of a unit after some requests, the first so many of which have left the queue. -/
structure Orderly (requests : List UnitRequest) (taken : Nat) (unit : ExecutionUnit) : Prop where
  queue_eq : unit.worker.queue.map (·.ticket) = List.range' taken unit.worker.queue.length
  size_eq : unit.worker.tickets.size = taken + unit.worker.queue.length
  ungranted : ∀ number, taken ≤ number → requests.count (.step number) = 0
  queued : ∀ number ticket, unit.worker.tickets[number]? = some ticket → taken ≤ number →
    ticket.Queued
  active : ∀ execution, unit.worker.current = some execution →
    unit.worker.status = .running ∧ execution.ticket + 1 = taken ∧
    ∃ ticket, unit.worker.tickets[execution.ticket]? = some ticket ∧
      ticket.Active (unit.frame execution.regs execution.retired) execution
        (requests.count (.step execution.ticket))
  ended : ∀ number ticket, unit.worker.tickets[number]? = some ticket → number < taken →
    (∀ execution, unit.worker.current = some execution → execution.ticket ≠ number) →
    ticket.Ended (requests.count (.step number))

theorem Executes.pendingSteps_ne {unit : ExecutionUnit} {execution : Execution}
    (hexecutes : unit.Executes execution) {ticket : Ticket}
    (hticket : unit.worker.tickets[execution.ticket]? = some ticket) (hmode : ticket.mode = .step) :
    ticket.pendingSteps ≠ 0 := by
  have hsteps := hexecutes.mode
  simp only [Worker.ticketIs_eq hticket, hmode] at hsteps
  rcases hsteps with hrun | ⟨-, -, hpending⟩
  · contradiction
  · exact of_decide_eq_false hpending

/-- Whether every ticket of a unit can have become that of another one. -/
def Precedes (earlier later : ExecutionUnit) : Prop :=
  ∀ (number : Nat) (ticket : Ticket), earlier.worker.tickets[number]? = some ticket →
    ∃ ticket', later.worker.tickets[number]? = some ticket' ∧ ticket.Precedes ticket'

theorem Precedes.trans {first second third : ExecutionUnit} (hfirst : first.Precedes second)
    (hsecond : second.Precedes third) : first.Precedes third := by
  intro number ticket hticket
  obtain ⟨ticket', hticket', hprecedes⟩ := hfirst number ticket hticket
  obtain ⟨ticket'', hticket'', hprecedes'⟩ := hsecond number ticket' hticket'
  exact ⟨ticket'', hticket'', hprecedes.trans hprecedes'⟩

variable {unit after : ExecutionUnit} {requests : List UnitRequest} {taken : Nat}

theorem precedes_of_tickets_eq (htickets : after.worker.tickets = unit.worker.tickets) :
    unit.Precedes after := by
  intro number ticket hticket
  exact ⟨ticket, htickets ▸ hticket, .refl ticket⟩

/-- One ticket is new. -/
theorem precedes_of_push {ticket : Ticket}
    (htickets : after.worker.tickets = unit.worker.tickets.push ticket) : unit.Precedes after := by
  intro number old hold
  have hbound := (Array.getElem?_eq_some_iff.mp hold).1
  refine ⟨old, ?_, .refl old⟩
  rw [htickets, Array.getElem?_push, if_neg (Nat.ne_of_lt hbound)]
  exact hold

/-- One ticket changes. -/
theorem precedes_of_modify {changed : Nat} {f : Ticket → Ticket}
    (htickets : after.worker.tickets = unit.worker.tickets.modify changed f)
    (hchanges : ∀ ticket, unit.worker.tickets[changed]? = some ticket → ticket.Precedes (f ticket)) :
    unit.Precedes after := by
  intro number ticket hticket
  rw [htickets, Array.getElem?_modify, hticket]
  split
  next hsame => exact ⟨f ticket, rfl, hchanges ticket (hsame ▸ hticket)⟩
  next => exact ⟨ticket, rfl, .refl ticket⟩

namespace Orderly

/-- The program that has the unit, with its ticket. -/
theorem active_of_current (horderly : unit.Orderly requests taken) {execution : Execution}
    (hcurrent : unit.worker.current = some execution)
    {ticket : Ticket}
    (hticket : unit.worker.tickets[execution.ticket]? = some ticket) :
    ticket.Active (unit.frame execution.regs execution.retired) execution
      (requests.count (.step execution.ticket)) := by
  obtain ⟨-, -, old, hold, hactive⟩ := horderly.active execution hcurrent
  obtain rfl := Option.some.inj (hold.symm.trans hticket)
  exact hactive

/-- The first program of the queue has the next number. -/
theorem head (horderly : unit.Orderly requests taken) {job : Job} {rest : List Job}
    (hqueue : unit.worker.queue = job :: rest) :
    job.ticket = taken ∧ rest.map (·.ticket) = List.range' (taken + 1) rest.length ∧
      unit.worker.tickets.size = taken + 1 + rest.length ∧
      ∃ ticket, unit.worker.tickets[taken]? = some ticket ∧ ticket.Queued := by
  have hnumbers := horderly.queue_eq
  have hsize := horderly.size_eq
  rw [hqueue, List.length_cons] at hsize
  rw [hqueue, List.map_cons, List.length_cons, List.range'_succ] at hnumbers
  obtain ⟨hfirst, hrest⟩ := List.cons.inj hnumbers
  have hbound : taken < unit.worker.tickets.size := by omega
  have hticket := Array.getElem?_eq_getElem hbound
  exact ⟨hfirst, hrest, by omega, _, hticket, horderly.queued _ _ hticket (Nat.le_refl _)⟩

/-- The tickets around the one that left the queue last. -/
theorem of_last {number : Nat} {ticket : Ticket}
    (hqueue : after.worker.queue.map (·.ticket) =
      List.range' (number + 1) after.worker.queue.length)
    (hsize : after.worker.tickets.size = number + 1 + after.worker.queue.length)
    (hungranted : ∀ i, number < i → requests.count (.step i) = 0)
    (hqueued : ∀ i ticket, after.worker.tickets[i]? = some ticket → number < i → ticket.Queued)
    (hended : ∀ i ticket, after.worker.tickets[i]? = some ticket → i < number →
      ticket.Ended (requests.count (.step i)))
    (hticket : after.worker.tickets[number]? = some ticket)
    (hlast : ticket.Last after number (requests.count (.step number))) :
    after.Orderly requests (number + 1) := by
  refine ⟨hqueue, hsize, hungranted, hqueued, ?_, ?_⟩
  · intro execution hexecution
    cases hlast with
    | ended hnone => exact absurd (hnone.symm.trans hexecution) nofun
    | @active current hcurrent hstatus hsame hactive =>
      obtain rfl := Option.some.inj (hcurrent.symm.trans hexecution)
      rw [hsame]
      exact ⟨hstatus, rfl, ticket, hticket, hactive⟩
  · intro i old hold hlt hother
    rcases Nat.lt_succ_iff_lt_or_eq.mp hlt with hbefore | rfl
    · exact hended i old hold hbefore
    · obtain rfl := Option.some.inj (hticket.symm.trans hold)
      cases hlast with
      | ended hnone hended => exact hended
      | active hcurrent hstatus hsame => exact absurd hsame (hother _ hcurrent)

theorem getElem?_of_modify {number : Nat} {f : Ticket → Ticket}
    (htickets : after.worker.tickets = unit.worker.tickets.modify number f) {i : Nat}
    (hother : i ≠ number) : after.worker.tickets[i]? = unit.worker.tickets[i]? := by
  rw [htickets, Array.getElem?_modify, if_neg (Ne.symm hother)]

theorem getElem?_of_modify_self {number : Nat} {f : Ticket → Ticket}
    (htickets : after.worker.tickets = unit.worker.tickets.modify number f) {old : Ticket}
    (hold : unit.worker.tickets[number]? = some old) :
    after.worker.tickets[number]? = some (f old) := by
  rw [htickets, Array.getElem?_modify, if_pos rfl, hold]
  rfl

/-- A program leaves the queue. -/
theorem takes (horderly : unit.Orderly requests taken) (hcurrent : unit.worker.current = none)
    {job : Job} {rest : List Job} (hqueue : unit.worker.queue = job :: rest)
    {f : Ticket → Ticket} (htickets : after.worker.tickets = unit.worker.tickets.modify job.ticket f)
    (hrest : after.worker.queue = rest)
    (hlast : ∀ ticket : Ticket, ticket.Queued →
      ticket.Precedes (f ticket) ∧ (f ticket).Last after job.ticket 0) :
    unit.Precedes after ∧ ∃ taken, after.Orderly requests taken := by
  obtain ⟨hnumber, hnumbers, hsize, old, hold, hqueued⟩ := horderly.head hqueue
  rw [hnumber] at htickets hlast
  have hgranted := horderly.ungranted taken (Nat.le_refl _)
  refine ⟨precedes_of_modify htickets fun ticket hticket => ?_, taken + 1, of_last ?_ ?_ ?_ ?_ ?_
    (getElem?_of_modify_self htickets hold) (hgranted.symm ▸ (hlast old hqueued).2)⟩
  · exact (hlast ticket (horderly.queued taken ticket hticket (Nat.le_refl _))).1
  · rw [hrest]
    exact hnumbers
  · rw [htickets, Array.size_modify, hrest]
    exact hsize
  · exact fun i hlt => horderly.ungranted i (Nat.le_of_lt hlt)
  · intro i ticket hticket hlt
    rw [getElem?_of_modify htickets (Nat.ne_of_gt hlt)] at hticket
    exact horderly.queued i ticket hticket (Nat.le_of_lt hlt)
  · intro i ticket hticket hlt
    rw [getElem?_of_modify htickets (Nat.ne_of_lt hlt)] at hticket
    refine horderly.ended i ticket hticket hlt fun execution hexecution => ?_
    exact absurd (hcurrent.symm.trans hexecution) nofun

/-- The program that has the unit goes on or ends. -/
theorem changes (horderly : unit.Orderly requests taken) {execution : Execution}
    (hcurrent : unit.worker.current = some execution) {f : Ticket → Ticket}
    (htickets : after.worker.tickets = unit.worker.tickets.modify execution.ticket f)
    (hqueue : after.worker.queue = unit.worker.queue) {requests' : List UnitRequest}
    (hcount : ∀ number, number ≠ execution.ticket →
      requests'.count (.step number) = requests.count (.step number))
    (hlast : ∀ ticket, unit.worker.tickets[execution.ticket]? = some ticket →
      ticket.Active (unit.frame execution.regs execution.retired) execution
        (requests.count (.step execution.ticket)) →
      ticket.Precedes (f ticket) ∧
        (f ticket).Last after execution.ticket (requests'.count (.step execution.ticket))) :
    unit.Precedes after ∧ ∃ taken, after.Orderly requests' taken := by
  obtain ⟨-, rfl, old, hold, hactive⟩ := horderly.active execution hcurrent
  refine ⟨precedes_of_modify htickets fun ticket hticket => ?_, _, of_last ?_ ?_ ?_ ?_ ?_
    (getElem?_of_modify_self htickets hold) (hlast old hold hactive).2⟩
  · exact (hlast ticket hticket (horderly.active_of_current hcurrent hticket)).1
  · rw [hqueue]
    exact horderly.queue_eq
  · rw [htickets, Array.size_modify, hqueue]
    exact horderly.size_eq
  · intro i hlt
    rw [hcount i (Nat.ne_of_gt hlt)]
    exact horderly.ungranted i hlt
  · intro i ticket hticket hlt
    rw [getElem?_of_modify htickets (Nat.ne_of_gt hlt)] at hticket
    exact horderly.queued i ticket hticket hlt
  · intro i ticket hticket hlt
    rw [getElem?_of_modify htickets (Nat.ne_of_lt hlt)] at hticket
    rw [hcount i (Nat.ne_of_lt hlt)]
    refine horderly.ended i ticket hticket (Nat.lt_succ_of_lt hlt) fun current hexecution => ?_
    obtain rfl := Option.some.inj (hcurrent.symm.trans hexecution)
    exact Nat.ne_of_gt hlt

end Orderly

theorem tickets_discarded (unit : ExecutionUnit) (job : Job) (rest : List Job) :
    (unit.discarded job rest).worker.tickets =
      unit.worker.tickets.modify job.ticket (·.finish {} none true) := rfl

theorem tickets_rejected (unit : ExecutionUnit) (job : Job) (rest : List Job) :
    (unit.rejected job rest).worker.tickets = unit.worker.tickets.modify job.ticket
      (·.finish ((unit.taken job rest).frame {} 0) (some .dataAbort) true) := rfl

theorem tickets_begun (unit : ExecutionUnit) (job : Job) (rest : List Job) (machine : Machine) :
    (unit.begun job rest machine).worker.tickets =
      unit.worker.tickets.modify job.ticket (·.begin (machine.frame 0)) := rfl

theorem tickets_finish (unit : ExecutionUnit) (execution : Execution) (fault : Option FaultCode)
    (interrupted : Bool) :
    (unit.finish execution fault interrupted).worker.tickets =
      unit.worker.tickets.modify execution.ticket
        (·.finish (unit.frame execution.regs execution.retired) fault interrupted) := rfl

theorem tickets_faulted (unit : ExecutionUnit) (execution : Execution) (memory : UnitMemory)
    (events : List Event) (cause : FaultCode) (pc : Doubleword) (regs : RegisterFile) :
    (((unit.executed execution memory events).recordFault cause pc).finish
      { execution with regs } (some cause) true).worker.tickets =
      unit.worker.tickets.modify execution.ticket fun ticket => ticket.spend.finish
        (.capture regs execution.retired memory.stack.words) (some cause) true := by
  change (unit.worker.granted execution).tickets.modify execution.ticket
    (·.finish (.capture regs execution.retired memory.stack.words) (some cause) true) = _
  rw [Worker.tickets_granted, modify_modify]

/-- What a move does to the tickets, if it does anything: the first program of those that have not
ended begins, goes on or ends, and no other ticket changes. -/
inductive Change (unit after : ExecutionUnit) : Nat → (Ticket → Ticket) → Prop
  | takes {job : Job} {rest : List Job} {f : Ticket → Ticket}
      (hcurrent : unit.worker.current = none) (hqueue : unit.worker.queue = job :: rest)
      (htickets : after.worker.tickets = unit.worker.tickets.modify job.ticket f)
      (hrest : after.worker.queue = rest)
      (hlast : ∀ ticket : Ticket, ticket.Queued →
        ticket.Precedes (f ticket) ∧ (f ticket).Last after job.ticket 0) :
      Change unit after job.ticket f
  | keeps {execution : Execution} {f : Ticket → Ticket}
      (hcurrent : unit.worker.current = some execution)
      (htickets : after.worker.tickets = unit.worker.tickets.modify execution.ticket f)
      (hqueue : after.worker.queue = unit.worker.queue)
      (hlast : ∀ ticket granted, unit.worker.tickets[execution.ticket]? = some ticket →
        ticket.Active (unit.frame execution.regs execution.retired) execution granted →
        ticket.Precedes (f ticket) ∧ (f ticket).Last after execution.ticket granted) :
      Change unit after execution.ticket f

theorem Move.change (hmove : unit.Move after)
    (hstatus : ∀ execution, unit.worker.current = some execution → unit.worker.status = .running) :
    after = unit ∨ ∃ number f, unit.Change after number f := by
  cases hmove with
  | idles => exact .inl rfl
  | @discards job rest hcurrent hqueue =>
    refine .inr ⟨_, _, .takes hcurrent hqueue (unit.tickets_discarded job rest) rfl
      fun ticket hqueued => ⟨?_, ?_⟩⟩
    · exact Ticket.precedes_finish hqueued.isOpen _ _ _
    · exact .ended hcurrent (ticket.ended_finish nofun fun _ => Nat.le_refl 0)
  | @rejects job rest hcurrent hqueue =>
    refine .inr ⟨_, _, .takes hcurrent hqueue (unit.tickets_rejected job rest) rfl
      fun ticket hqueued => ⟨?_, ?_⟩⟩
    · exact Ticket.precedes_finish hqueued.isOpen _ _ _
    · exact .ended rfl (ticket.ended_finish (fun _ => rfl) fun _ => Nat.le_refl 0)
  | @begins job rest machine hcurrent hqueue =>
    refine .inr ⟨_, _, .takes hcurrent hqueue (unit.tickets_begun job rest machine) rfl
      fun ticket hqueued => ⟨?_, ?_⟩⟩
    · exact Ticket.precedes_begin hqueued.state_eq _
    · exact .active rfl rfl rfl (hqueued.begin _ rfl)
  | @ends execution interrupted hcurrent =>
    refine .inr ⟨_, _, .keeps hcurrent (unit.tickets_finish execution none interrupted) rfl
      fun ticket granted _ hactive => ⟨?_, ?_⟩⟩
    · exact Ticket.precedes_finish hactive.isOpen _ _ _
    · exact .ended rfl (hactive.finish rfl nofun)
  | @parks execution hcurrent hstop hstays hmode =>
    refine .inr ⟨_, (·.park (unit.frame execution.regs execution.retired)),
      .keeps hcurrent rfl rfl fun ticket granted hticket hactive => ?_⟩
    have hstepped : ticket.mode = .step := by
      rw [Worker.ticketIs_eq hticket] at hmode
      cases hstep : ticket.mode with
      | run => rw [hstep] at hmode; contradiction
      | step => rfl
    refine ⟨hactive.precedes_park hstepped _, ?_⟩
    exact .active hcurrent (hstatus execution hcurrent) rfl (hactive.park hstepped hstays)
  | @retires execution pc word group mnemonic regs memory hexecutes hstep =>
    have hcurrent := hexecutes.current
    refine .inr ⟨_, _, .keeps hcurrent (unit.worker.tickets_granted execution)
      (unit.worker.queue_granted execution)
      fun ticket granted hticket hactive => ⟨ticket.precedes_spend, ?_⟩⟩
    refine .active rfl ?_ rfl (hactive.spend (hexecutes.pendingSteps_ne hticket) regs)
    exact (unit.worker.status_granted execution).trans (hstatus execution hcurrent)
  | @faults execution pc word cause regs memory hexecutes hstep =>
    refine .inr ⟨_, _, .keeps hexecutes.current (unit.tickets_faulted execution memory _ cause pc regs)
      (unit.worker.queue_granted execution)
      fun ticket granted hticket hactive => ⟨hactive.precedes_finish_spend _ _ _, ?_⟩⟩
    refine .ended rfl (ticket.spend.ended_finish (fun _ => rfl) fun hmode => ?_)
    exact Nat.le.intro (hactive.retired_eq (ticket.mode_spend ▸ hmode))

/-- A move keeps the order. -/
theorem Move.orderly (hmove : unit.Move after) (horderly : unit.Orderly requests taken) :
    unit.Precedes after ∧ ∃ taken, after.Orderly requests taken := by
  have hstatus : ∀ execution, unit.worker.current = some execution →
      unit.worker.status = .running :=
    fun execution hcurrent => (horderly.active execution hcurrent).1
  rcases hmove.change hstatus with rfl | ⟨number, f, hchange⟩
  · exact ⟨precedes_of_tickets_eq rfl, taken, horderly⟩
  cases hchange with
  | takes hcurrent hqueue htickets hrest hlast =>
    exact horderly.takes hcurrent hqueue htickets hrest hlast
  | keeps hcurrent htickets hqueue hlast =>
    exact horderly.changes hcurrent htickets hqueue (fun _ _ => rfl)
      fun ticket hticket hactive => hlast ticket _ hticket hactive

namespace Orderly

/-- Only the steps that were asked for matter. -/
theorem of_count_eq (horderly : unit.Orderly requests taken) {requests' : List UnitRequest}
    (hcount : ∀ number, requests'.count (.step number) = requests.count (.step number)) :
    unit.Orderly requests' taken where
  queue_eq := horderly.queue_eq
  size_eq := horderly.size_eq
  ungranted number hle := (hcount number).trans (horderly.ungranted number hle)
  queued := horderly.queued
  active execution hcurrent := by
    rw [hcount]
    exact horderly.active execution hcurrent
  ended number := by
    rw [hcount]
    exact horderly.ended number

/-- A program that is submitted waits behind the others. -/
theorem accepts (horderly : unit.Orderly requests taken) (program : Program) (mode : RunMode) :
    Orderly requests taken { unit with
      worker := { unit.worker with
        tickets := unit.worker.tickets.push { mode }
        queue := unit.worker.queue ++ [{ program, ticket := unit.worker.tickets.size }] } } := by
  have hsize := horderly.size_eq
  have hkept {number : Nat} (hne : number ≠ unit.worker.tickets.size) :
      (unit.worker.tickets.push { mode })[number]? = unit.worker.tickets[number]? := by
    rw [Array.getElem?_push, if_neg hne]
  refine ⟨?_, ?_, horderly.ungranted, ?_, ?_, ?_⟩
  · rw [List.map_append, horderly.queue_eq, List.length_append, List.length_singleton,
      List.range'_1_concat, List.map_singleton, hsize]
  · rw [Array.size_push, List.length_append, List.length_singleton, hsize, Nat.add_assoc]
  · intro number ticket hticket hle
    by_cases hnew : number = unit.worker.tickets.size
    · subst hnew
      obtain rfl := Option.some.inj (Array.getElem?_push_size.symm.trans hticket)
      exact ⟨rfl, rfl, rfl, rfl⟩
    · exact horderly.queued number ticket ((hkept hnew).symm.trans hticket) hle
  · intro execution hcurrent
    obtain ⟨hstatus, hnumber, ticket, hticket, hactive⟩ := horderly.active execution hcurrent
    exact ⟨hstatus, hnumber, ticket, (hkept (by omega)).trans hticket, hactive⟩
  · intro number ticket hticket hlt
    exact horderly.ended number ticket ((hkept (by omega)).symm.trans hticket) hlt

/-- A program that is refused has ended. -/
theorem refuses (horderly : unit.Orderly requests taken) (hcurrent : unit.worker.current = none)
    (hqueue : unit.worker.queue = []) (mode : RunMode) :
    Orderly requests (taken + 1) { unit with
      worker := { unit.worker with
        tickets := unit.worker.tickets.push (Ticket.finish { mode } {} none true) } } := by
  have hsize := horderly.size_eq
  rw [hqueue, List.length_nil, Nat.add_zero] at hsize
  have hkept {number : Nat} (hne : number ≠ taken) :
      (unit.worker.tickets.push (Ticket.finish { mode } {} none true))[number]? =
        unit.worker.tickets[number]? := by
    rw [Array.getElem?_push, hsize, if_neg hne]
  refine ⟨?_, ?_, ?_, ?_, ?_, ?_⟩
  · rw [hqueue]
    rfl
  · rw [hqueue, Array.size_push, hsize]
    rfl
  · exact fun number hle => horderly.ungranted number (by omega)
  · intro number ticket hticket hle
    have hold := (hkept (by omega)).symm.trans hticket
    exact horderly.queued number ticket hold (by omega)
  · intro execution hexecution
    exact absurd (hcurrent.symm.trans hexecution) nofun
  · intro number ticket hticket hlt hother
    by_cases hnew : number = taken
    · subst hnew
      rw [← hsize] at hticket
      obtain rfl := Option.some.inj (Array.getElem?_push_size.symm.trans hticket)
      exact Ticket.ended_finish _ nofun fun _ => Nat.zero_le _
    · exact horderly.ended number ticket ((hkept hnew).symm.trans hticket) (by omega) hother

/-- What becomes of the tickets when a program is submitted: a unit that was stopped while it had a
program refuses, and then its queue is empty. -/
theorem submit (horderly : unit.Orderly requests taken) (hsettled : unit.worker.isSettled = true)
    (program : Program) (mode : RunMode) :
    unit.Precedes (unit.ask (.submit program mode)) ∧
      ∃ taken, (unit.ask (.submit program mode)).Orderly (.submit program mode :: requests) taken := by
  have hcounted : unit.Orderly (.submit program mode :: requests) taken :=
    horderly.of_count_eq fun number => List.count_cons_of_ne (by nofun)
  rw [ExecutionUnit.ask, Worker.ask, Worker.submit]
  split
  next => exact ⟨precedes_of_push rfl, taken, hcounted.accepts program mode⟩
  next hrefuses =>
    have hcurrent : unit.worker.current = none := by
      cases hcurrent : unit.worker.current with
      | none => rfl
      | some execution =>
        rw [(horderly.active execution hcurrent).1] at hrefuses
        exact absurd rfl hrefuses
    have hqueue : unit.worker.queue = [] := by
      rw [Worker.isSettled, hcurrent] at hsettled
      exact List.isEmpty_iff.mp hsettled
    exact ⟨precedes_of_push rfl, taken + 1, hcounted.refuses hcurrent hqueue mode⟩

/-- A request to stop changes no ticket. -/
theorem stop (horderly : unit.Orderly requests taken) :
    unit.Precedes (unit.ask .stop) ∧ (unit.ask .stop).Orderly (.stop :: requests) taken := by
  have hcounted : unit.Orderly (.stop :: requests) taken :=
    horderly.of_count_eq fun number => List.count_cons_of_ne (by nofun)
  exact ⟨precedes_of_tickets_eq rfl, hcounted.queue_eq, hcounted.size_eq, hcounted.ungranted,
    hcounted.queued, hcounted.active, hcounted.ended⟩

/-- A ticket that is let go shows the same. -/
theorem drop (horderly : unit.Orderly requests taken) (number : Nat) :
    unit.Precedes (unit.ask (.drop number)) ∧
      (unit.ask (.drop number)).Orderly (.drop number :: requests) taken := by
  have hcounted : unit.Orderly (.drop number :: requests) taken :=
    horderly.of_count_eq fun number => List.count_cons_of_ne (by nofun)
  have htickets : (unit.ask (.drop number)).worker.tickets =
      unit.worker.tickets.modify number Ticket.letGo := rfl
  have hkept {i : Nat} {ticket : Ticket}
      (hticket : (unit.ask (.drop number)).worker.tickets[i]? = some ticket) :
      ∃ old held, unit.worker.tickets[i]? = some old ∧ ticket = { old with abandoned := held } := by
    rw [htickets, Array.getElem?_modify] at hticket
    split at hticket
    · obtain ⟨old, hold, rfl⟩ := Option.map_eq_some_iff.mp hticket
      exact ⟨old, _, hold, old.letGo_eq⟩
    · exact ⟨ticket, ticket.abandoned, hticket, rfl⟩
  refine ⟨precedes_of_modify htickets fun ticket _ => ticket.precedes_letGo, hcounted.queue_eq, ?_,
    hcounted.ungranted, ?_, ?_, ?_⟩
  · rw [htickets, Array.size_modify]
    exact hcounted.size_eq
  · intro i ticket hticket hle
    obtain ⟨old, held, hold, rfl⟩ := hkept hticket
    obtain ⟨hstate, hfault, hpending, hparked⟩ := hcounted.queued i old hold hle
    exact ⟨hstate, hfault, hpending, hparked⟩
  · intro execution hcurrent
    obtain ⟨hstatus, hlast, old, hold, hactive⟩ := hcounted.active execution hcurrent
    have hbound : execution.ticket < (unit.worker.tickets.modify number Ticket.letGo).size := by
      rw [Array.size_modify]
      exact (Array.getElem?_eq_some_iff.mp hold).1
    have hticket := Array.getElem?_eq_getElem hbound
    obtain ⟨old', held, hold', hsame⟩ := hkept hticket
    obtain rfl := Option.some.inj (hold.symm.trans hold')
    refine ⟨hstatus, hlast, _, hticket, ?_⟩
    rw [hsame]
    exact ⟨hactive.fault_eq, hactive.running, hactive.stepped, hactive.retired_eq,
      hactive.pending_le, hactive.pending, hactive.parked⟩
  · intro i ticket hticket hlt hother
    obtain ⟨old, held, hold, rfl⟩ := hkept hticket
    obtain ⟨hfinished, hfault, hpending, hretired⟩ := hcounted.ended i old hold hlt hother
    exact ⟨hfinished, hfault, hpending, hretired⟩

/-- A step is granted to the program that the unit has. -/
theorem step (horderly : unit.Orderly requests taken) {number : Nat}
    (hpermits : unit.worker.Permits (.step number)) :
    unit.Precedes (unit.ask (.step number)) ∧
      ∃ taken, (unit.ask (.step number)).Orderly (.step number :: requests) taken := by
  obtain ⟨hsettled, hnumber⟩ := hpermits
  obtain ⟨execution, hcurrent, rfl⟩ := Option.map_eq_some_iff.mp hnumber
  have htickets : (unit.ask (.step execution.ticket)).worker.tickets =
      unit.worker.tickets.modify execution.ticket fun ticket =>
        if ticket.canStep then { ticket with pendingSteps := ticket.pendingSteps + 1 }
        else ticket := rfl
  refine horderly.changes hcurrent htickets rfl (fun other hother => ?_)
    fun ticket hticket hactive => ⟨ticket.precedes_grant, ?_⟩
  · exact List.count_cons_of_ne fun hsame => hother (UnitRequest.step.inj hsame).symm
  · rw [Worker.isSettled, hcurrent] at hsettled
    simp only [Worker.ticketIs_eq hticket, Bool.and_eq_true, beq_iff_eq] at hsettled
    obtain ⟨-, ⟨hparked, hnone⟩, -⟩ := hsettled
    rw [List.count_cons_self]
    exact .active hcurrent (horderly.active execution hcurrent).1 rfl (hactive.grant hparked hnone)

/-- A permitted request keeps the order. -/
theorem ask (horderly : unit.Orderly requests taken) {request : UnitRequest}
    (hpermits : unit.worker.Permits request) :
    unit.Precedes (unit.ask request) ∧
      ∃ taken, (unit.ask request).Orderly (request :: requests) taken := by
  cases request with
  | submit program mode => exact horderly.submit hpermits program mode
  | step number => exact horderly.step hpermits
  | drop number => exact (horderly.drop number).imp_right fun hafter => ⟨taken, hafter⟩
  | stop => exact horderly.stop.imp_right fun hafter => ⟨taken, hafter⟩

end Orderly

namespace History

variable {start later : ExecutionUnit} {more : List UnitRequest}

/-- In every history the unit takes its programs in order. -/
theorem orderly (hhistory : History Worker.Permits start requests unit) (hnew : start.New) :
    ∃ taken, unit.Orderly requests taken := by
  induction hhistory with
  | nothing =>
    refine ⟨0, ?_, ?_, fun _ _ => rfl, ?_, ?_, ?_⟩
    · rw [hnew.queue_eq]
      rfl
    · rw [hnew.queue_eq, hnew.tickets_eq]
      rfl
    · intro number ticket hticket
      rw [hnew.tickets_eq] at hticket
      exact absurd hticket nofun
    · intro execution hexecution
      exact absurd (hnew.current_eq.symm.trans hexecution) nofun
    · exact fun number _ _ hlt => absurd hlt (Nat.not_lt_zero number)
  | moves hunit htick ih =>
    obtain ⟨taken, horderly⟩ := ih
    exact ((move_of_tick htick).orderly horderly).2
  | asks hunit hpermits ih =>
    obtain ⟨taken, horderly⟩ := ih
    exact (horderly.ask hpermits).2

/-- What a unit shows of its programs later on is what can become of what it shows now. -/
theorem precedes (hlater : History Worker.Permits unit more later)
    (hhistory : History Worker.Permits start requests unit) (hnew : start.New) :
    unit.Precedes later := by
  induction hlater with
  | nothing => exact precedes_of_tickets_eq rfl
  | moves hmiddle htick ih =>
    obtain ⟨taken, horderly⟩ := (hhistory.trans hmiddle).orderly hnew
    exact ih.trans ((move_of_tick htick).orderly horderly).1
  | asks hmiddle hpermits ih =>
    obtain ⟨taken, horderly⟩ := (hhistory.trans hmiddle).orderly hnew
    exact ih.trans (horderly.ask hpermits).1

end History

end ExecutionUnit

end A64Machine
