import A64Machine.Proofs.Unit.Roster

/-!
What becomes of a unit that is asked to stop while it has no program, or while it waits for a step
of the one it has.  From then on it executes nothing.  It lets go of its programs one after the
other, and of those submitted later too: each of them is interrupted and shows what it showed when
the unit was asked to stop.
-/

namespace A64Machine

/-- What a request to stop can make of a ticket: its program is interrupted, unless it has ended, and
shows the same frame and fault. -/
structure Ticket.Halts (before after : Ticket) : Prop where
  mode_eq : after.mode = before.mode
  state : after.state = before.state ∨ before.state.isFinished = false ∧ after.state = .interrupted
  frame_eq : after.frame = before.frame
  fault_eq : after.fault = before.fault

namespace Ticket

variable {first second third before after : Ticket}

theorem Halts.refl (ticket : Ticket) : ticket.Halts ticket :=
  ⟨rfl, .inl rfl, rfl, rfl⟩

theorem Halts.trans (hfirst : first.Halts second) (hsecond : second.Halts third) :
    first.Halts third := by
  refine ⟨hsecond.mode_eq.trans hfirst.mode_eq, ?_, hsecond.frame_eq.trans hfirst.frame_eq,
    hsecond.fault_eq.trans hfirst.fault_eq⟩
  rcases hsecond.state with hsame | ⟨hopen, hinterrupted⟩
  · rw [hsame]
    exact hfirst.state
  · refine .inr ⟨?_, hinterrupted⟩
    rcases hfirst.state with hsame | ⟨hopen', -⟩
    · rwa [hsame] at hopen
    · exact hopen'

theorem Halts.interrupted (hhalts : before.Halts after) (hopen : before.state.isFinished = false)
    (hended : after.state.isFinished = true) : after.state = .interrupted := by
  rcases hhalts.state with hsame | ⟨-, hinterrupted⟩
  · rw [hsame, hopen] at hended
    contradiction
  · exact hinterrupted

/-- A program that has not ended is let go. -/
theorem halts_finish (hopen : before.state.isFinished = false) (hfault : before.fault = none) :
    before.Halts (before.finish before.frame none true) :=
  ⟨rfl, .inr ⟨hopen, rfl⟩, rfl, hfault.symm⟩

theorem halts_grant (ticket : Ticket) : ticket.Halts (if ticket.canStep then
    { ticket with pendingSteps := ticket.pendingSteps + 1 } else ticket) := by
  split
  · exact ⟨rfl, .inl rfl, rfl, rfl⟩
  · exact .refl ticket

theorem halts_letGo (ticket : Ticket) : ticket.Halts ticket.letGo := by
  rw [letGo_eq]
  exact ⟨rfl, .inl rfl, rfl, rfl⟩

/-- A step of a program that was interrupted without a fault is refused. -/
theorem refusal_of_interrupted {ticket : Ticket} (hstate : ticket.state = .interrupted)
    (hfault : ticket.fault = none) : ticket.refusal = .stopped := by
  rw [refusal, hstate, hfault]

end Ticket

/-- Whether a worker has no program, or the one it has is parked. -/
def Worker.atRest (worker : Worker) : Bool :=
  worker.current.all fun execution => worker.ticketIs execution.ticket (·.parked)

namespace ExecutionUnit

variable {unit later after start origin : ExecutionUnit} {taken : List Nat} {execution : Execution}

/-- The unit after a move, once it was asked to stop: it lets go of the first of its programs. -/
def halted (unit : ExecutionUnit) : ExecutionUnit :=
  match unit.worker.current, unit.worker.queue with
  | some execution, _ => unit.finish execution none true
  | none, job :: rest => unit.discarded job rest
  | none, [] => unit

theorem halted_of_current (hcurrent : unit.worker.current = some execution) :
    unit.halted = unit.finish execution none true := by
  rw [halted, hcurrent]

theorem halted_of_queue {job : Job} {rest : List Job} (hcurrent : unit.worker.current = none)
    (hqueue : unit.worker.queue = job :: rest) : unit.halted = unit.discarded job rest := by
  rw [halted, hcurrent, hqueue]

theorem halted_of_nothing (hcurrent : unit.worker.current = none)
    (hqueue : unit.worker.queue = []) : unit.halted = unit := by
  rw [halted, hcurrent, hqueue]

theorem tick_of_stopped (hstop : unit.worker.stopRequested = true) :
    unit.tick = .ok unit.halted := by
  cases hcurrent : unit.worker.current with
  | some execution =>
    rw [halted_of_current hcurrent, tick, hcurrent]
    simp only [atBoundary, hstop, if_true]
    rfl
  | none =>
    cases hqueue : unit.worker.queue with
    | nil =>
      rw [halted_of_nothing hcurrent hqueue, tick, hcurrent, hqueue]
      rfl
    | cons job rest =>
      rw [halted_of_queue hcurrent hqueue, tick, hcurrent, hqueue]
      simp only [next_eq, hstop, if_true]

theorem pending_halted (unit : ExecutionUnit) :
    unit.halted.worker.pending = unit.worker.pending.tail := by
  cases hcurrent : unit.worker.current with
  | some execution =>
    rw [halted_of_current hcurrent, Worker.pending, Worker.pending, hcurrent]
    rfl
  | none =>
    cases hqueue : unit.worker.queue with
    | nil =>
      rw [halted_of_nothing hcurrent hqueue, Worker.pending, hcurrent, hqueue]
      rfl
    | cons job rest =>
      have hdiscarded : (unit.discarded job rest).worker.current = none := hcurrent
      rw [halted_of_queue hcurrent hqueue, Worker.pending, Worker.pending, hcurrent, hqueue,
        hdiscarded]
      rfl

/-- A unit that was asked to stop settles when it has no program left. -/
theorem isSettled_iff_of_stopped (hstop : unit.worker.stopRequested = true) :
    unit.worker.isSettled = true ↔ unit.worker.pending = [] := by
  cases hcurrent : unit.worker.current with
  | some execution => simp [Worker.isSettled, Worker.pending, hcurrent, hstop]
  | none => simp [Worker.isSettled, Worker.pending, hcurrent]

theorem stopRequested_halted (hstop : unit.worker.stopRequested = true) :
    unit.halted.worker.stopRequested = true :=
  (move_of_tick (tick_of_stopped hstop)).stopRequested_eq.trans hstop

theorem settle_of_stopped (hstop : unit.worker.stopRequested = true)
    (hopen : unit.worker.isSettled = false) (fuel : Nat) :
    settle (fuel + 1) unit = settle fuel unit.halted := by
  rw [settle_succ hopen, tick_of_stopped hstop]
  rfl

/-- A unit that was asked to stop settles in one move for each of its programs. -/
theorem exists_settle_of_stopped (hstop : unit.worker.stopRequested = true) {fuel : Nat}
    (hfuel : unit.worker.pending.length ≤ fuel) :
    ∃ settled, settle fuel unit = .ok settled ∧ settled.worker.isSettled = true := by
  induction fuel generalizing unit with
  | zero =>
    refine ⟨unit, rfl, (isSettled_iff_of_stopped hstop).mpr ?_⟩
    exact List.eq_nil_of_length_eq_zero (Nat.le_zero.mp hfuel)
  | succ fuel ih =>
    cases hsettled : unit.worker.isSettled with
    | true => exact ⟨unit, settle_of_isSettled hsettled _, hsettled⟩
    | false =>
      rw [settle_of_stopped hstop hsettled]
      apply ih (stopRequested_halted hstop)
      rw [pending_halted, List.length_tail]
      omega

/-- Whether a unit shows of the program that it has where it is. -/
def UpToDate (unit : ExecutionUnit) : Prop :=
  ∀ execution, unit.worker.current = some execution →
    ∃ ticket, unit.worker.tickets[execution.ticket]? = some ticket ∧
      ticket.frame = unit.frame execution.regs execution.retired

/-- A unit at rest that has a program has parked it. -/
theorem Roster.parked_of_atRest (hroster : unit.Roster taken) (hrest : unit.worker.atRest = true)
    (hcurrent : unit.worker.current = some execution) :
    ∃ ticket, unit.worker.tickets[execution.ticket]? = some ticket ∧ ¬execution.Leaves ∧
      ticket.frame = unit.frame execution.regs execution.retired := by
  have hpending : execution.ticket ∈ unit.worker.pending :=
    Worker.mem_pending_iff.mpr (.inl ⟨execution, hcurrent, rfl⟩)
  have hticket := Array.getElem?_eq_getElem (hroster.lt_size hpending)
  obtain ⟨granted, hactive⟩ := (hroster.active execution hcurrent).2.2 _ hticket
  rw [Worker.atRest, hcurrent, Option.all_some, Worker.ticketIs_eq hticket] at hrest
  exact ⟨_, hticket, (hactive.parked hrest).2⟩

theorem Roster.upToDate (hroster : unit.Roster taken) (hrest : unit.worker.atRest = true) :
    unit.UpToDate := by
  intro execution hcurrent
  obtain ⟨ticket, hticket, -, hframe⟩ := hroster.parked_of_atRest hrest hcurrent
  exact ⟨ticket, hticket, hframe⟩

/-- What a unit can have become, as `later`, since it was asked to stop, as `unit`: the program that
it had is still under way or was let go of. -/
structure Halting (unit later : ExecutionUnit) : Prop where
  stopRequested : later.worker.stopRequested = true
  index_eq : later.worker.index = unit.worker.index
  hierarchy_eq : later.memory.hierarchy = unit.memory.hierarchy
  stack_eq : later.memory.stack = unit.memory.stack
  retired_eq : later.worker.diagnostics.instructionsRetired =
    unit.worker.diagnostics.instructionsRetired
  program : later.worker.current = unit.worker.current ∧ later.worker.status = unit.worker.status ∧
      later.memory.events = unit.memory.events ∨
    unit.worker.current.isSome = true ∧ later.worker.current = none ∧
      later.worker.status = .interrupted ∧
      later.memory.events = unit.memory.events.push (.programFinished unit.worker.index true)
  size_le : unit.worker.tickets.size ≤ later.worker.tickets.size
  tickets : ∀ (number : Nat) (ticket : Ticket), later.worker.tickets[number]? = some ticket →
    Ticket.Halts (unit.worker.tickets[number]?.getD { mode := ticket.mode }) ticket

namespace Halting

theorem begins (unit : ExecutionUnit) : Halting unit (unit.ask .stop) where
  stopRequested := rfl
  index_eq := rfl
  hierarchy_eq := rfl
  stack_eq := rfl
  retired_eq := rfl
  program := .inl ⟨rfl, rfl, rfl⟩
  size_le := Nat.le_refl _
  tickets number ticket hticket := by
    have hsame : unit.worker.tickets[number]? = some ticket := hticket
    rw [hsame]
    exact .refl ticket

theorem size_le_of_modify (hhalting : Halting unit later) {changed : Nat} {f : Ticket → Ticket}
    (htickets : after.worker.tickets = later.worker.tickets.modify changed f) :
    unit.worker.tickets.size ≤ after.worker.tickets.size := by
  rw [htickets, Array.size_modify]
  exact hhalting.size_le

/-- A ticket changes only in ways that a request to stop allows. -/
theorem tickets_of_modify (hhalting : Halting unit later) {changed : Nat} {f : Ticket → Ticket}
    (htickets : after.worker.tickets = later.worker.tickets.modify changed f)
    (hhalts : ∀ ticket, later.worker.tickets[changed]? = some ticket → ticket.Halts (f ticket))
    {number : Nat} {ticket : Ticket} (hticket : after.worker.tickets[number]? = some ticket) :
    Ticket.Halts (unit.worker.tickets[number]?.getD { mode := ticket.mode }) ticket := by
  rw [htickets, Array.getElem?_modify] at hticket
  split at hticket
  next hsame =>
    obtain ⟨old, hold, rfl⟩ := Option.map_eq_some_iff.mp hticket
    have hold' := hhalts old (hsame ▸ hold)
    rw [hold'.mode_eq]
    exact (hhalting.tickets number old hold).trans hold'
  next => exact hhalting.tickets number ticket hticket

/-- A ticket is new. -/
theorem tickets_of_push (hhalting : Halting unit later) {new : Ticket}
    (htickets : after.worker.tickets = later.worker.tickets.push new)
    (hnew : Ticket.Halts { mode := new.mode } new) {number : Nat} {ticket : Ticket}
    (hticket : after.worker.tickets[number]? = some ticket) :
    Ticket.Halts (unit.worker.tickets[number]?.getD { mode := ticket.mode }) ticket := by
  rw [htickets, Array.getElem?_push] at hticket
  split at hticket
  next hlast =>
    obtain rfl := Option.some.inj hticket
    rw [Array.getElem?_eq_none (hlast ▸ hhalting.size_le)]
    exact hnew
  next => exact hhalting.tickets number ticket hticket

theorem ask (hhalting : Halting unit later) (request : UnitRequest) :
    Halting unit (later.ask request) := by
  cases request with
  | submit program mode =>
    rw [ExecutionUnit.ask, Worker.ask, Worker.submit]
    split
    · refine { hhalting with size_le := ?_, tickets := fun _ _ => hhalting.tickets_of_push rfl ?_ }
      · rw [Array.size_push]
        exact Nat.le_succ_of_le hhalting.size_le
      · exact .refl _
    · refine { hhalting with size_le := ?_, tickets := fun _ _ => hhalting.tickets_of_push rfl ?_ }
      · rw [Array.size_push]
        exact Nat.le_succ_of_le hhalting.size_le
      · exact Ticket.halts_finish rfl rfl
  | step number =>
    have htickets : (later.ask (.step number)).worker.tickets =
        later.worker.tickets.modify number fun ticket =>
          if ticket.canStep then { ticket with pendingSteps := ticket.pendingSteps + 1 }
          else ticket := rfl
    exact { hhalting with
      size_le := hhalting.size_le_of_modify htickets
      tickets := fun _ _ => hhalting.tickets_of_modify htickets fun ticket _ => ticket.halts_grant }
  | drop number =>
    have htickets : (later.ask (.drop number)).worker.tickets =
        later.worker.tickets.modify number Ticket.letGo := rfl
    exact { hhalting with
      size_le := hhalting.size_le_of_modify htickets
      tickets := fun _ _ => hhalting.tickets_of_modify htickets fun ticket _ => ticket.halts_letGo }
  | stop => exact { hhalting with stopRequested := rfl }

/-- The program that the unit has is the one it had when it was asked to stop. -/
theorem of_current (hhalting : Halting unit later) (hcurrent : later.worker.current = some execution) :
    unit.worker.current = some execution ∧ later.memory.events = unit.memory.events := by
  rcases hhalting.program with ⟨hsame, -, hevents⟩ | ⟨-, hnone, -⟩
  · exact ⟨hsame.symm.trans hcurrent, hevents⟩
  · exact absurd (hnone.symm.trans hcurrent) nofun

/-- The program that the unit has shows still where it was when the unit was asked to stop. -/
theorem upToDate (hhalting : Halting unit later) (hshows : unit.UpToDate) : later.UpToDate := by
  intro execution hcurrent
  obtain ⟨old, hold, hframe⟩ := hshows execution (hhalting.of_current hcurrent).1
  have hbound := (Array.getElem?_eq_some_iff.mp hold).1
  have hticket := Array.getElem?_eq_getElem (Nat.lt_of_lt_of_le hbound hhalting.size_le)
  have hhalts := hhalting.tickets _ _ hticket
  rw [hold, Option.getD_some] at hhalts
  refine ⟨_, hticket, hhalts.frame_eq.trans (hframe.trans ?_)⟩
  rw [frame, frame, hhalting.stack_eq]

/-- A program is let go of. -/
theorem halted (hhalting : Halting unit later) (hshows : unit.UpToDate)
    (hroster : later.Roster taken) : Halting unit later.halted := by
  have hstop := stopRequested_halted hhalting.stopRequested
  cases hcurrent : later.worker.current with
  | some execution =>
    obtain ⟨hsame, hevents⟩ := hhalting.of_current hcurrent
    obtain ⟨shown, hshown, hframe⟩ := hhalting.upToDate hshows execution hcurrent
    rw [halted_of_current hcurrent] at hstop ⊢
    refine { hhalting with
      stopRequested := hstop
      program := .inr ⟨?_, rfl, if_pos hhalting.stopRequested, ?_⟩
      size_le := hhalting.size_le_of_modify (tickets_finish _ _ _ _)
      tickets := fun _ _ => hhalting.tickets_of_modify (tickets_finish _ _ _ _) ?_ }
    · rw [hsame]
      rfl
    · change later.memory.events.push (.programFinished later.worker.index true) = _
      rw [hevents, hhalting.index_eq]
    · intro old hold
      obtain rfl := Option.some.inj (hshown.symm.trans hold)
      obtain ⟨granted, hactive⟩ := (hroster.active execution hcurrent).2.2 shown hold
      rw [← hframe]
      exact Ticket.halts_finish hactive.isOpen hactive.fault_eq
  | none =>
    cases hqueue : later.worker.queue with
    | nil =>
      rw [halted_of_nothing hcurrent hqueue]
      exact hhalting
    | cons job rest =>
      rw [halted_of_queue hcurrent hqueue] at hstop ⊢
      refine { hhalting with
        stopRequested := hstop
        size_le := hhalting.size_le_of_modify (tickets_discarded _ _ _)
        tickets := fun _ _ => hhalting.tickets_of_modify (tickets_discarded _ _ _) ?_ }
      intro old hold
      have huntouched : old.Untouched := by
        refine hroster.waiting job.ticket old ?_ hold
        rw [hqueue]
        exact List.mem_cons_self
      rw [← huntouched.frame_eq]
      exact Ticket.halts_finish huntouched.queued.isOpen huntouched.queued.fault_eq

end Halting

variable {permits : Worker → UnitRequest → Prop} {requests more : List UnitRequest}

/-- Whatever a unit that was asked to stop is asked for, and whenever. -/
theorem History.halting (hlater : History permits after more later)
    (hhalting : Halting unit after) (hshows : unit.UpToDate) (hroster : ∃ taken, after.Roster taken) :
    Halting unit later ∧ after.Precedes later ∧ ∃ taken, later.Roster taken := by
  induction hlater with
  | nothing => exact ⟨hhalting, precedes_of_tickets_eq rfl, hroster⟩
  | moves hunit htick ih =>
    obtain ⟨hmiddle, hprecedes, taken, hroster⟩ := ih
    obtain ⟨hmove, hafter⟩ := (move_of_tick htick).roster hroster
    obtain rfl := Except.ok.inj ((tick_of_stopped hmiddle.stopRequested).symm.trans htick)
    exact ⟨hmiddle.halted hshows hroster, hprecedes.trans hmove, _, hafter⟩
  | asks hunit hpermits ih =>
    obtain ⟨hmiddle, hprecedes, taken, hroster⟩ := ih
    exact ⟨hmiddle.ask _, hprecedes.trans (precedes_ask _ _), taken, hroster.ask _⟩

/-- Whether a program had not ended when the unit was asked to stop; it can be submitted later. -/
def Open (unit : ExecutionUnit) (number : Nat) : Prop :=
  ∀ ticket : Ticket, unit.worker.tickets[number]? = some ticket → ticket.state.isFinished = false

/-- What a unit that was asked to stop, as `unit`, shows of a program that had not ended. -/
structure LetGo (unit settled : ExecutionUnit) (number : Nat) (ticket : Ticket) : Prop where
  state_eq : ticket.state = .interrupted
  fault_eq : ticket.fault = none
  parked : ∀ execution, unit.worker.current = some execution → execution.ticket = number →
    ∃ old : Ticket, unit.worker.tickets[number]? = some old ∧ ticket.frame = old.frame
  waiting : (∀ execution, unit.worker.current = some execution → execution.ticket ≠ number) →
    ticket.frame = {}
  refuses : ∀ fuel, settled.stepTicket fuel number = .ok (some (.error .stopped), settled)

/-- What has become of a unit, as `later`, since it was asked to stop, as `unit`. -/
structure Halted (unit later : ExecutionUnit) : Prop where
  hierarchy_eq : later.memory.hierarchy = unit.memory.hierarchy
  stack_eq : later.memory.stack = unit.memory.stack
  retired_eq : later.worker.diagnostics.instructionsRetired =
    unit.worker.diagnostics.instructionsRetired
  events : later.memory.events = unit.memory.events ∨
    later.memory.events = unit.memory.events.push (.programFinished unit.worker.index true)
  current : ∀ execution, later.worker.current = some execution →
    unit.worker.current = some execution
  kept : ∀ (number : Nat) (old : Ticket), unit.worker.tickets[number]? = some old →
    old.state.isFinished = true → ∃ ticket : Ticket, later.worker.tickets[number]? = some ticket ∧
      ticket.state = old.state ∧ ticket.frame = old.frame ∧ ticket.fault = old.fault
  letsGo : ∀ fuel, later.worker.pending.length ≤ fuel →
    ∃ settled, settle fuel later = .ok settled ∧ settled.worker.isSettled = true ∧
      ∀ (number : Nat) (ticket : Ticket), settled.worker.tickets[number]? = some ticket →
        unit.Open number →
        unit.LetGo settled number ticket
  refuses : ∀ number fuel answer settled, unit.Open number →
    later.stepTicket (fuel + 1) number = .ok (some answer, settled) → answer = .error .stopped
  stop_eq : later.ask .stop = later

/-- What the ticket of a program that had not ended showed, also if it is submitted later. -/
theorem Roster.shown_of_open (hroster : unit.Roster taken) {number : Nat} (hopen : unit.Open number)
    (mode : RunMode) {before : Ticket}
    (hbefore : before = unit.worker.tickets[number]?.getD { mode }) :
    before.state.isFinished = false ∧ before.fault = none ∧
      ((∀ execution, unit.worker.current = some execution → execution.ticket ≠ number) →
        before.frame = {}) := by
  cases hticket : unit.worker.tickets[number]? with
  | none =>
    rw [hticket, Option.getD_none] at hbefore
    rw [hbefore]
    exact ⟨rfl, rfl, fun _ => rfl⟩
  | some old =>
    rw [hticket, Option.getD_some] at hbefore
    rw [hbefore]
    have hpending : number ∈ unit.worker.pending := Decidable.byContradiction fun hover =>
      absurd ((hopen old hticket).symm.trans ((hroster.isFinished_iff hticket).mpr hover)) nofun
    obtain ⟨hstate, hfault⟩ := hroster.isOpen hpending hticket
    refine ⟨hstate, hfault, fun hother => ?_⟩
    rcases hroster.untouched_or_active hpending hticket with huntouched | ⟨_, _, hcurrent, hsame, -⟩
    · exact huntouched.frame_eq
    · exact absurd hsame (hother _ hcurrent)

namespace Halting

variable {number : Nat} {ticket : Ticket}

/-- A program that had not ended ends without a fault, interrupted. -/
theorem interrupted (hhalting : Halting unit later) (hroster : unit.Roster taken)
    (hopen : unit.Open number) (hticket : later.worker.tickets[number]? = some ticket)
    (hfinished : ticket.state.isFinished = true) :
    ticket.state = .interrupted ∧ ticket.fault = none := by
  obtain ⟨hstate, hfault, -⟩ := hroster.shown_of_open hopen ticket.mode rfl
  have hhalts := hhalting.tickets number ticket hticket
  exact ⟨hhalts.interrupted hstate hfinished, hhalts.fault_eq.trans hfault⟩

/-- A step of a program that had not ended is refused once it has. -/
theorem stepTicket_eq (hhalting : Halting unit later) (hroster : unit.Roster taken)
    (hopen : unit.Open number) (hticket : later.worker.tickets[number]? = some ticket)
    (hfinished : ticket.state.isFinished = true) (fuel : Nat) :
    later.stepTicket fuel number = .ok (some (.error .stopped), later) := by
  obtain ⟨hstate, hfault⟩ := hhalting.interrupted hroster hopen hticket hfinished
  rw [stepTicket, hticket]
  simp only [hfinished, if_true, Ticket.refusal_of_interrupted hstate hfault]
  rfl

/-- When the unit has let go of all its programs. -/
theorem letGo (hhalting : Halting unit later) (hshows : unit.UpToDate) (hroster : unit.Roster taken)
    {taken' : List Nat} (hlater : later.Roster taken') (hsettled : later.worker.isSettled = true)
    (hopen : unit.Open number) (hticket : later.worker.tickets[number]? = some ticket) :
    unit.LetGo later number ticket := by
  have hnone := (isSettled_iff_of_stopped hhalting.stopRequested).mp hsettled
  have hfinished : ticket.state.isFinished = true := by
    rw [hlater.isFinished_iff hticket, hnone]
    exact List.not_mem_nil
  obtain ⟨hstate, hfault⟩ := hhalting.interrupted hroster hopen hticket hfinished
  have hframe := (hhalting.tickets number ticket hticket).frame_eq
  refine ⟨hstate, hfault, ?_, fun hother => ?_,
    hhalting.stepTicket_eq hroster hopen hticket hfinished⟩
  · rintro execution hcurrent rfl
    obtain ⟨old, hold, -⟩ := hshows execution hcurrent
    rw [hold, Option.getD_some] at hframe
    exact ⟨old, hold, hframe⟩
  · exact hframe.trans ((hroster.shown_of_open hopen ticket.mode rfl).2.2 hother)

/-- The unit lets go of the program that it has in one move. -/
theorem interrupted_of_settle (hhalting : Halting unit later) (hshows : unit.UpToDate)
    (hroster : unit.Roster taken) {taken' : List Nat} (hlater : later.Roster taken')
    (hcurrent : later.worker.current = some execution) (hopen : unit.Open execution.ticket)
    {fuel : Nat} {settled : ExecutionUnit} (hsettle : settle (fuel + 1) later = .ok settled) :
    ∃ ticket, settled.worker.tickets[execution.ticket]? = some ticket ∧
      ticket.state = .interrupted ∧ ticket.fault = none := by
  have hstop := hhalting.stopRequested
  have hunsettled : later.worker.isSettled = false := by
    rw [Bool.eq_false_iff, ne_eq, isSettled_iff_of_stopped hstop, Worker.pending, hcurrent]
    exact List.cons_ne_nil _ _
  rw [settle_of_stopped hstop hunsettled] at hsettle
  obtain ⟨-, hafter⟩ := (move_of_tick (tick_of_stopped hstop)).roster hlater
  have hhistory : History (fun _ _ => True) later.halted [] settled :=
    History.nothing.settle hsettle
  obtain ⟨hsettled, hprecedes, -⟩ :=
    hhistory.halting (hhalting.halted hshows hlater) hshows ⟨_, hafter⟩
  obtain ⟨old, hold, -⟩ := hhalting.upToDate hshows execution hcurrent
  have hended := later.tickets_finish execution none true
  rw [← halted_of_current hcurrent] at hended
  obtain ⟨ticket, hticket, hprecedes⟩ :=
    hprecedes _ _ (Orderly.getElem?_of_modify_self hended hold)
  refine ⟨ticket, hticket, hsettled.interrupted hroster hopen hticket ?_⟩
  rw [(hprecedes.kept (old.isFinished_finish _ _ _)).1]
  exact old.isFinished_finish _ _ _

/-- A step is refused, whenever it is asked for. -/
theorem refuses (hhalting : Halting unit later) (hshows : unit.UpToDate) (hroster : unit.Roster taken)
    {taken' : List Nat} (hlater : later.Roster taken') (hopen : unit.Open number) {fuel : Nat}
    {answer : Except StepError Frame} {settled : ExecutionUnit}
    (hstep : later.stepTicket (fuel + 1) number = .ok (some answer, settled)) :
    answer = .error .stopped := by
  cases hticket : later.worker.tickets[number]? with
  | none =>
    rw [stepTicket, hticket] at hstep
    exact absurd (Prod.mk.inj (Except.ok.inj hstep)).1 nofun
  | some ticket =>
    by_cases hfinished : ticket.state.isFinished = true
    · rw [hhalting.stepTicket_eq hroster hopen hticket hfinished] at hstep
      exact (Option.some.inj (Prod.mk.inj (Except.ok.inj hstep)).1).symm
    have hpending : number ∈ later.worker.pending := Decidable.byContradiction fun hover =>
      hfinished ((hlater.isFinished_iff hticket).mpr hover)
    rw [stepTicket, hticket] at hstep
    simp only [if_neg hfinished] at hstep
    rcases hlater.untouched_or_active hpending hticket with
      huntouched | ⟨execution, granted, hcurrent, rfl, hactive⟩
    · rw [huntouched.queued.canStep_eq] at hstep
      exact absurd (Prod.mk.inj (Except.ok.inj hstep)).1 nofun
    split at hstep
    · exact absurd (Prod.mk.inj (Except.ok.inj hstep)).1 nofun
    obtain ⟨after, hsettle, hlast⟩ := bind_eq_ok hstep
    obtain ⟨ended, hended, hstate, hfault⟩ := (hhalting.ask (.step _)).interrupted_of_settle
      hshows hroster (hlater.ask _) hcurrent hopen hsettle
    have hanswer := (Prod.mk.inj (Except.ok.inj hlast)).1
    rw [hended, Option.map_some, if_pos hstate, Ticket.refusal_of_interrupted hstate hfault] at hanswer
    exact (Option.some.inj hanswer).symm

end Halting

section

variable (hnew : start.New) (hhistory : History permits start requests unit)
  (hrest : unit.worker.atRest = true) (hlater : History permits (unit.ask .stop) more later)

include hnew hhistory hrest hlater

/-- What is true of every unit that was asked to stop while it had no program or waited for a step,
however much it was used before and is asked for afterwards. -/
theorem Halting.of_history : Halting unit later ∧ unit.Precedes later ∧ unit.UpToDate ∧
    (∃ taken, unit.Roster taken) ∧ ∃ taken, later.Roster taken := by
  obtain ⟨taken, hrecord⟩ := hhistory.exists_record
  have hroster := hrecord.roster hnew
  have hshows := hroster.upToDate hrest
  obtain ⟨hhalting, hprecedes, hafter⟩ :=
    hlater.halting (.begins unit) hshows ⟨taken, hroster.ask .stop⟩
  exact ⟨hhalting, (unit.precedes_ask .stop).trans hprecedes, hshows, ⟨taken, hroster⟩, hafter⟩

/-- Nothing runs after a stop. -/
theorem nothing_runs_after_stop : unit.Halted later := by
  obtain ⟨hhalting, hprecedes, hshows, ⟨taken, hroster⟩, taken', hafter⟩ :=
    Halting.of_history hnew hhistory hrest hlater
  constructor
  case hierarchy_eq => exact hhalting.hierarchy_eq
  case stack_eq => exact hhalting.stack_eq
  case retired_eq => exact hhalting.retired_eq
  case events => exact hhalting.program.imp (·.2.2) (·.2.2.2)
  case current => exact fun execution hcurrent => (hhalting.of_current hcurrent).1
  case kept =>
    intro number old hold hfinished
    obtain ⟨ticket, hticket, hkept⟩ := hprecedes number old hold
    exact ⟨ticket, hticket, hkept.kept hfinished⟩
  case letsGo =>
    intro fuel hfuel
    obtain ⟨settled, hsettle, hsettled⟩ := exists_settle_of_stopped hhalting.stopRequested hfuel
    obtain ⟨hhalting, -, taken'', hafter⟩ :=
      (hlater.settle hsettle).halting (.begins unit) hshows ⟨taken, hroster.ask .stop⟩
    exact ⟨settled, hsettle, hsettled, fun number ticket hticket hopen =>
      hhalting.letGo hshows hroster hafter hsettled hopen hticket⟩
  case refuses =>
    exact fun _ _ _ _ hopen hstep => hhalting.refuses hshows hroster hafter hopen hstep
  case stop_eq =>
    have hstop := hhalting.stopRequested
    obtain ⟨worker, memory⟩ := later
    obtain ⟨⟩ := worker
    subst hstop
    rfl

end

/-- One program has ended, one was stepped once and waits for its next step, and one is in the
queue when the unit is asked to stop; another one is submitted afterwards. -/
theorem nothing_runs_after_stop_parked :
    let requests : List UnitRequest := [.step 1, .submit .branchLadder .run,
      .submit .countdownSum .step, .submit .branchLadder .run]
    ∃ start unit later : ExecutionUnit, start.New ∧
      History (fun _ _ => True) start requests unit ∧ unit.worker.atRest = true ∧
      unit.worker.tickets.map (·.state) = #[.ready, .stepInMode, .waiting] ∧
      History (fun _ _ => True) (unit.ask .stop) [.submit .branchLadder .step] later ∧
      unit.Halted later := by
  intro requests
  let asked := ((small.ask (.submit .branchLadder .run)).ask (.submit .countdownSum .step)).ask
    (.submit .branchLadder .run)
  have hruns : (settle 20 asked).toOption.any (fun parked =>
      (settle 2 (parked.ask (.step 1))).toOption.any fun unit =>
        unit.worker.atRest = true ∧
          unit.worker.tickets.map (·.state) = #[.ready, .stepInMode, .waiting]) = true := by
    decide +kernel
  obtain ⟨parked, hparked, hrest⟩ := (Option.any_eq_true _ _).mp hruns
  obtain ⟨unit, hunit, hrest⟩ := (Option.any_eq_true _ _).mp hrest
  obtain ⟨hrest, hstates⟩ := of_decide_eq_true hrest
  have hasked : History (fun _ _ => True) small requests.tail asked :=
    .asks (.asks (.asks .nothing trivial) trivial) trivial
  have hhistory : History (fun _ _ => True) small requests unit :=
    ((hasked.settle (eq_ok_of_toOption hparked)).asks trivial).settle (eq_ok_of_toOption hunit)
  have hlater : History (fun _ _ => True) (unit.ask .stop) [.submit .branchLadder .step] _ :=
    .asks .nothing trivial
  exact ⟨small, unit, _, new_small, hhistory, hrest, hstates, hlater,
    nothing_runs_after_stop new_small hhistory hrest hlater⟩

/-- A unit that was asked to stop settles, whatever was submitted to it since then.  Then it is
interrupted if it had a program when it was asked; otherwise its status is the one that it had,
which is idle unless it was asked before. -/
theorem status_after_stop (hnew : start.New) (hhistory : History permits start requests unit)
    (hrest : unit.worker.atRest = true) (hlater : History permits (unit.ask .stop) more later)
    {fuel : Nat} (hfuel : later.worker.pending.length ≤ fuel) :
    ∃ settled, settle fuel later = .ok settled ∧ settled.worker.isSettled = true ∧
      (unit.worker.current.isSome = true → settled.worker.status = .interrupted) ∧
      (unit.worker.current = none → settled.worker.status = unit.worker.status ∧
        (unit.worker.stopRequested = false → settled.worker.status = .idle)) := by
  obtain ⟨hhalting, -, hshows, ⟨taken, hroster⟩, -⟩ :=
    Halting.of_history hnew hhistory hrest hlater
  obtain ⟨settled, hsettle, hsettled⟩ := exists_settle_of_stopped hhalting.stopRequested hfuel
  obtain ⟨hhalting, -, -⟩ :=
    (hlater.settle hsettle).halting (.begins unit) hshows ⟨taken, hroster.ask .stop⟩
  have hnone := (isSettled_iff_of_stopped hhalting.stopRequested).mp hsettled
  refine ⟨settled, hsettle, hsettled, ?_⟩
  rcases hhalting.program with ⟨hsame, hstatus, -⟩ | ⟨hsome, -, hstatus, -⟩
  · refine ⟨fun hsome => ?_, fun hidle => ⟨hstatus, fun hstop => ?_⟩⟩
    · rw [← hsame, Option.isSome_iff_exists] at hsome
      obtain ⟨execution, hcurrent⟩ := hsome
      rw [Worker.pending, hcurrent] at hnone
      exact absurd hnone (List.cons_ne_nil _ _)
    · exact hstatus.trans (hroster.idle hidle hstop)
  · refine ⟨fun _ => hstatus, fun hidle => ?_⟩
    rw [hidle] at hsome
    contradiction

/-- A unit that waits for the second step of its program is asked to stop. -/
theorem status_after_stop_parked :
    ∃ start unit settled : ExecutionUnit, start.New ∧
      History (fun _ _ => True) start [.step 0, .submit .countdownSum .step] unit ∧
      unit.worker.atRest = true ∧ unit.worker.current.isSome = true ∧
      settle 2 ((unit.ask .stop).ask (.submit .branchLadder .run)) = .ok settled ∧
      settled.worker.isSettled = true ∧ settled.worker.status = .interrupted := by
  have hruns : (settle 2 (small.ask (.submit .countdownSum .step))).toOption.any (fun parked =>
      (settle 2 (parked.ask (.step 0))).toOption.any fun unit =>
        unit.worker.atRest = true ∧ unit.worker.current.isSome = true ∧
          ((unit.ask .stop).ask (.submit .branchLadder .run)).worker.pending.length ≤ 2) = true := by
    decide +kernel
  obtain ⟨parked, hparked, hrest⟩ := (Option.any_eq_true _ _).mp hruns
  obtain ⟨unit, hunit, hrest⟩ := (Option.any_eq_true _ _).mp hrest
  obtain ⟨hrest, hcurrent, hfuel⟩ := of_decide_eq_true hrest
  have hhistory : History (fun _ _ => True) small [.step 0, .submit .countdownSum .step] unit :=
    (((History.nothing.asks trivial).settle (eq_ok_of_toOption hparked)).asks trivial).settle
      (eq_ok_of_toOption hunit)
  have hlater : History (fun _ _ => True) (unit.ask .stop) [.submit .branchLadder .run] _ :=
    .asks .nothing trivial
  obtain ⟨settled, hsettle, hsettled, hstatus, -⟩ :=
    status_after_stop new_small hhistory hrest hlater hfuel
  exact ⟨small, unit, settled, new_small, hhistory, hrest, hcurrent, hsettle, hsettled,
    hstatus hcurrent⟩

/-- A new unit is asked to stop.  The program that is submitted next is accepted and let go of, and
the unit is idle as before. -/
theorem idle_after_stop :
    ∃ start settled : ExecutionUnit, start.New ∧ start.worker.atRest = true ∧
      settle 1 ((start.ask .stop).ask (.submit .branchLadder .run)) = .ok settled ∧
      settled.worker.isSettled = true ∧ settled.worker.tickets.map (·.state) = #[.interrupted] ∧
      settled.worker.status = .idle ∧ settled.worker.status.acceptsPrograms = true := by
  have hruns : (settle 1 ((small.ask .stop).ask (.submit .branchLadder .run))).toOption.any
      (fun settled => settled.worker.isSettled = true ∧
        settled.worker.tickets.map (·.state) = #[.interrupted] ∧ settled.worker.status = .idle ∧
        settled.worker.status.acceptsPrograms = true) = true := by
    decide +kernel
  obtain ⟨settled, hsettle, hshown⟩ := (Option.any_eq_true _ _).mp hruns
  exact ⟨small, settled, new_small, rfl, eq_ok_of_toOption hsettle,
    of_decide_eq_true hshown⟩

end ExecutionUnit

end A64Machine
