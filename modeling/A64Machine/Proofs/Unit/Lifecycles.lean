import A64Machine.Proofs.Unit.Turns

/-!
The life of what is submitted to a unit.  A program waits, has the unit alone, and ends; programs do
so in the order in which they were submitted, and what is published about one that has ended does not
change any more.  A stepped program that nobody holds ends where it is and lets the next one start.
-/

namespace A64Machine

namespace ExecutionUnit

/-- Whether a unit, when it makes its next move, starts the next program of its queue. -/
structure Starts (unit : ExecutionUnit) (job : Job) (rest : List Job) (started : ExecutionUnit) :
    Prop where
  queue_eq : started.worker.queue = rest
  reported : ∃ more, started.memory.programEvents = unit.memory.programEvents ++
    .programStarted unit.worker.index job.program.entry :: more
  begins : job.program.length ≤ unit.memory.hierarchy.size →
    ∃ execution, started.worker.current = some execution ∧ execution.program = job.program ∧
      execution.ticket = job.ticket ∧ execution.retired = 0

/-- Whether the parked program of a unit, when its ticket is let go, ends in the next move: as
interrupted without a fault, with the frame that it showed, and with nothing retired. -/
structure Frees (unit : ExecutionUnit) (execution : Execution) (ended : ExecutionUnit) : Prop where
  current_eq : ended.worker.current = none
  queue_eq : ended.worker.queue = unit.worker.queue
  words_eq : ended.memory.words = unit.memory.words
  reported : ended.memory.programEvents =
    unit.memory.programEvents ++ [.programFinished unit.worker.index true]
  ticket_eq : ∃ ticket, unit.worker.tickets[execution.ticket]? = some ticket ∧
    ended.worker.tickets[execution.ticket]? =
      some { ticket with
        state := .interrupted, fault := none, pendingSteps := 0, parked := false, abandoned := true }

/-- What holds of a unit and of its tickets after some requests. -/
structure Lifecycle (requests : List UnitRequest) (unit : ExecutionUnit) : Prop where
  moves : ∃ after, unit.tick = .ok after
  -- Only the ticket of the program that has the unit is active.
  one_active : ∀ (number : Nat) (ticket : Ticket), unit.worker.tickets[number]? = some ticket →
    ticket.state = .running ∨ ticket.state = .stepInMode →
    unit.worker.current.map (·.ticket) = some number
  -- When a program has started or ended, all that were submitted before have ended.
  in_order : ∀ (i j : Nat) (earlier later : Ticket), i < j → unit.worker.tickets[i]? = some earlier →
    unit.worker.tickets[j]? = some later →
    later.state ≠ .waiting ∨ unit.worker.current.map (·.ticket) = some j →
    earlier.state.isFinished = true
  -- A ticket is waiting when it is made.  If the unit refuses the program, it ends at once.
  submits : ∀ program mode, ∃ ticket,
    (unit.worker.submit program mode).tickets = unit.worker.tickets.push ticket ∧
    if unit.worker.status.acceptsPrograms then ticket = { mode }
    else ticket = Ticket.finish { mode } {} none true
  from_waiting : ∀ (number : Nat) (ticket : Ticket), unit.worker.tickets[number]? = some ticket →
    Ticket.Precedes { mode := ticket.mode } ticket
  develops : ∀ more later, History Worker.Permits unit more later → unit.Precedes later
  fault : ∀ (number : Nat) (ticket : Ticket), unit.worker.tickets[number]? = some ticket →
    ticket.fault.isSome = true → ticket.state = .interrupted
  pending : ∀ (number : Nat) (ticket : Ticket), unit.worker.tickets[number]? = some ticket →
    ticket.pendingSteps ≤ 1
  -- Of the steps that were granted, each has retired one instruction or is still pending.
  steps : ∀ execution ticket, unit.worker.current = some execution →
    unit.worker.tickets[execution.ticket]? = some ticket → ticket.mode = .step →
    execution.retired + ticket.pendingSteps = requests.count (.step execution.ticket)
  steps_ended : ∀ (number : Nat) (ticket : Ticket), unit.worker.tickets[number]? = some ticket →
    ticket.state.isFinished = true → ticket.mode = .step →
    ticket.frame.retired ≤ requests.count (.step number)
  drops : ∀ execution, unit.worker.current = some execution → unit.worker.isSettled = true →
    ∃ ended, (unit.ask (.drop execution.ticket)).tick = .ok ended ∧ unit.Frees execution ended ∧
      ∀ job rest, unit.worker.queue = job :: rest →
        ∃ started, ended.tick = .ok started ∧ ended.Starts job rest started

/-- Where the program of a ticket is: in the queue, at work, or behind it. -/
inductive Standing (requests : List UnitRequest) (taken : Nat) (unit : ExecutionUnit) (number : Nat)
    (ticket : Ticket) : Prop
  | queued (hwaits : taken ≤ number) (hqueued : ticket.Queued) :
      Standing requests taken unit number ticket
  | active {execution : Execution} (hcurrent : unit.worker.current = some execution)
      (hnumber : execution.ticket = number) (hlast : number + 1 = taken)
      (hactive : ticket.Active (unit.frame execution.regs execution.retired) execution
        (requests.count (.step number))) : Standing requests taken unit number ticket
  | ended (hbefore : number < taken) (hended : ticket.Ended (requests.count (.step number))) :
      Standing requests taken unit number ticket

variable {unit after start : ExecutionUnit} {requests : List UnitRequest} {taken : Nat}

/-- A unit that has no program and was not stopped takes the next one of its queue. -/
theorem exists_starts (hformed : unit.memory.WellFormed) (hcurrent : unit.worker.current = none)
    (hstop : unit.worker.stopRequested = false) {job : Job} {rest : List Job}
    (hqueue : unit.worker.queue = job :: rest) :
    ∃ started, unit.tick = .ok started ∧ unit.Starts job rest started := by
  have htick : unit.tick = unit.next job rest := by
    simp only [tick, hcurrent, hqueue]
  rw [htick, next_eq, hstop, if_neg Bool.false_ne_true]
  by_cases htoolong : unit.memory.hierarchy.size < job.program.length
  · rw [if_pos htoolong]
    refine ⟨_, rfl, rfl, ⟨[.fault unit.worker.index (entryAddress job.program) .dataAbort,
      .programFinished unit.worker.index true], ?_⟩, fun hfits => ?_⟩
    · exact UnitMemory.programEvents_eq_append rfl rfl
    · omega
  · rw [if_neg htoolong]
    have htaken : (unit.taken job rest).memory.WellFormed := hformed
    obtain ⟨machine, hstart, -⟩ := Machine.start_serves htaken (Nat.le_of_not_lt htoolong)
    rw [hstart]
    refine ⟨_, rfl, rfl, ⟨[], ?_⟩, fun _ => ⟨_, rfl, rfl, rfl, rfl⟩⟩
    refine (Machine.start_accessed hstart).events_eq.trans ?_
    exact UnitMemory.programEvents_eq_append rfl rfl

/-- A stepped program that nobody holds ends at its next instruction boundary. -/
theorem tick_of_abandoned {execution : Execution} (hcurrent : unit.worker.current = some execution)
    (hstop : unit.worker.stopRequested = false) (hstays : ¬execution.Leaves)
    (hmode : unit.worker.ticketIs execution.ticket (·.mode == .run) = false)
    (hdropped : unit.worker.ticketIs execution.ticket (·.abandoned) = true) :
    unit.tick = .ok (unit.finish execution none true) := by
  have htick : unit.tick = unit.atBoundary execution := by
    simp only [tick, hcurrent]
  rw [htick]
  simp only [atBoundary, hstop, hmode, hdropped, Bool.false_eq_true, if_false, if_true]
  exact if_neg hstays

namespace Orderly

variable {execution : Execution} {ticket : Ticket}

/-- Every program that was submitted stands somewhere. -/
theorem standing (horderly : unit.Orderly requests taken) {number : Nat}
    (hticket : unit.worker.tickets[number]? = some ticket) :
    unit.Standing requests taken number ticket := by
  by_cases hqueued : taken ≤ number
  · exact .queued hqueued (horderly.queued number ticket hticket hqueued)
  by_cases hcurrent : ∃ execution, unit.worker.current = some execution ∧ execution.ticket = number
  · obtain ⟨execution, hcurrent, rfl⟩ := hcurrent
    exact .active hcurrent rfl (horderly.active execution hcurrent).2.1
      (horderly.active_of_current hcurrent hticket)
  · have hother : ∀ execution, unit.worker.current = some execution → execution.ticket ≠ number :=
      fun execution hexecution hsame => hcurrent ⟨execution, hexecution, hsame⟩
    have hbefore := Nat.lt_of_not_le hqueued
    exact .ended hbefore (horderly.ended number ticket hticket hbefore hother)

/-- Only the program that has the unit is at work. -/
theorem current_of_state (horderly : unit.Orderly requests taken) {number : Nat}
    (hticket : unit.worker.tickets[number]? = some ticket)
    (hstate : ticket.state = .running ∨ ticket.state = .stepInMode) :
    unit.worker.current.map (·.ticket) = some number := by
  cases horderly.standing hticket with
  | queued _ hqueued =>
    rw [hqueued.state_eq] at hstate
    exact absurd hstate (by decide)
  | active hcurrent hnumber =>
    rw [hcurrent, ← hnumber]
    rfl
  | ended _ hended =>
    have hfinished := hended.finished
    rcases hstate with hstate | hstate
    · rw [hstate] at hfinished
      contradiction
    · rw [hstate] at hfinished
      contradiction

/-- Programs begin after those before them have ended. -/
theorem isFinished_of_lt (horderly : unit.Orderly requests taken) {i j : Nat} {earlier later : Ticket}
    (hlt : i < j) (hearlier : unit.worker.tickets[i]? = some earlier)
    (hlater : unit.worker.tickets[j]? = some later)
    (hbegun : later.state ≠ .waiting ∨ unit.worker.current.map (·.ticket) = some j) :
    earlier.state.isFinished = true := by
  have htaken : j < taken := by
    cases horderly.standing hlater with
    | queued _ hqueued =>
      rcases hbegun with hstate | hcurrent
      · exact absurd hqueued.state_eq hstate
      · obtain ⟨execution, hexecution, rfl⟩ := Option.map_eq_some_iff.mp hcurrent
        have hlast := (horderly.active execution hexecution).2.1
        omega
    | active _ _ hlast => omega
    | ended hbefore => exact hbefore
  cases horderly.standing hearlier with
  | queued hwaits => omega
  | active _ _ hlast => omega
  | ended _ hended => exact hended.finished

/-- Every ticket is one that a waiting program can have come to. -/
theorem precedes_of_waiting (horderly : unit.Orderly requests taken) {number : Nat}
    (hticket : unit.worker.tickets[number]? = some ticket) :
    Ticket.Precedes { mode := ticket.mode } ticket := by
  refine ⟨rfl, ?_, fun hended => absurd hended Bool.false_ne_true⟩
  cases horderly.standing hticket with
  | queued _ hqueued => exact hqueued.state_eq ▸ .stays _
  | active _ _ _ hactive =>
    cases hmode : ticket.mode with
    | run =>
      rw [hactive.running hmode]
      exact .runs rfl
    | step =>
      rcases hactive.stepped hmode with hstate | hstate
      · rw [hstate]
        exact .stays _
      · rw [hstate]
        exact .parks rfl
  | ended _ hended => exact .ends rfl hended.finished

/-- Programs with a fault were interrupted. -/
theorem interrupted_of_fault (horderly : unit.Orderly requests taken) {number : Nat}
    (hticket : unit.worker.tickets[number]? = some ticket) (hfault : ticket.fault.isSome = true) :
    ticket.state = .interrupted := by
  cases horderly.standing hticket with
  | queued _ hqueued =>
    rw [hqueued.fault_eq] at hfault
    contradiction
  | active _ _ _ hactive =>
    rw [hactive.fault_eq] at hfault
    contradiction
  | ended _ hended => exact hended.fault hfault

theorem pendingSteps_le (horderly : unit.Orderly requests taken) {number : Nat}
    (hticket : unit.worker.tickets[number]? = some ticket) : ticket.pendingSteps ≤ 1 := by
  cases horderly.standing hticket with
  | queued _ hqueued =>
    rw [hqueued.pendingSteps_eq]
    exact Nat.zero_le 1
  | active _ _ _ hactive => exact hactive.pending_le
  | ended _ hended =>
    rw [hended.pendingSteps_eq]
    exact Nat.zero_le 1

/-- A stepped program that has ended retired no more than the steps that were granted. -/
theorem retired_le (horderly : unit.Orderly requests taken) {number : Nat}
    (hticket : unit.worker.tickets[number]? = some ticket)
    (hfinished : ticket.state.isFinished = true) (hmode : ticket.mode = .step) :
    ticket.frame.retired ≤ requests.count (.step number) := by
  cases horderly.standing hticket with
  | queued _ hqueued =>
    rw [hqueued.isOpen] at hfinished
    contradiction
  | active _ _ _ hactive =>
    rw [hactive.isOpen] at hfinished
    contradiction
  | ended _ hended => exact hended.retired_le hmode

/-- Letting go of the parked program frees the unit. -/
theorem exists_frees (horderly : unit.Orderly requests taken)
    (hcurrent : unit.worker.current = some execution) (hsettled : unit.worker.isSettled = true) :
    ∃ ended, (unit.ask (.drop execution.ticket)).tick = .ok ended ∧ unit.Frees execution ended ∧
      ended.worker.stopRequested = false := by
  obtain ⟨-, -, ticket, hticket, hactive⟩ := horderly.active execution hcurrent
  rw [Worker.isSettled, hcurrent] at hsettled
  simp only [Worker.ticketIs_eq hticket, Bool.and_eq_true, Bool.not_eq_true'] at hsettled
  obtain ⟨hstop, ⟨hparked, -⟩, -⟩ := hsettled
  obtain ⟨hstate, hstays, hframe⟩ := hactive.parked hparked
  have hmode := hactive.mode_of_parked hparked
  have hletGo : ticket.letGo = { ticket with abandoned := true } := by
    rw [Ticket.letGo, hmode]
  have htickets : (unit.ask (.drop execution.ticket)).worker.tickets[execution.ticket]? =
      some { ticket with abandoned := true } := by
    change (unit.worker.tickets.modify execution.ticket Ticket.letGo)[execution.ticket]? = _
    rw [Array.getElem?_modify, if_pos rfl, hticket, ← hletGo]
    rfl
  refine ⟨_, tick_of_abandoned hcurrent hstop hstays ?_ ?_, ⟨rfl, rfl, rfl, ?_, ticket, hticket, ?_⟩,
    hstop⟩
  · rw [Worker.ticketIs_eq htickets]
    simp only [hmode]
    rfl
  · rw [Worker.ticketIs_eq htickets]
  · exact UnitMemory.programEvents_eq_append rfl rfl
  · change ((unit.ask (.drop execution.ticket)).worker.tickets.modify execution.ticket
      (·.finish (unit.frame execution.regs execution.retired) none true))[execution.ticket]? = _
    rw [Array.getElem?_modify, if_pos rfl, htickets, ← hframe]
    rfl

end Orderly

/-- The life of a unit: at every moment of every history, with requests at those moments at which the
unit waits for one. -/
theorem lifecycle (hnew : start.New) (hhistory : History Worker.Permits start requests unit) :
    unit.Lifecycle requests := by
  obtain ⟨taken, horderly⟩ := hhistory.orderly hnew
  constructor
  case moves => exact exists_tick (hhistory.sound hnew.sound).wellFormed
  case one_active => exact fun _ _ hticket hstate => horderly.current_of_state hticket hstate
  case in_order =>
    exact fun _ _ _ _ hlt hearlier hlater hbegun =>
      horderly.isFinished_of_lt hlt hearlier hlater hbegun
  case submits =>
    intro program mode
    rw [Worker.submit]
    split
    · exact ⟨_, rfl, rfl⟩
    · exact ⟨_, rfl, rfl⟩
  case from_waiting => exact fun _ _ hticket => horderly.precedes_of_waiting hticket
  case develops => exact fun more later hlater => hlater.precedes hhistory hnew
  case fault => exact fun _ _ hticket hfault => horderly.interrupted_of_fault hticket hfault
  case pending => exact fun _ _ hticket => horderly.pendingSteps_le hticket
  case steps =>
    intro execution ticket hcurrent hticket
    exact (horderly.active_of_current hcurrent hticket).retired_eq
  case steps_ended => exact fun _ _ hticket hfinished => horderly.retired_le hticket hfinished
  case drops =>
    intro execution hcurrent hsettled
    obtain ⟨ended, htick, hfrees, hstop⟩ := horderly.exists_frees hcurrent hsettled
    have hpermits : unit.worker.Permits (.drop execution.ticket) := hsettled
    have hended := ((hhistory.asks hpermits).moves htick).sound hnew.sound
    refine ⟨ended, htick, hfrees, fun job rest hqueue => ?_⟩
    exact exists_starts hended.wellFormed hfrees.current_eq hstop (hfrees.queue_eq.trans hqueue)

/-- A program is stepped once while another one waits, and let go: it is interrupted and the other
one is executed. -/
theorem lifecycle_dropped :
    let requests : List UnitRequest :=
      [.drop 0, .step 0, .submit .branchLadder .run, .submit .countdownSum .step]
    ∃ start unit : ExecutionUnit, start.New ∧ History Worker.Permits start requests unit ∧
      unit.worker.tickets.map (·.state) = #[.interrupted, .ready] ∧ unit.Lifecycle requests := by
  intro requests
  let start : ExecutionUnit :=
    { worker := { index := 0 }
      memory := { hierarchy := .ram (.zeroed "RAM" 16), stack := .zeroed "STACK" 4 } }
  have hnew : start.New := ⟨rfl, .start (.ram _) _ _⟩
  have hruns : (settle 2 (start.ask (.submit .countdownSum .step))).toOption.any (fun first =>
      first.worker.Permits (.submit .branchLadder .run) ∧
      (first.ask (.submit .branchLadder .run)).worker.Permits (.step 0) ∧
      (settle 3 ((first.ask (.submit .branchLadder .run)).ask (.step 0))).toOption.any fun second =>
        second.worker.Permits (.drop 0) ∧
        (settle 20 (second.ask (.drop 0))).toOption.any fun unit =>
          unit.worker.tickets.map (·.state) = #[.interrupted, .ready]) = true := by
    decide +kernel
  obtain ⟨first, hfirst, hrest⟩ := (Option.any_eq_true _ _).mp hruns
  obtain ⟨hsubmits, hsteps, hrest⟩ := of_decide_eq_true hrest
  obtain ⟨second, hsecond, hrest⟩ := (Option.any_eq_true _ _).mp hrest
  obtain ⟨hdrops, hrest⟩ := of_decide_eq_true hrest
  obtain ⟨unit, hlast, hstates⟩ := (Option.any_eq_true _ _).mp hrest
  have hstart : start.worker.Permits (.submit .countdownSum .step) := rfl
  have hparked := (History.nothing.asks hstart).settle (eq_ok_of_toOption hfirst)
  have hstepped := ((hparked.asks hsubmits).asks hsteps).settle (eq_ok_of_toOption hsecond)
  have hhistory := (hstepped.asks hdrops).settle (eq_ok_of_toOption hlast)
  exact ⟨start, unit, hnew, hhistory, of_decide_eq_true hstates, lifecycle hnew hhistory⟩

end ExecutionUnit

end A64Machine
