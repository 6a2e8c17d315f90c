import A64Machine.Proofs.Unit.Turns

/-!
The programs of a unit when requests may come at any moment, also between two instructions.  A unit
that was stopped while it had a program refuses what is submitted, even while programs still wait in
its queue, so those that left the queue need not have consecutive numbers.  They keep their order:
in every history the numbers of the programs taken so far, followed by those in the queue, increase,
and all programs but the last one taken and those in the queue have ended.
-/

namespace A64Machine

/-- The numbers of the programs of a unit that have not ended: the one that has the unit, and those
in the queue. -/
def Worker.pending (worker : Worker) : List Nat :=
  (worker.current.map (·.ticket)).toList ++ worker.queue.map (·.ticket)

theorem Worker.mem_pending_iff {worker : Worker} {number : Nat} :
    number ∈ worker.pending ↔
      (∃ execution, worker.current = some execution ∧ execution.ticket = number) ∨
        number ∈ worker.queue.map (·.ticket) := by
  rw [pending, List.mem_append, Option.mem_toList, Option.map_eq_some_iff]

/-- Whether a ticket is as it was when its program was submitted; it can have been let go. -/
def Ticket.Untouched (ticket : Ticket) : Prop :=
  ticket = { mode := ticket.mode, abandoned := ticket.abandoned }

theorem Ticket.Untouched.queued {ticket : Ticket} (huntouched : ticket.Untouched) :
    ticket.Queued := by
  rw [huntouched]
  exact ⟨rfl, rfl, rfl, rfl⟩

theorem Ticket.Untouched.frame_eq {ticket : Ticket} (huntouched : ticket.Untouched) :
    ticket.frame = {} := by
  rw [huntouched]

theorem Ticket.Queued.canStep_eq {ticket : Ticket} (hqueued : ticket.Queued) :
    ticket.canStep = false := by
  rw [Ticket.canStep, hqueued.parked_eq, Bool.and_false, Bool.false_and]

namespace ExecutionUnit

variable {unit after start : ExecutionUnit} {taken : List Nat}

/-- The numbers of the programs that leave the queue of a unit in a move. -/
def leaving (unit after : ExecutionUnit) : List Nat :=
  (unit.worker.queue.take (unit.worker.queue.length - after.worker.queue.length)).map (·.ticket)

theorem leaving_of_queue_append {jobs : List Job}
    (hqueue : unit.worker.queue = jobs ++ after.worker.queue) :
    unit.leaving after = jobs.map (·.ticket) := by
  rw [leaving, hqueue, List.length_append, Nat.add_sub_cancel, List.take_left]

theorem leaving_of_queue_eq (hqueue : after.worker.queue = unit.worker.queue) :
    unit.leaving after = [] := by
  have happend : unit.worker.queue = [] ++ after.worker.queue := hqueue.symm
  exact leaving_of_queue_append happend

theorem leaving_of_queue_cons {job : Job} (hqueue : unit.worker.queue = job :: after.worker.queue) :
    unit.leaving after = [job.ticket] := by
  have happend : unit.worker.queue = [job] ++ after.worker.queue := hqueue
  exact leaving_of_queue_append happend

/-- At most the first program leaves the queue in a move. -/
theorem Move.exists_queue (hmove : unit.Move after) :
    ∃ jobs : List Job, unit.worker.queue = jobs ++ after.worker.queue := by
  cases hmove with
  | discards _ hqueue => exact ⟨[_], hqueue⟩
  | rejects _ hqueue => exact ⟨[_], hqueue⟩
  | begins _ hqueue => exact ⟨[_], hqueue⟩
  | retires => exact ⟨[], (unit.worker.queue_granted _).symm⟩
  | faults => exact ⟨[], (unit.worker.queue_granted _).symm⟩
  | _ => exact ⟨[], rfl⟩

/-- A history with the numbers of the programs that the unit took from its queue, in order. -/
inductive Record (permits : Worker → UnitRequest → Prop) (start : ExecutionUnit) :
    List UnitRequest → List Nat → ExecutionUnit → Prop
  | nothing : Record permits start [] [] start
  | moves {requests : List UnitRequest} {taken : List Nat} {unit after : ExecutionUnit}
      (hunit : Record permits start requests taken unit) (htick : unit.tick = .ok after) :
      Record permits start requests (taken ++ unit.leaving after) after
  | asks {requests : List UnitRequest} {taken : List Nat} {unit : ExecutionUnit}
      (hunit : Record permits start requests taken unit) {request : UnitRequest}
      (hpermits : permits unit.worker request) :
      Record permits start (request :: requests) taken (unit.ask request)

/-- The programs of a unit that has taken some from its queue. -/
structure Roster (taken : List Nat) (unit : ExecutionUnit) : Prop where
  increasing : (taken ++ unit.worker.queue.map (·.ticket)).Pairwise (· < ·)
  bounded : ∀ number ∈ taken ++ unit.worker.queue.map (·.ticket),
    number < unit.worker.tickets.size
  waiting : ∀ number ticket, number ∈ unit.worker.queue.map (·.ticket) →
    unit.worker.tickets[number]? = some ticket → ticket.Untouched
  active : ∀ execution, unit.worker.current = some execution →
    unit.worker.status = .running ∧ taken.getLast? = some execution.ticket ∧
    ∀ ticket, unit.worker.tickets[execution.ticket]? = some ticket →
      ∃ granted, ticket.Active (unit.frame execution.regs execution.retired) execution granted
  ended : ∀ number ticket, number ∉ unit.worker.pending →
    unit.worker.tickets[number]? = some ticket → ∃ granted, ticket.Ended granted
  idle : unit.worker.current = none → unit.worker.stopRequested = false →
    unit.worker.status = .idle

/-- A move of the first program of those that have not ended, which is the last one taken then. -/
structure Turn (taken : List Nat) (unit after : ExecutionUnit) (number : Nat)
    (f : Ticket → Ticket) : Prop where
  pending_eq : unit.worker.pending = number :: after.worker.queue.map (·.ticket)
  taken_eq : taken ++ unit.leaving after ++ after.worker.queue.map (·.ticket) =
    taken ++ unit.worker.queue.map (·.ticket)
  last : (taken ++ unit.leaving after).getLast? = some number
  tickets_eq : after.worker.tickets = unit.worker.tickets.modify number f

namespace Roster

variable {number : Nat} {ticket : Ticket} {f : Ticket → Ticket}

/-- A program leaves the queue. -/
theorem takes {job : Job} {rest : List Job} (hcurrent : unit.worker.current = none)
    (hqueue : unit.worker.queue = job :: rest) (hrest : after.worker.queue = rest)
    (htickets : after.worker.tickets = unit.worker.tickets.modify job.ticket f) :
    Turn taken unit after job.ticket f := by
  have hleaving := leaving_of_queue_cons (hrest ▸ hqueue)
  refine ⟨?_, ?_, ?_, htickets⟩
  · rw [Worker.pending, hcurrent, hqueue, hrest]
    rfl
  · rw [hleaving, hqueue, hrest, List.append_assoc]
    rfl
  · rw [hleaving, List.getLast?_append]
    rfl

/-- The program that has the unit goes on or ends. -/
theorem keeps (hroster : unit.Roster taken) {execution : Execution}
    (hcurrent : unit.worker.current = some execution)
    (hqueue : after.worker.queue = unit.worker.queue)
    (htickets : after.worker.tickets = unit.worker.tickets.modify execution.ticket f) :
    Turn taken unit after execution.ticket f := by
  have hleaving := leaving_of_queue_eq hqueue
  refine ⟨?_, ?_, ?_, htickets⟩
  · rw [Worker.pending, hcurrent, hqueue]
    rfl
  · rw [hleaving, hqueue, List.append_nil]
  · rw [hleaving, List.append_nil]
    exact (hroster.active execution hcurrent).2.1

theorem takes_discarded (taken : List Nat) {job : Job} {rest : List Job}
    (hcurrent : unit.worker.current = none) (hqueue : unit.worker.queue = job :: rest) :
    Turn taken unit (unit.discarded job rest) job.ticket (·.finish {} none true) :=
  takes hcurrent hqueue rfl (unit.tickets_discarded job rest)

theorem takes_rejected (taken : List Nat) {job : Job} {rest : List Job}
    (hcurrent : unit.worker.current = none) (hqueue : unit.worker.queue = job :: rest) :
    Turn taken unit (unit.rejected job rest) job.ticket
      (·.finish ((unit.taken job rest).frame {} 0) (some .dataAbort) true) :=
  takes hcurrent hqueue rfl (unit.tickets_rejected job rest)

theorem takes_begun (taken : List Nat) {job : Job} {rest : List Job}
    (hcurrent : unit.worker.current = none) (hqueue : unit.worker.queue = job :: rest)
    (machine : Machine) :
    Turn taken unit (unit.begun job rest machine) job.ticket (·.begin (machine.frame 0)) :=
  takes hcurrent hqueue rfl (unit.tickets_begun job rest machine)

theorem keeps_finish (hroster : unit.Roster taken) {execution : Execution}
    (hcurrent : unit.worker.current = some execution) (interrupted : Bool) :
    Turn taken unit (unit.finish execution none interrupted) execution.ticket
      (·.finish (unit.frame execution.regs execution.retired) none interrupted) :=
  hroster.keeps hcurrent rfl (unit.tickets_finish execution none interrupted)

theorem keeps_parked (hroster : unit.Roster taken) {execution : Execution}
    (hcurrent : unit.worker.current = some execution) (frame : Frame) :
    Turn taken unit { unit with worker := unit.worker.modifyTicket execution.ticket (·.park frame) }
      execution.ticket (·.park frame) :=
  hroster.keeps hcurrent rfl rfl

theorem keeps_retired (hroster : unit.Roster taken) {execution : Execution}
    (hcurrent : unit.worker.current = some execution) (memory : UnitMemory) (events : List Event)
    (group : InstructionGroup) (regs : RegisterFile) :
    Turn taken unit ((unit.executed execution memory events).advanced execution group regs)
      execution.ticket (·.spend) :=
  hroster.keeps hcurrent (unit.worker.queue_granted execution)
    (unit.worker.tickets_granted execution)

theorem keeps_faulted (hroster : unit.Roster taken) {execution : Execution}
    (hcurrent : unit.worker.current = some execution) (memory : UnitMemory) (events : List Event)
    (cause : FaultCode) (pc : Doubleword) (regs : RegisterFile) :
    Turn taken unit (((unit.executed execution memory events).recordFault cause pc).finish
        { execution with regs } (some cause) true) execution.ticket
      fun ticket => ticket.spend.finish
        (.capture regs execution.retired memory.stack.words) (some cause) true :=
  hroster.keeps hcurrent (unit.worker.queue_granted execution)
    (unit.tickets_faulted execution memory events cause pc regs)

theorem lt_size (hroster : unit.Roster taken) (hpending : number ∈ unit.worker.pending) :
    number < unit.worker.tickets.size := by
  refine hroster.bounded number (List.mem_append.mpr ?_)
  refine (Worker.mem_pending_iff.mp hpending).imp_left fun hnumber => ?_
  obtain ⟨execution, hcurrent, rfl⟩ := hnumber
  exact List.mem_of_getLast? (hroster.active execution hcurrent).2.1

/-- A program that is not over waits untouched or has the unit. -/
theorem untouched_or_active (hroster : unit.Roster taken) (hpending : number ∈ unit.worker.pending)
    (hticket : unit.worker.tickets[number]? = some ticket) :
    ticket.Untouched ∨ ∃ execution granted, unit.worker.current = some execution ∧
      execution.ticket = number ∧
      ticket.Active (unit.frame execution.regs execution.retired) execution granted := by
  rcases Worker.mem_pending_iff.mp hpending with ⟨execution, hcurrent, rfl⟩ | hqueued
  · obtain ⟨granted, hactive⟩ := (hroster.active execution hcurrent).2.2 ticket hticket
    exact .inr ⟨execution, granted, hcurrent, rfl, hactive⟩
  · exact .inl (hroster.waiting number ticket hqueued hticket)

/-- A program that is not over has neither ended nor faulted. -/
theorem isOpen (hroster : unit.Roster taken) (hpending : number ∈ unit.worker.pending)
    (hticket : unit.worker.tickets[number]? = some ticket) :
    ticket.state.isFinished = false ∧ ticket.fault = none := by
  rcases hroster.untouched_or_active hpending hticket with huntouched | ⟨_, _, -, -, hactive⟩
  · exact ⟨huntouched.queued.isOpen, huntouched.queued.fault_eq⟩
  · exact ⟨hactive.isOpen, hactive.fault_eq⟩

theorem isFinished_iff (hroster : unit.Roster taken)
    (hticket : unit.worker.tickets[number]? = some ticket) :
    ticket.state.isFinished = true ↔ number ∉ unit.worker.pending := by
  refine ⟨fun hfinished hpending => ?_, fun hover => ?_⟩
  · rw [(hroster.isOpen hpending hticket).1] at hfinished
    contradiction
  · obtain ⟨granted, hended⟩ := hroster.ended number ticket hover hticket
    exact hended.finished

end Roster

namespace Turn

variable {number : Nat} {f : Ticket → Ticket}

/-- The ticket of the program whose turn it is. -/
theorem exists_ticket (hturn : Turn taken unit after number f) (hroster : unit.Roster taken) :
    ∃ old, unit.worker.tickets[number]? = some old ∧ after.worker.tickets[number]? = some (f old) ∧
      old.state.isFinished = false ∧ old.fault = none := by
  have hfirst : number ∈ unit.worker.pending := by
    rw [hturn.pending_eq]
    exact List.mem_cons_self
  have hold := Array.getElem?_eq_getElem (hroster.lt_size hfirst)
  obtain ⟨hopen, hfault⟩ := hroster.isOpen hfirst hold
  exact ⟨_, hold, Orderly.getElem?_of_modify_self hturn.tickets_eq hold, hopen, hfault⟩

/-- The programs that were taken before it, and those behind it. -/
theorem exists_earlier (hturn : Turn taken unit after number f) (hroster : unit.Roster taken) :
    ∃ earlier, taken ++ unit.leaving after = earlier ++ [number] ∧
      (∀ i ∈ earlier, i < number) ∧ ∀ i ∈ after.worker.queue.map (·.ticket), number < i := by
  obtain ⟨earlier, hearlier⟩ := List.getLast?_eq_some_iff.mp hturn.last
  have hincreasing := hroster.increasing
  rw [← hturn.taken_eq, hearlier, List.append_assoc, List.pairwise_append] at hincreasing
  obtain ⟨-, hrest, hbefore⟩ := hincreasing
  refine ⟨earlier, hearlier, fun i hi => hbefore i hi number List.mem_cons_self, ?_⟩
  exact (List.pairwise_cons.mp hrest).1

/-- The order is kept, if the program has the unit afterwards or has ended. -/
theorem roster (hturn : Turn taken unit after number f) (hroster : unit.Roster taken)
    (hlast : ∀ ticket, unit.worker.tickets[number]? = some ticket →
      ∃ granted, (f ticket).Last after number granted)
    (hidle : after.worker.current = none → after.worker.stopRequested = false →
      after.worker.status = .idle) : after.Roster (taken ++ unit.leaving after) := by
  obtain ⟨old, hold, hnew, -, -⟩ := hturn.exists_ticket hroster
  obtain ⟨earlier, -, -, hbehind⟩ := hturn.exists_earlier hroster
  obtain ⟨granted, hlast⟩ := hlast old hold
  have hother {i : Nat} (hne : i ≠ number) :
      after.worker.tickets[i]? = unit.worker.tickets[i]? :=
    Orderly.getElem?_of_modify hturn.tickets_eq hne
  have hqueue : ∀ i ∈ after.worker.queue.map (·.ticket),
      i ∈ unit.worker.queue.map (·.ticket) := by
    intro i hi
    have hpending : i ∈ unit.worker.pending := by
      rw [hturn.pending_eq]
      exact List.mem_cons_of_mem number hi
    refine (Worker.mem_pending_iff.mp hpending).resolve_left fun hnumber => ?_
    -- The program that has the unit is the one whose turn it is.
    obtain ⟨execution, hcurrent, rfl⟩ := hnumber
    have hsame := hturn.pending_eq
    rw [Worker.pending, hcurrent] at hsame
    exact absurd (List.cons.inj hsame).1 (Nat.ne_of_gt (hbehind _ hi))
  refine ⟨hturn.taken_eq ▸ hroster.increasing, ?_, ?_, ?_, ?_, hidle⟩
  · rw [hturn.taken_eq, hturn.tickets_eq, Array.size_modify]
    exact hroster.bounded
  · intro i ticket hi hticket
    rw [hother (Nat.ne_of_gt (hbehind i hi))] at hticket
    exact hroster.waiting i ticket (hqueue i hi) hticket
  · intro execution hexecution
    cases hlast with
    | ended hnone => exact absurd (hnone.symm.trans hexecution) nofun
    | @active current hcurrent hstatus hsame hactive =>
      obtain rfl := Option.some.inj (hcurrent.symm.trans hexecution)
      rw [hsame]
      refine ⟨hstatus, hturn.last, fun ticket hticket => ?_⟩
      obtain rfl := Option.some.inj (hnew.symm.trans hticket)
      exact ⟨granted, hactive⟩
  · intro i ticket hi hticket
    by_cases hne : i = number
    · subst hne
      obtain rfl := Option.some.inj (hnew.symm.trans hticket)
      cases hlast with
      | ended _ hended => exact ⟨granted, hended⟩
      | active hcurrent _ hsame =>
        refine absurd ?_ hi
        rw [Worker.pending, hcurrent, Option.map_some, hsame]
        exact List.mem_cons_self
    · rw [hother hne] at hticket
      refine hroster.ended i ticket (fun hpending => hi ?_) hticket
      rw [hturn.pending_eq] at hpending
      exact List.mem_append_right _ ((List.mem_cons.mp hpending).resolve_left hne)

theorem precedes (hturn : Turn taken unit after number f)
    (hchanges : ∀ ticket, unit.worker.tickets[number]? = some ticket → ticket.Precedes (f ticket)) :
    unit.Precedes after :=
  precedes_of_modify hturn.tickets_eq hchanges

end Turn

/-- A unit that has no program and was not stopped is idle after a move, too. -/
theorem Move.status_eq_idle (hmove : unit.Move after)
    (hidle : unit.worker.current = none → unit.worker.stopRequested = false →
      unit.worker.status = .idle)
    (hcurrent : after.worker.current = none) (hstop : after.worker.stopRequested = false) :
    after.worker.status = .idle := by
  have hgoes := Bool.eq_false_iff.mp hstop
  cases hmove with
  | idles => exact hidle hcurrent hstop
  | discards _ _ hstopped => exact absurd (hstop.symm.trans hstopped) nofun
  | begins => exact absurd hcurrent nofun
  | retires => exact absurd hcurrent nofun
  | parks hexecution => exact absurd (hexecution.symm.trans hcurrent) nofun
  | rejects => exact if_neg hgoes
  | ends => exact if_neg hgoes
  | faults => exact if_neg hgoes

/-- A move keeps the order, and what a program that has ended shows. -/
theorem Move.roster (hmove : unit.Move after) (hroster : unit.Roster taken) :
    unit.Precedes after ∧ after.Roster (taken ++ unit.leaving after) := by
  have hidle := hmove.status_eq_idle hroster.idle
  rcases hmove.change fun execution hcurrent => (hroster.active execution hcurrent).1 with
    rfl | ⟨number, f, hchange⟩
  · rw [leaving_of_queue_eq rfl, List.append_nil]
    exact ⟨precedes_of_tickets_eq rfl, hroster⟩
  cases hchange with
  | @takes job rest f hcurrent hqueue htickets hrest hlast =>
    have hturn : Turn taken unit after job.ticket f :=
      Roster.takes hcurrent hqueue hrest htickets
    have hqueued (ticket : Ticket) (hticket : unit.worker.tickets[job.ticket]? = some ticket) :
        ticket.Queued := by
      refine (hroster.waiting job.ticket ticket ?_ hticket).queued
      rw [hqueue]
      exact List.mem_cons_self
    exact ⟨hturn.precedes fun ticket hticket => (hlast ticket (hqueued ticket hticket)).1,
      hturn.roster hroster (fun ticket hticket => ⟨0, (hlast ticket (hqueued ticket hticket)).2⟩)
        hidle⟩
  | @keeps execution f hcurrent htickets hqueue hlast =>
    have hturn := hroster.keeps hcurrent hqueue htickets
    have hactive := (hroster.active execution hcurrent).2.2
    refine ⟨hturn.precedes fun ticket hticket => ?_, hturn.roster hroster (fun ticket hticket => ?_)
      hidle⟩
    · obtain ⟨granted, hactive⟩ := hactive ticket hticket
      exact (hlast ticket granted hticket hactive).1
    · obtain ⟨granted, hactive⟩ := hactive ticket hticket
      exact ⟨granted, (hlast ticket granted hticket hactive).2⟩

/-- The number of the next ticket comes after those of all programs that have not ended. -/
theorem Roster.numbers_concat (hroster : unit.Roster taken) :
    (taken ++ (unit.worker.queue.map (·.ticket) ++ [unit.worker.tickets.size])).Pairwise (· < ·) ∧
      ∀ number ∈ taken ++ (unit.worker.queue.map (·.ticket) ++ [unit.worker.tickets.size]),
        number < unit.worker.tickets.size + 1 := by
  rw [← List.append_assoc]
  refine ⟨List.pairwise_append.mpr ⟨hroster.increasing, List.pairwise_singleton _ _, ?_⟩, ?_⟩
  · intro i hi j hj
    rw [List.mem_singleton.mp hj]
    exact hroster.bounded i hi
  · intro i hi
    rcases List.mem_append.mp hi with hi | hi
    · exact Nat.lt_succ_of_lt (hroster.bounded i hi)
    · rw [List.mem_singleton.mp hi]
      exact Nat.lt_succ_self _

/-- Whether a unit issued a ticket: its program waits behind the others, or has been refused. -/
structure Issues (unit : ExecutionUnit) (ticket : Ticket) (after : ExecutionUnit) : Prop where
  queue : after.worker.queue = unit.worker.queue ∧ (∃ granted, ticket.Ended granted) ∨
    ∃ job, job.ticket = unit.worker.tickets.size ∧
      after.worker.queue = unit.worker.queue ++ [job] ∧ ticket.Untouched
  current_eq : after.worker.current = unit.worker.current
  status_eq : after.worker.status = unit.worker.status
  stopRequested_eq : after.worker.stopRequested = unit.worker.stopRequested
  memory_eq : after.memory = unit.memory
  tickets_eq : after.worker.tickets = unit.worker.tickets.push ticket

namespace Issues

variable {ticket shown : Ticket} {number : Nat}

/-- The tickets that there were are as they were. -/
theorem getElem?_of_ne (hissues : unit.Issues ticket after) (hne : number ≠ unit.worker.tickets.size) :
    after.worker.tickets[number]? = unit.worker.tickets[number]? := by
  rw [hissues.tickets_eq, Array.getElem?_push, if_neg hne]

theorem eq_of_getElem? (hissues : unit.Issues ticket after)
    (hshown : after.worker.tickets[unit.worker.tickets.size]? = some shown) : shown = ticket := by
  rw [hissues.tickets_eq, Array.getElem?_push_size] at hshown
  exact (Option.some.inj hshown).symm

theorem mem_pending (hissues : unit.Issues ticket after) (hpending : number ∈ unit.worker.pending) :
    number ∈ after.worker.pending := by
  rw [Worker.pending, hissues.current_eq]
  rcases hissues.queue with ⟨hsame, -⟩ | ⟨job, -, hmore, -⟩
  · rw [hsame]
    exact hpending
  · rw [hmore, List.map_append, ← List.append_assoc]
    exact List.mem_append_left _ hpending

/-- The new ticket has the next number. -/
theorem numbers (hissues : unit.Issues ticket after) (hroster : unit.Roster taken) :
    (taken ++ after.worker.queue.map (·.ticket)).Pairwise (· < ·) ∧
      ∀ number ∈ taken ++ after.worker.queue.map (·.ticket),
        number < unit.worker.tickets.size + 1 := by
  rcases hissues.queue with ⟨hsame, -⟩ | ⟨job, hjob, hmore, -⟩
  · rw [hsame]
    exact ⟨hroster.increasing, fun i hi => Nat.lt_succ_of_lt (hroster.bounded i hi)⟩
  · rw [hmore, List.map_append, List.map_singleton, hjob]
    exact hroster.numbers_concat

/-- A program waits untouched, whether it has just been submitted or earlier. -/
theorem waiting (hissues : unit.Issues ticket after) (hroster : unit.Roster taken)
    (hwaits : number ∈ after.worker.queue.map (·.ticket))
    (hshown : after.worker.tickets[number]? = some shown) : shown.Untouched := by
  have hearlier (hwaits : number ∈ unit.worker.queue.map (·.ticket)) : shown.Untouched := by
    have hlt := hroster.bounded number (List.mem_append_right _ hwaits)
    rw [hissues.getElem?_of_ne (Nat.ne_of_lt hlt)] at hshown
    exact hroster.waiting number shown hwaits hshown
  rcases hissues.queue with ⟨hsame, -⟩ | ⟨job, hjob, hmore, huntouched⟩
  · exact hearlier (hsame ▸ hwaits)
  · rw [hmore, List.map_append, List.map_singleton, List.mem_append, List.mem_singleton] at hwaits
    rcases hwaits with hwaits | rfl
    · exact hearlier hwaits
    · rw [hjob] at hshown
      rw [hissues.eq_of_getElem? hshown]
      exact huntouched

/-- The program that has the unit keeps it. -/
theorem active (hissues : unit.Issues ticket after) (hroster : unit.Roster taken)
    {execution : Execution} (hcurrent : after.worker.current = some execution) :
    after.worker.status = .running ∧ taken.getLast? = some execution.ticket ∧
      ∀ shown, after.worker.tickets[execution.ticket]? = some shown → ∃ granted,
        shown.Active (after.frame execution.regs execution.retired) execution granted := by
  rw [hissues.current_eq] at hcurrent
  obtain ⟨hrunning, hlast, hactive⟩ := hroster.active execution hcurrent
  refine ⟨hissues.status_eq.trans hrunning, hlast, fun shown hshown => ?_⟩
  have hlt := hroster.bounded _ (List.mem_append_left _ (List.mem_of_getLast? hlast))
  rw [hissues.getElem?_of_ne (Nat.ne_of_lt hlt)] at hshown
  rw [frame, hissues.memory_eq]
  exact hactive shown hshown

/-- A program that is over has been refused now or was over before. -/
theorem ended (hissues : unit.Issues ticket after) (hroster : unit.Roster taken)
    (hover : number ∉ after.worker.pending)
    (hshown : after.worker.tickets[number]? = some shown) : ∃ granted, shown.Ended granted := by
  by_cases hnew : number = unit.worker.tickets.size
  · subst hnew
    rw [hissues.eq_of_getElem? hshown]
    rcases hissues.queue with ⟨-, hended⟩ | ⟨job, hjob, hmore, -⟩
    · exact hended
    · refine absurd ?_ hover
      rw [Worker.pending, hmore, List.map_append, List.map_singleton, hjob]
      exact List.mem_append_right _ (List.mem_append_right _ (List.mem_singleton_self _))
  · rw [hissues.getElem?_of_ne hnew] at hshown
    exact hroster.ended number shown (fun hpending => hover (hissues.mem_pending hpending)) hshown

end Issues

namespace Roster

variable {number : Nat}

/-- A ticket is issued. -/
theorem issue (hroster : unit.Roster taken) {ticket : Ticket} (hissues : unit.Issues ticket after) :
    after.Roster taken where
  increasing := (hissues.numbers hroster).1
  bounded := by
    rw [hissues.tickets_eq, Array.size_push]
    exact (hissues.numbers hroster).2
  waiting _ _ hwaits hshown := hissues.waiting hroster hwaits hshown
  active _ hcurrent := hissues.active hroster hcurrent
  ended _ _ hover hshown := hissues.ended hroster hover hshown
  idle := by
    rw [hissues.current_eq, hissues.stopRequested_eq, hissues.status_eq]
    exact hroster.idle

/-- A program is submitted. -/
theorem submit (hroster : unit.Roster taken) (program : Program) (mode : RunMode) :
    (unit.ask (.submit program mode)).Roster taken := by
  rw [ask, Worker.ask, Worker.submit]
  split
  next =>
    have huntouched : Ticket.Untouched { mode } := rfl
    exact hroster.issue ⟨.inr ⟨_, rfl, rfl, huntouched⟩, rfl, rfl, rfl, rfl, rfl⟩
  next =>
    have hended : (Ticket.finish { mode } {} none true).Ended 0 :=
      Ticket.ended_finish _ (fun _ => rfl) fun _ => Nat.le_refl 0
    exact hroster.issue ⟨.inl ⟨rfl, 0, hended⟩, rfl, rfl, rfl, rfl, rfl⟩

/-- The holder of a ticket asks for something that changes what is only between the ticket and the
unit. -/
theorem touch (hroster : unit.Roster taken) {f : Ticket → Ticket}
    (huntouched : ∀ ticket : Ticket, ticket.Untouched → (f ticket).Untouched)
    (hactive : ∀ (ticket : Ticket) frame execution granted,
      ticket.Active frame execution granted → ∃ granted, (f ticket).Active frame execution granted)
    (hended : ∀ (ticket : Ticket) granted, ticket.Ended granted → (f ticket).Ended granted) :
    Roster taken { unit with worker := unit.worker.modifyTicket number f } := by
  let touched : ExecutionUnit := { unit with worker := unit.worker.modifyTicket number f }
  have hkept {i : Nat} {ticket : Ticket} (hticket : touched.worker.tickets[i]? = some ticket) :
      ∃ old, unit.worker.tickets[i]? = some old ∧ (ticket = old ∨ ticket = f old) := by
    change (unit.worker.tickets.modify number f)[i]? = some ticket at hticket
    rw [Array.getElem?_modify] at hticket
    split at hticket
    · obtain ⟨old, hold, rfl⟩ := Option.map_eq_some_iff.mp hticket
      exact ⟨old, hold, .inr rfl⟩
    · exact ⟨ticket, hticket, .inl rfl⟩
  refine ⟨hroster.increasing, ?_, ?_, ?_, ?_, hroster.idle⟩
  · intro i hi
    change i < (unit.worker.tickets.modify number f).size
    rw [Array.size_modify]
    exact hroster.bounded i hi
  · intro i ticket hi hticket
    obtain ⟨old, hold, rfl | rfl⟩ := hkept hticket
    · exact hroster.waiting i ticket hi hold
    · exact huntouched old (hroster.waiting i old hi hold)
  · intro execution hexecution
    obtain ⟨hstatus, hlast, hcurrent⟩ := hroster.active execution hexecution
    refine ⟨hstatus, hlast, fun ticket hticket => ?_⟩
    obtain ⟨old, hold, rfl | rfl⟩ := hkept hticket
    · exact hcurrent ticket hold
    · obtain ⟨granted, hgranted⟩ := hcurrent old hold
      exact hactive old _ execution granted hgranted
  · intro i ticket hi hticket
    obtain ⟨old, hold, rfl | rfl⟩ := hkept hticket
    · exact hroster.ended i ticket hi hold
    · obtain ⟨granted, hover⟩ := hroster.ended i old hi hold
      exact ⟨granted, hended old granted hover⟩

end Roster

end ExecutionUnit

namespace Ticket

variable {ticket : Ticket} {shown : Frame} {execution : Execution} {granted : Nat}

theorem Ended.canStep_eq (hended : ticket.Ended granted) : ticket.canStep = false := by
  have hstate : ticket.state ≠ .stepInMode := by
    intro hparked
    have hfinished := hended.finished
    rw [hparked] at hfinished
    contradiction
  rw [canStep, beq_false_of_ne hstate, Bool.and_false, Bool.false_and, Bool.false_and]

/-- Letting go of a ticket does not touch its program. -/
theorem Untouched.letGo (huntouched : ticket.Untouched) : ticket.letGo.Untouched := by
  rw [Untouched, ticket.letGo_eq, huntouched]

theorem Active.letGo (hactive : ticket.Active shown execution granted) :
    ticket.letGo.Active shown execution granted := by
  rw [ticket.letGo_eq]
  exact ⟨hactive.fault_eq, hactive.running, hactive.stepped, hactive.retired_eq,
    hactive.pending_le, hactive.pending, hactive.parked⟩

theorem Ended.letGo (hended : ticket.Ended granted) : ticket.letGo.Ended granted := by
  rw [ticket.letGo_eq]
  exact ⟨hended.finished, hended.fault, hended.pendingSteps_eq, hended.retired_le⟩

end Ticket

namespace ExecutionUnit

variable {unit after start : ExecutionUnit} {taken : List Nat} {requests : List UnitRequest}
  {permits : Worker → UnitRequest → Prop}

/-- Whatever a unit is asked for, and whenever, the order is kept. -/
theorem Roster.ask (hroster : unit.Roster taken) (request : UnitRequest) :
    (unit.ask request).Roster taken := by
  cases request with
  | submit program mode => exact hroster.submit program mode
  | step number =>
    refine hroster.touch (fun ticket huntouched => ?_) (fun ticket frame execution granted hactive => ?_)
      fun ticket granted hended => ?_
    · rw [huntouched.queued.canStep_eq, if_neg Bool.false_ne_true]
      exact huntouched
    · by_cases hcan : ticket.canStep = true
      · have hready := hcan
        simp only [Ticket.canStep, Bool.and_eq_true, beq_iff_eq] at hready
        obtain ⟨⟨-, hparked⟩, hnone⟩ := hready
        exact ⟨granted + 1, hactive.grant hparked hnone⟩
      · rw [if_neg hcan]
        exact ⟨granted, hactive⟩
    · rw [hended.canStep_eq, if_neg Bool.false_ne_true]
      exact hended
  | drop number =>
    exact hroster.touch (fun _ huntouched => huntouched.letGo)
      (fun _ _ _ granted hactive => ⟨granted, hactive.letGo⟩) fun _ _ hended => hended.letGo
  | stop =>
    exact ⟨hroster.increasing, hroster.bounded, hroster.waiting, hroster.active, hroster.ended,
      fun _ hstop => absurd hstop.symm Bool.false_ne_true⟩

/-- No request takes back what a unit shows of its programs. -/
theorem precedes_ask (unit : ExecutionUnit) (request : UnitRequest) :
    unit.Precedes (unit.ask request) := by
  cases request with
  | submit program mode =>
    rw [ask, Worker.ask, Worker.submit]
    split
    · exact precedes_of_push rfl
    · exact precedes_of_push rfl
  | step number => exact precedes_of_modify rfl fun ticket _ => ticket.precedes_grant
  | drop number => exact precedes_of_modify rfl fun ticket _ => ticket.precedes_letGo
  | stop => exact precedes_of_tickets_eq rfl

theorem New.roster (hnew : start.New) : start.Roster [] := by
  have hstatus : start.worker.status = .idle := congrArg Worker.status hnew.worker_eq
  refine ⟨?_, ?_, ?_, ?_, ?_, fun _ _ => hstatus⟩
  · rw [hnew.queue_eq]
    exact List.Pairwise.nil
  · rw [hnew.queue_eq]
    exact fun _ hnumber => absurd hnumber List.not_mem_nil
  · rw [hnew.queue_eq]
    exact fun _ _ hnumber => absurd hnumber List.not_mem_nil
  · exact fun execution hexecution => absurd (hnew.current_eq.symm.trans hexecution) nofun
  · intro number ticket _ hticket
    rw [hnew.tickets_eq] at hticket
    exact absurd hticket nofun

namespace Record

/-- A unit that settles takes programs from its queue. -/
theorem settle (hrecord : Record permits start requests taken unit) {fuel : Nat}
    (hsettle : ExecutionUnit.settle fuel unit = .ok after) :
    ∃ jobs : List Job, unit.worker.queue = jobs ++ after.worker.queue ∧
      Record permits start requests (taken ++ jobs.map (·.ticket)) after := by
  induction fuel generalizing unit taken with
  | zero =>
    obtain rfl := Except.ok.inj hsettle
    exact ⟨[], rfl, (List.append_nil taken).symm ▸ hrecord⟩
  | succ fuel ih =>
    rw [ExecutionUnit.settle] at hsettle
    split at hsettle
    · obtain rfl := Except.ok.inj hsettle
      exact ⟨[], rfl, (List.append_nil taken).symm ▸ hrecord⟩
    · obtain ⟨middle, htick, hrest⟩ := bind_eq_ok hsettle
      obtain ⟨first, hfirst⟩ := (move_of_tick htick).exists_queue
      obtain ⟨jobs, hjobs, hafter⟩ := ih (hrecord.moves htick) hrest
      refine ⟨first ++ jobs, ?_, ?_⟩
      · rw [hfirst, hjobs, List.append_assoc]
      · rwa [leaving_of_queue_append hfirst, List.append_assoc, ← List.map_append] at hafter

/-- All programs were taken. -/
theorem settle_to_queue_nil (hrecord : Record permits start requests taken unit) {fuel : Nat}
    (hsettle : ExecutionUnit.settle fuel unit = .ok after) (hempty : after.worker.queue = []) :
    Record permits start requests (taken ++ unit.worker.queue.map (·.ticket)) after := by
  obtain ⟨jobs, hjobs, hafter⟩ := hrecord.settle hsettle
  rw [hempty, List.append_nil] at hjobs
  exact hjobs ▸ hafter

/-- There are no programs to take. -/
theorem settle_of_queue_nil (hrecord : Record permits start requests taken unit) {fuel : Nat}
    (hsettle : ExecutionUnit.settle fuel unit = .ok after) (hempty : unit.worker.queue = []) :
    Record permits start requests taken after ∧ after.worker.queue = [] := by
  obtain ⟨jobs, hjobs, hafter⟩ := hrecord.settle hsettle
  rw [hempty, List.nil_eq_append_iff] at hjobs
  obtain ⟨rfl, hafter'⟩ := hjobs
  rw [List.map_nil, List.append_nil] at hafter
  exact ⟨hafter, hafter'⟩

/-- At every moment of every history the programs of the unit are in order. -/
theorem roster (hrecord : Record permits start requests taken unit) (hnew : start.New) :
    unit.Roster taken := by
  induction hrecord with
  | nothing => exact hnew.roster
  | moves hunit htick ih => exact ((move_of_tick htick).roster ih).2
  | asks hunit hpermits ih => exact ih.ask _

end Record

theorem History.exists_record (hhistory : History permits start requests unit) :
    ∃ taken, Record permits start requests taken unit := by
  induction hhistory with
  | nothing => exact ⟨[], .nothing⟩
  | moves hunit htick ih =>
    obtain ⟨taken, hrecord⟩ := ih
    exact ⟨_, hrecord.moves htick⟩
  | asks hunit hpermits ih =>
    obtain ⟨taken, hrecord⟩ := ih
    exact ⟨taken, hrecord.asks hpermits⟩

end ExecutionUnit

end A64Machine
