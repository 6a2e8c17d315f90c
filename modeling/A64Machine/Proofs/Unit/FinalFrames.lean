import A64Machine.Proofs.Unit.Following

/-!
The last frame of a program that faults.  An instruction that faults is shown where it is: the
program counter of the frame is that of the event and of the counters, and on the stack is what the
program stored.  A program whose image does not fit is shown otherwise, since it is turned away before
its registers are set up and before the stack is cleared.
-/

namespace A64Machine

namespace ExecutionUnit

variable {unit after start : ExecutionUnit}

/-- A ticket that has changed is the one that was changed. -/
theorem eq_of_getElem?_modify {tickets : Array Ticket} {number changed : Nat} {f : Ticket → Ticket}
    {old ticket : Ticket} (hold : tickets[number]? = some old)
    (hticket : (tickets.modify changed f)[number]? = some ticket) (hchanged : ticket ≠ old) :
    changed = number ∧ ticket = f old := by
  rw [Array.getElem?_modify, hold] at hticket
  split at hticket
  next hsame => exact ⟨hsame, (Option.some.inj hticket).symm⟩
  next => exact absurd (Option.some.inj hticket).symm hchanged

/-- A change that raises no fault leaves a ticket without one. -/
theorem fault_modify {tickets : Array Ticket} {number changed : Nat} (f : Ticket → Ticket)
    (hquiet : ∀ ticket, ticket.fault = none → (f ticket).fault = none) {old : Ticket}
    (hold : tickets[number]? = some old) (hopen : old.fault = none) :
    ∃ ticket, (tickets.modify changed f)[number]? = some ticket ∧ ticket.fault = none := by
  rw [Array.getElem?_modify, hold]
  split
  · exact ⟨f old, rfl, hquiet old hopen⟩
  · exact ⟨old, rfl, hopen⟩

theorem fault_granted (worker : Worker) (execution : Execution) {number : Nat} {old : Ticket}
    (hold : worker.tickets[number]? = some old) (hopen : old.fault = none) :
    ∃ ticket, (worker.granted execution).tickets[number]? = some ticket ∧ ticket.fault = none := by
  unfold Worker.granted
  split
  · exact ⟨old, hold, hopen⟩
  · exact fault_modify (·.takeStep) (fun _ hnone => hnone) hold hopen

/-- The move in which a program ends with a fault is the rejection of its image or an instruction
that faults. -/
theorem Move.faulted (hmove : unit.Move after) {number : Nat} {old ticket : Ticket}
    {cause : FaultCode} (hold : unit.worker.tickets[number]? = some old) (hopen : old.fault = none)
    (hticket : after.worker.tickets[number]? = some ticket) (hfault : ticket.fault = some cause) :
    (∃ job rest, job.ticket = number ∧ unit.worker.current = none ∧
      unit.worker.queue = job :: rest ∧ unit.memory.hierarchy.size < job.program.length ∧
      cause = .dataAbort ∧ after = unit.rejected job rest ∧
      ticket = old.finish ((unit.taken job rest).frame {} 0) (some cause) true) ∨
    ∃ execution pc word regs memory granted, execution.ticket = number ∧ unit.Executes execution ∧
      step execution.regs unit.memory = .ok (.faulted pc word cause, regs, memory) ∧
      after = (((unit.executed execution memory
        (fetched unit.worker.index pc word)).recordFault cause pc).finish
          { execution with regs } (some cause) true) ∧
      ticket = Ticket.finish granted (.capture regs execution.retired memory.stack.words)
        (some cause) true := by
  have hkept (hquiet : ∃ other, after.worker.tickets[number]? = some other ∧ other.fault = none) :
      False := by
    obtain ⟨other, hother, hnone⟩ := hquiet
    obtain rfl := Option.some.inj (hother.symm.trans hticket)
    rw [hnone] at hfault
    contradiction
  cases hmove with
  | idles => exact (hkept ⟨old, hold, hopen⟩).elim
  | discards =>
    exact (hkept (fault_modify (·.finish {} none true) (fun _ _ => rfl) hold hopen)).elim
  | begins => exact (hkept (fault_modify (·.begin _) (fun _ hnone => hnone) hold hopen)).elim
  | ends => exact (hkept (fault_modify (·.finish _ none _) (fun _ _ => rfl) hold hopen)).elim
  | parks => exact (hkept (fault_modify (·.park _) (fun _ hnone => hnone) hold hopen)).elim
  | retires => exact (hkept (fault_granted unit.worker _ hold hopen)).elim
  | @rejects job rest hcurrent hqueue hstop htoolong =>
    have hchanged : ticket ≠ old := by
      rintro rfl
      rw [hopen] at hfault
      contradiction
    obtain ⟨hnumber, rfl⟩ := eq_of_getElem?_modify hold hticket hchanged
    obtain rfl := Option.some.inj hfault
    exact .inl ⟨job, rest, hnumber, hcurrent, hqueue, htoolong, rfl, rfl, rfl⟩
  | @faults execution pc word raised regs memory hexecutes hstep =>
    obtain ⟨granted, hgranted, hnone⟩ := fault_granted unit.worker execution hold hopen
    have hchanged : ticket ≠ granted := by
      rintro rfl
      rw [hnone] at hfault
      contradiction
    obtain ⟨hnumber, rfl⟩ := eq_of_getElem?_modify hgranted hticket hchanged
    obtain rfl := Option.some.inj hfault
    exact .inr ⟨execution, pc, word, regs, memory, granted, hnumber, hexecutes, hstep, rfl, rfl⟩

end ExecutionUnit

end A64Machine
