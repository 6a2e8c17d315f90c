import A64Machine.Proofs.Unit.Turns

/-!
Which programs the tickets of a unit belong to.  Tickets are numbered as programs are submitted, and
a program keeps its number in the queue and while it has the unit.
-/

namespace A64Machine

/-- The program that is submitted, if the request is to submit one. -/
def UnitRequest.program? : UnitRequest → Option Program
  | .submit program _ => some program
  | _ => none

/-- The programs that were submitted, the first one first. -/
def submissions (requests : List UnitRequest) : List Program :=
  requests.reverse.filterMap UnitRequest.program?

theorem submissions_cons (request : UnitRequest) (requests : List UnitRequest) :
    submissions (request :: requests) = submissions requests ++ request.program?.toList := by
  rw [submissions, List.reverse_cons, List.filterMap_append]
  cases hprogram : request.program? with
  | none => rw [List.filterMap_cons_none hprogram]; rfl
  | some program => rw [List.filterMap_cons_some hprogram]; rfl

namespace ExecutionUnit

variable {unit after start : ExecutionUnit} {requests : List UnitRequest}

/-- Whether the programs of a unit are those that were submitted. -/
structure Submitted (requests : List UnitRequest) (unit : ExecutionUnit) : Prop where
  size_eq : unit.worker.tickets.size = (submissions requests).length
  queue : ∀ job ∈ unit.worker.queue, (submissions requests)[job.ticket]? = some job.program
  current : ∀ execution, unit.worker.current = some execution →
    (submissions requests)[execution.ticket]? = some execution.program

theorem Submitted.head (hsubmitted : unit.Submitted requests) {job : Job} {rest : List Job}
    (hqueue : unit.worker.queue = job :: rest) :
    (submissions requests)[job.ticket]? = some job.program :=
  hsubmitted.queue job (hqueue ▸ List.mem_cons_self)

theorem Submitted.tail (hsubmitted : unit.Submitted requests) {job : Job} {rest : List Job}
    (hqueue : unit.worker.queue = job :: rest) :
    ∀ job ∈ rest, (submissions requests)[job.ticket]? = some job.program :=
  fun job hjob => hsubmitted.queue job (hqueue ▸ List.mem_cons_of_mem _ hjob)

/-- A move makes no tickets, and takes no programs but those of the queue. -/
theorem Move.submitted (hmove : unit.Move after) (hsubmitted : unit.Submitted requests) :
    after.Submitted requests := by
  have hsize {number : Nat} {f : Ticket → Ticket} :
      (unit.worker.tickets.modify number f).size = (submissions requests).length :=
    Array.size_modify.trans hsubmitted.size_eq
  cases hmove with
  | idles => exact hsubmitted
  | discards _ hqueue => exact ⟨hsize, hsubmitted.tail hqueue, hsubmitted.current⟩
  | rejects _ hqueue => exact ⟨hsize, hsubmitted.tail hqueue, nofun⟩
  | begins _ hqueue =>
    refine ⟨hsize, hsubmitted.tail hqueue, fun execution hexecution => ?_⟩
    obtain rfl := Option.some.inj hexecution
    exact hsubmitted.head hqueue
  | ends => exact ⟨hsize, hsubmitted.queue, nofun⟩
  | parks => exact ⟨hsize, hsubmitted.queue, hsubmitted.current⟩
  | @retires current pc word group mnemonic regs memory hexecutes =>
    refine ⟨?_, ?_, fun execution hexecution => ?_⟩
    · change (unit.worker.granted current).tickets.size = _
      rw [Worker.tickets_granted]
      exact hsize
    · change ∀ job ∈ (unit.worker.granted current).queue, _
      rw [Worker.queue_granted]
      exact hsubmitted.queue
    · obtain rfl := Option.some.inj hexecution
      exact hsubmitted.current current hexecutes.current
  | @faults current pc word cause regs memory =>
    refine ⟨?_, ?_, nofun⟩
    · rw [tickets_faulted]
      exact hsize
    · change ∀ job ∈ (unit.worker.granted current).queue, _
      rw [Worker.queue_granted]
      exact hsubmitted.queue

/-- What is asked for is numbered as it is submitted. -/
theorem Submitted.ask (hsubmitted : unit.Submitted requests) (request : UnitRequest) :
    (unit.ask request).Submitted (request :: requests) := by
  have hkept {number : Nat} {program : Program}
      (hold : (submissions requests)[number]? = some program) :
      (submissions (request :: requests))[number]? = some program := by
    rw [submissions_cons, List.getElem?_append_left (List.getElem?_eq_some_iff.mp hold).1]
    exact hold
  have hcurrent : ∀ execution, (unit.ask request).worker.current = some execution →
      (submissions (request :: requests))[execution.ticket]? = some execution.program := by
    intro execution hexecution
    rw [ExecutionUnit.ask, Worker.current_ask] at hexecution
    exact hkept (hsubmitted.current execution hexecution)
  have hqueue : ∀ job ∈ unit.worker.queue,
      (submissions (request :: requests))[job.ticket]? = some job.program :=
    fun job hjob => hkept (hsubmitted.queue job hjob)
  have hsize (hnone : request.program? = none) :
      unit.worker.tickets.size = (submissions (request :: requests)).length := by
    rw [submissions_cons, hnone, Option.toList_none, List.append_nil]
    exact hsubmitted.size_eq
  cases request with
  | submit program mode =>
    have hmore : submissions (.submit program mode :: requests) = submissions requests ++ [program] :=
      submissions_cons _ _
    have hpushed {ticket : Ticket} : (unit.worker.tickets.push ticket).size =
        (submissions (.submit program mode :: requests)).length := by
      rw [hmore, Array.size_push, List.length_append, hsubmitted.size_eq]
      rfl
    rw [ExecutionUnit.ask, Worker.ask, Worker.submit] at hcurrent ⊢
    split at hcurrent
    next haccepts =>
      rw [if_pos haccepts]
      refine ⟨hpushed, fun job hjob => ?_, hcurrent⟩
      rcases List.mem_append.mp hjob with hold | hnew
      · exact hqueue job hold
      · rw [List.mem_singleton.mp hnew, hmore, hsubmitted.size_eq, List.getElem?_concat_length]
    next hrefuses =>
      rw [if_neg hrefuses]
      exact ⟨hpushed, hqueue, hcurrent⟩
  | step number => exact ⟨Array.size_modify.trans (hsize rfl), hqueue, hcurrent⟩
  | drop number => exact ⟨Array.size_modify.trans (hsize rfl), hqueue, hcurrent⟩
  | stop => exact ⟨hsize rfl, hqueue, hcurrent⟩

/-- At every moment of every history. -/
theorem History.submitted {permits : Worker → UnitRequest → Prop}
    (hhistory : History permits start requests unit) (hnew : start.New) :
    unit.Submitted requests := by
  induction hhistory with
  | nothing =>
    refine ⟨?_, ?_, fun execution hexecution => ?_⟩
    · rw [hnew.tickets_eq]
      rfl
    · rw [hnew.queue_eq]
      exact fun job hjob => absurd hjob List.not_mem_nil
    · exact absurd (hnew.current_eq.symm.trans hexecution) nofun
  | moves hunit htick ih => exact (move_of_tick htick).submitted ih
  | asks hunit hpermits ih => exact ih.ask _

end ExecutionUnit

end A64Machine
