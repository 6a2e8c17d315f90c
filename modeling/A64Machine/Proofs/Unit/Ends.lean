import A64Machine.Proofs.Unit.Course

/-!
How a course ends.  A unit that is left to run follows the course of its program to the end, and the
places that it visits are those of a machine that is stepped from the start of the program.
-/

namespace A64Machine

namespace Machine

/-- The machine after the given number of steps. -/
def iterate : Nat → Machine → Except Violation Machine
  | 0, machine => pure machine
  | count + 1, machine => do
    let (_, regs, memory) ← step machine.regs machine.memory
    iterate count ⟨regs, memory⟩

def frame (machine : Machine) (retired : Nat) : Frame :=
  .capture machine.regs retired machine.memory.stack.words

/-- The frame of a program after the given number of steps from its start. -/
def frameAfter (program : Program) (memory : UnitMemory) (count : Nat) : Except Violation Frame := do
  let machine ← start program memory
  let machine ← machine.iterate count
  pure (machine.frame count)

/-- What was reported before a program begins makes no difference to its machine. -/
theorem start_silent (program : Program) {memory other : UnitMemory}
    (hsilent : memory.silent = other.silent) :
    (start program memory).map (fun machine => (machine.regs, machine.memory.silent)) =
      (start program other).map fun machine => (machine.regs, machine.memory.silent) := by
  refine map_bind_congr UnitMemory.silent _ (UnitMemory.resetStack_silent hsilent) ?_
  intro cleared cleared' hcleared
  obtain ⟨hanswer, hloaded⟩ := UnitMemory.loadLines_silent program.words.toList
    (List.range ((program.words.toList.length + lineSize - 1) / lineSize)) hcleared
  refine map_bind_congr id _ (congrArg (Except.map id) hanswer) ?_
  intro _ _ _
  simp only [UnitMemory.map_of_silent_eq hloaded]
  exact congrArg (fun memory => Except.ok (ExecutionUnit.startRegisters program
    (UnitMemory.loadLines program.words.toList _ cleared').2.map, memory)) hloaded

end Machine

namespace Course

/-- Whether a course has come to a machine.  What was reported on the way is left out. -/
def IsAt (course : Course) (machine : Machine) : Prop :=
  machine.regs = course.execution.regs ∧ machine.memory.silent = course.memory.silent

theorem IsAt.frame_eq {course : Course} {machine : Machine} (hat : course.IsAt machine) :
    machine.frame course.execution.retired = course.frame := by
  obtain ⟨hregs, hmemory⟩ := hat
  obtain ⟨-, hstack, -⟩ := UnitMemory.mk.inj hmemory
  rw [Machine.frame, hregs, hstack]
  rfl

/-- A course that goes on has taken the step of its machine. -/
theorem IsAt.next {index : Nat} {course after : Course} {machine : Machine}
    (hat : course.IsAt machine) (hnext : course.next index = .ok (none, after)) :
    ∃ outcome regs memory, step machine.regs machine.memory = .ok (outcome, regs, memory) ∧
      after.IsAt ⟨regs, memory⟩ := by
  obtain ⟨hregs, hmemory⟩ := hat
  obtain ⟨-, -, outcome, memory, hstep, hkept⟩ := next_eq_ok hnext
  have hsilent := UnitMemory.step_silent course.execution.regs hmemory.symm
  obtain ⟨⟨outcome', regs, memory'⟩, hmachine, hlook⟩ := exists_of_map_eq hsilent hstep
  obtain ⟨-, hrest⟩ := Prod.mk.inj hlook
  obtain ⟨hregs', hmemory'⟩ := Prod.mk.inj hrest
  rw [hregs]
  exact ⟨outcome', regs, memory', hmachine, hregs'.symm, hmemory'.symm.trans hkept⟩

/-- The rest of a course: the places after each instruction that retires, the fault that ends it,
and its last place. -/
inductive Ends (index : Nat) : Course → List Course → Option FaultCode → Course → Prop
  | leaves {course : Course} (hleaves : course.Leaves) : Ends index course [] none course
  | faults {course last : Course} {cause : FaultCode} (hstays : ¬course.Leaves)
      (hnext : course.next index = .ok (some cause, last)) :
      Ends index course [] (some cause) last
  | retires {course after last : Course} {rest : List Course} {fault : Option FaultCode}
      (hstays : ¬course.Leaves) (hnext : course.next index = .ok (none, after))
      (hrest : Ends index after rest fault last) :
      Ends index course (after :: rest) fault last

namespace Ends

variable {index : Nat} {course last : Course} {visited : List Course} {fault : Option FaultCode}

theorem retired_eq (hends : Ends index course visited fault last) :
    last.execution.retired = course.execution.retired + visited.length := by
  induction hends with
  | leaves => rfl
  | faults hstays hnext => exact retired_of_faults hnext
  | retires hstays hnext hrest ih =>
    rw [ih, retired_of_retires hnext, List.length_cons, Nat.add_assoc, Nat.add_comm 1]

/-- The frames of a course are those of the machine that is stepped. -/
theorem iterate_eq (hends : Ends index course visited fault last) {machine : Machine}
    (hat : course.IsAt machine) {k : Nat} (hk : k < visited.length) :
    ∃ after, machine.iterate (k + 1) = .ok after ∧
      (visited[k]).frame = after.frame (course.execution.retired + (k + 1)) := by
  induction hends generalizing machine k with
  | leaves => contradiction
  | faults => contradiction
  | retires hstays hnext hrest ih =>
    obtain ⟨outcome, regs, memory, hstep, hat'⟩ := hat.next hnext
    have hretired := retired_of_retires hnext
    cases k with
    | zero =>
      refine ⟨⟨regs, memory⟩, ?_, ?_⟩
      · rw [Machine.iterate, hstep]
        rfl
      · have hframe := hat'.frame_eq
        rw [hretired] at hframe
        exact hframe.symm
    | succ k =>
      obtain ⟨after, hafter, hframe⟩ := ih hat' (Nat.lt_of_succ_lt_succ hk)
      refine ⟨after, ?_, ?_⟩
      · rw [Machine.iterate, hstep]
        exact hafter
      · rw [List.getElem_cons_succ, hframe, hretired, Nat.add_assoc, Nat.add_comm 1]

end Ends

variable {base : Worker} {ticket : Ticket} {course : Course} {program : Program}
  {memory : UnitMemory}

/-- A program whose image fits begins where its machine begins. -/
theorem enter_eq_started (henter : enter base program memory = .ok (none, course)) :
    program.length ≤ memory.hierarchy.size ∧ course.execution.ticket = base.tickets.size ∧
      course.execution.retired = 0 ∧
      ∃ machine, Machine.start program memory = .ok machine ∧ course.IsAt machine := by
  let started : UnitMemory := { memory with
    events := memory.events.push (.programStarted base.index program.entry) }
  have hreported : started.silent = memory.silent := rfl
  have hsilent := Machine.start_silent program hreported
  unfold enter at henter
  simp only at henter
  split at henter
  · have hfault := (Prod.mk.inj (Except.ok.inj henter)).1
    contradiction
  next hfits =>
    refine ⟨Nat.le_of_not_lt hfits, ?_⟩
    cases hstarted : Machine.start program started with
    | error violation =>
      rw [hstarted] at henter
      contradiction
    | ok machine =>
      obtain ⟨machine', hmachine, hlook⟩ := exists_of_map_eq hsilent hstarted
      obtain ⟨hregs, hmemory⟩ := Prod.mk.inj hlook
      rw [hstarted] at henter
      obtain ⟨-, rfl⟩ := Prod.mk.inj (Except.ok.inj henter)
      exact ⟨rfl, rfl, machine', hmachine, hregs.symm, hmemory.symm⟩

/-- A program whose image does not fit ends at once. -/
theorem enter_eq_rejected {cause : FaultCode}
    (henter : enter base program memory = .ok (some cause, course)) :
    memory.hierarchy.size < program.length ∧ course.execution.retired = 0 := by
  unfold enter at henter
  simp only at henter
  split at henter
  next hrejected =>
    obtain ⟨-, rfl⟩ := Prod.mk.inj (Except.ok.inj henter)
    exact ⟨hrejected, rfl⟩
  next hfits =>
    exfalso
    revert henter
    cases Machine.start program _ with
    | error violation =>
      intro henter
      contradiction
    | ok machine =>
      intro henter
      have hfault := (Prod.mk.inj (Except.ok.inj henter)).1
      contradiction

/-- A unit that is left to run follows the course of its program to the end. -/
theorem ends_of_settle (hstop : base.stopRequested = false)
    (hnumber : course.execution.ticket = base.tickets.size) (hheld : ticket.abandoned = false)
    (hmode : ticket.mode = .run) (hunparked : ticket.parked = false)
    (hopen : ticket.state.isFinished = false) {fuel : Nat} {unit : ExecutionUnit}
    (hsettle : ExecutionUnit.settle fuel (course.unit base ticket) = .ok unit)
    (hfinished : unit.worker.ticketIs base.tickets.size (·.state.isFinished)) :
    ∃ visited fault last, Ends base.index course visited fault last ∧
      unit = last.ended base ticket fault := by
  -- A run ticket does not change before the end, so the induction moves the course alone.
  induction fuel generalizing course with
  | zero =>
    obtain rfl := Except.ok.inj hsettle
    rw [← hnumber, ticketIs_unit hnumber, hopen] at hfinished
    contradiction
  | succ fuel ih =>
    have hbusy : (course.unit base ticket).worker.isSettled = false := by
      rw [isSettled_unit hstop hnumber, hunparked]
      rfl
    rw [ExecutionUnit.settle_succ hbusy, tick_unit hstop hnumber hheld, if_pos hmode] at hsettle
    by_cases hleaves : course.Leaves
    · rw [if_pos hleaves] at hsettle
      have hunit := ExecutionUnit.settle_ended base ticket course none fuel
      exact ⟨[], none, course, .leaves hleaves, Except.ok.inj (hsettle.symm.trans hunit)⟩
    · rw [if_neg hleaves, advanced] at hsettle
      cases hnext : course.next base.index with
      | error violation =>
        rw [hnext] at hsettle
        contradiction
      | ok result =>
        obtain ⟨fault, after⟩ := result
        rw [hnext] at hsettle
        cases fault with
        | none =>
          obtain ⟨rest, fault, last, hrest, hunit⟩ :=
            ih ((ticket_of_next hnext).trans hnumber) hsettle
          exact ⟨after :: rest, fault, last, .retires hleaves hnext hrest, hunit⟩
        | some cause =>
          have hunit := ExecutionUnit.settle_ended base ticket after (some cause) fuel
          exact ⟨[], some cause, after, .faults hleaves hnext,
            Except.ok.inj (hsettle.symm.trans hunit)⟩

end Course

end A64Machine
