import A64Machine.Proofs.Execution.FlatSteps
import A64Machine.Proofs.Unit.Predecessors

/-!
A program that runs to its end.  When the flat run of a program retires so many instructions and
then leaves the image, a unit to which the program is submitted does the same, and its ticket shows
the registers and the stack with which the flat run ends.
-/

namespace A64Machine

/-- What is published about a program that ran to its end. -/
def Ticket.completed (count : Nat) (last : FlatMachine) : Ticket :=
  { mode := .run, state := .ready, frame := .capture last.regs count last.words.stack }

/-- Whether a ticket is that of a program that goes on by itself and that nobody has let go. -/
structure Ticket.GoesOn (ticket : Ticket) : Prop where
  mode : ticket.mode = .run
  held : ticket.abandoned = false
  moving : ticket.parked = false

namespace Course

variable {idle : ExecutionUnit} {program : Program} {events : List Event} {course : Course}

/-- A course goes on by an instruction that the flat run retires. -/
theorem Of.retires (hof : course.Of idle program events) {first : FlatMachine}
    (hfirst : FlatMachine.after program idle.memory.words course.execution.retired = first)
    (hstays : ¬first.Leaves program) {pc : Doubleword} {word : Word} {group : InstructionGroup}
    {mnemonic : Mnemonic} (houtcome : first.outcome = .retired pc word group mnemonic) :
    ∃ after events', course.next idle.worker.index = .ok (none, after) ∧
      after.Of idle program events' ∧
      after.execution.retired = course.execution.retired + 1 := by
  subst hfirst
  obtain ⟨fault, after, hnext, hends⟩ := hof.next (mt hof.leaves_iff.mp hstays)
  rw [houtcome] at hends
  obtain ⟨rfl, hretired, hafter⟩ := hends
  exact ⟨after, _, hnext, hafter, hretired⟩

/-- A unit in the middle of a program that goes on by itself ends the program when it has left its
image, and otherwise executes one instruction. -/
theorem Of.settle_succ (hof : course.Of idle program events)
    (hstop : idle.worker.stopRequested = false) {ticket : Ticket} (hgoes : ticket.GoesOn)
    (fuel : Nat) :
    ExecutionUnit.settle (fuel + 1) (course.unit idle.worker ticket) =
      if course.Leaves then .ok (course.ended idle.worker ticket none)
      else course.advanced idle.worker ticket >>= ExecutionUnit.settle fuel := by
  have hopen : (course.unit idle.worker ticket).worker.isSettled = false := by
    rw [isSettled_unit hstop hof.number, hgoes.moving]
    rfl
  rw [ExecutionUnit.settle_succ hopen, tick_unit hstop hof.number hgoes.held, if_pos hgoes.mode]
  split
  · exact ExecutionUnit.settle_ended idle.worker ticket course none fuel
  · rfl

/-- It comes to the end of the program when the flat run does. -/
theorem Of.settle_eq {count : Nat} {first last : FlatMachine}
    (hretires : FlatMachine.Retires program count first last) (hleaves : last.Leaves program)
    (hstop : idle.worker.stopRequested = false) {ticket : Ticket} (hgoes : ticket.GoesOn)
    (hof : course.Of idle program events)
    (hfirst : FlatMachine.after program idle.memory.words course.execution.retired = first)
    {fuel : Nat} (hfuel : count < fuel) :
    ∃ done : Course, ExecutionUnit.settle fuel (course.unit idle.worker ticket) =
        .ok (done.ended idle.worker ticket none) ∧
      done.frame =
        .capture last.regs (course.execution.retired + count) last.words.stack := by
  obtain ⟨fuel, rfl⟩ := Nat.exists_eq_succ_of_ne_zero (Nat.ne_zero_of_lt hfuel)
  induction hretires generalizing course events fuel with
  | nothing machine =>
    have hend := hof.leaves_iff.mpr (hfirst ▸ hleaves)
    refine ⟨course, ?_, ?_⟩
    · rw [hof.settle_succ hstop hgoes, if_pos hend]
    · rw [hof.frame_eq, hfirst]
      rfl
  | @one count first last hstays pc word group mnemonic houtcome hlater ih =>
    obtain ⟨after, events', hnext, hafter, hretired⟩ := hof.retires hfirst hstays houtcome
    have hinside : ¬course.Leaves := mt hof.leaves_iff.mp (hfirst ▸ hstays)
    have hadvanced : course.advanced idle.worker ticket = .ok (after.unit idle.worker ticket) := by
      rw [advanced, hnext]
      rfl
    have hsecond : FlatMachine.after program idle.memory.words after.execution.retired =
        first.next := by
      rw [hretired, FlatMachine.after, hfirst]
    have hless := Nat.lt_of_succ_lt_succ hfuel
    obtain ⟨fuel, rfl⟩ := Nat.exists_eq_succ_of_ne_zero (Nat.ne_zero_of_lt hless)
    obtain ⟨done, hsettle, hframe⟩ := ih hleaves hafter hsecond fuel hless
    refine ⟨done, ?_, ?_⟩
    · rw [hof.settle_succ hstop hgoes, if_neg hinside, hadvanced]
      exact hsettle
    · rw [hframe, hretired, Nat.add_right_comm, Nat.add_assoc]

end Course

/-- An idle unit runs a program to its end. -/
theorem ExecutionUnit.Idle.completes {unit : ExecutionUnit} (hidle : unit.Idle)
    (hsound : unit.memory.Sound unit.memory.map) {program : Program}
    (hfits : program.length ≤ unit.memory.hierarchy.size) {count : Nat} {last : FlatMachine}
    (hretires : FlatMachine.Retires program count (.start program unit.memory.words) last)
    (hleaves : last.Leaves program) {fuel : Nat} (hfuel : count + 2 ≤ fuel) :
    ∃ settled, settle fuel (unit.submitted program .run) = .ok settled ∧
      settled.worker.tickets = unit.worker.tickets.push (.completed count last) := by
  obtain ⟨fuel, rfl⟩ := Nat.exists_eq_succ_of_ne_zero (Nat.ne_zero_of_lt hfuel)
  obtain ⟨course, henter, hof, hnone⟩ := Course.exists_enter hsound hfits
  have hopen : (unit.submitted program .run).worker.isSettled = false := by
    rw [submitted, hidle.submit_eq, Worker.isSettled, hidle.current]
    rfl
  have hfirst : FlatMachine.after program unit.memory.words course.execution.retired =
      .start program unit.memory.words := by
    rw [hnone]
    rfl
  have hgoes : (Ticket.begin { mode := .run } course.frame).GoesOn := ⟨rfl, rfl, rfl⟩
  obtain ⟨done, hsettle, hframe⟩ := hof.settle_eq hretires hleaves hidle.stopRequested hgoes hfirst
    (Nat.lt_of_succ_lt_succ hfuel)
  refine ⟨done.ended unit.worker (Ticket.begin { mode := .run } course.frame) none, ?_, ?_⟩
  · rw [settle_succ hopen, hidle.tick_submitted, henter]
    exact hsettle
  · rw [hnone, Nat.zero_add] at hframe
    rw [Course.ended, hframe]
    rfl

end A64Machine
