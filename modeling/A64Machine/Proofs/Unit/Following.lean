import A64Machine.Proofs.Execution.FlatRun
import A64Machine.Proofs.Unit.History

/-!
A unit follows the run of its program over the flat view.  Whatever was executed before, the program
begins on a clear stack and its own image, and after each instruction the registers and the words are
those of the flat machine after as many steps.
-/

namespace A64Machine

/-- Whether a program under way is where its run over the flat view is, when the run began on the
given words. -/
structure Execution.Follows (execution : Execution) (memory : UnitMemory) (words : UnitWords) :
    Prop where
  regs_eq : execution.regs = (FlatMachine.after execution.program words execution.retired).regs
  words_eq : memory.words = (FlatMachine.after execution.program words execution.retired).words
  stays : ∀ earlier < execution.retired,
    ¬(FlatMachine.after execution.program words earlier).Leaves execution.program

variable {execution : Execution} {memory after : UnitMemory} {words : UnitWords} {map : AddressMap}

/-- A program begins where its run begins. -/
theorem Machine.follows_of_start {program : Program} {machine : Machine}
    (hsound : memory.Sound map) (hfits : program.length ≤ memory.hierarchy.size)
    (hstart : Machine.start program memory = .ok machine) (ticket : Nat) :
    Execution.Follows { program, ticket, regs := machine.regs, retired := 0 } machine.memory
      memory.words := by
  obtain ⟨machine', hmachine, hregs, hserves⟩ := Machine.start_serves hsound.wellFormed hfits
  obtain rfl := Except.ok.inj (hmachine.symm.trans hstart)
  refine ⟨?_, hserves.words_eq hsound.coherent, fun earlier hlt => absurd hlt (Nat.not_lt_zero _)⟩
  rw [hregs, ← UnitMemory.map_words]
  rfl

namespace Execution.Follows

/-- The registers of the flat run, and its outcome, are those of the unit. -/
theorem step (hfollows : execution.Follows memory words) (hsound : memory.Sound map)
    {outcome : StepOutcome} {regs : RegisterFile}
    (hstep : A64Machine.step execution.regs memory = .ok (outcome, regs, after)) :
    outcome = (FlatMachine.after execution.program words execution.retired).outcome ∧
      regs = (FlatMachine.after execution.program words (execution.retired + 1)).regs ∧
      after.words = (FlatMachine.after execution.program words (execution.retired + 1)).words := by
  obtain ⟨outcome', regs', after', hstep', hserves⟩ :=
    UnitMemory.step_serves execution.regs hsound.wellFormed
  obtain ⟨rfl, hlast⟩ := Prod.mk.inj (Except.ok.inj (hstep'.symm.trans hstep))
  obtain ⟨rfl, rfl⟩ := Prod.mk.inj hlast
  have hends := hserves.value_eq hsound.coherent
  have hafter := hserves.words_eq hsound.coherent
  rw [hfollows.regs_eq, hfollows.words_eq] at hends hafter
  obtain ⟨houtcome, hregs⟩ := Prod.mk.inj hends
  exact ⟨houtcome, hregs, hafter⟩

theorem retire (hfollows : execution.Follows memory words) (hsound : memory.Sound map)
    (hstays : ¬execution.Leaves) {outcome : StepOutcome} {regs : RegisterFile}
    (hstep : A64Machine.step execution.regs memory = .ok (outcome, regs, after)) :
    Execution.Follows { execution with regs, retired := execution.retired + 1 } after words := by
  obtain ⟨-, hregs, hwords⟩ := hfollows.step hsound hstep
  refine ⟨hregs, hwords, ?_⟩
  intro earlier hlt
  rcases Nat.lt_succ_iff_lt_or_eq.mp hlt with hbefore | rfl
  · exact hfollows.stays earlier hbefore
  · rw [FlatMachine.Leaves, ← hfollows.regs_eq]
    exact hstays

/-- An instruction that faults leaves the unit where it was, at the address of the fault. -/
theorem fault (hfollows : execution.Follows memory words) (hsound : memory.Sound map)
    {pc : Doubleword} {word : Option Word} {cause : FaultCode} {regs : RegisterFile}
    (hstep : A64Machine.step execution.regs memory = .ok (.faulted pc word cause, regs, after)) :
    pc = execution.regs.pc ∧ regs = execution.regs ∧
      Execution.Follows execution after words := by
  obtain ⟨houtcome, hregs, hwords⟩ := hfollows.step hsound hstep
  obtain ⟨hpc, hsame⟩ := UnitWords.step_of_faulted houtcome.symm
  rw [← hfollows.regs_eq] at hpc
  have hnext : FlatMachine.after execution.program words (execution.retired + 1) =
      FlatMachine.after execution.program words execution.retired := by
    rw [FlatMachine.after, FlatMachine.next, hsame]
  rw [hnext] at hregs hwords
  exact ⟨hpc, hregs.trans hfollows.regs_eq.symm, hfollows.regs_eq, hwords, hfollows.stays⟩

theorem leaves_iff (hfollows : execution.Follows memory words) : execution.Leaves ↔
    (FlatMachine.after execution.program words execution.retired).Leaves execution.program := by
  rw [Execution.Leaves, FlatMachine.Leaves, hfollows.regs_eq]

/-- What has been reported in between makes no difference. -/
theorem of_words (hfollows : execution.Follows memory words) (hwords : after.words = memory.words) :
    execution.Follows after words :=
  ⟨hfollows.regs_eq, hwords.trans hfollows.words_eq, hfollows.stays⟩

end Execution.Follows

namespace ExecutionUnit

variable {unit later start : ExecutionUnit}

end ExecutionUnit

end A64Machine
