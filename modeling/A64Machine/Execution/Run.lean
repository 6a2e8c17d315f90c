import A64Machine.Execution.Step

/-!
Runs: a register file that is stepped over one unit memory, with a record of every step taken.
-/

namespace A64Machine

/-- Registers and the memory they work on. -/
structure Machine where
  regs : RegisterFile
  memory : UnitMemory

/-- One step of a run: how it ended and the registers around it. -/
structure StepRecord where
  before : RegisterFile
  outcome : StepOutcome
  after : RegisterFile

/-- Why a run ends. -/
inductive StopReason where
  | limit | exit | fault
  deriving Repr, DecidableEq

def StepOutcome.isFault : StepOutcome → Bool
  | .retired .. => false
  | .faulted .. => true

namespace Machine

/-- Takes at most the given number of steps, until `leaves` holds of the program counter or a step
faults. -/
def run (leaves : Doubleword → Bool) :
    Nat → Machine → Except Violation (StopReason × List StepRecord × Machine)
  | 0, machine => pure (.limit, [], machine)
  | steps + 1, ⟨before, memory⟩ =>
    if leaves before.pc then pure (.exit, [], ⟨before, memory⟩)
    else do
      let (outcome, after, memory) ← step before memory
      let record : StepRecord := { before, outcome, after }
      if outcome.isFault then pure (.fault, [record], ⟨after, memory⟩)
      else
        let (reason, records, machine) ← run leaves steps ⟨after, memory⟩
        pure (reason, record :: records, machine)

end Machine

end A64Machine
