import A64Machine.Execution.Plan

/-!
Execution of one instruction: fetch, decode, plan, perform, commit.  The performing phase makes the
loads of the plan and probes its stores, and ends with the effects to commit or with a fault.
-/

namespace A64Machine

/-- Makes the given loads in order; the first that faults ends the instruction. -/
def performLoads : List LoadRequest → UnitMemory →
    Except Violation (Answer (List RegisterWrite))
  | [], memory => pure (.ok [], memory)
  | request :: rest, memory => do
    match ← memory.load request.address request.bytes with
    | (.error fault, memory) => pure (.error fault, memory)
    | (.ok value, memory) =>
      match ← performLoads rest memory with
      | (.error fault, memory) => pure (.error fault, memory)
      | (.ok writes, memory) =>
        pure (.ok (.data request.reg (request.result value) :: writes), memory)

/-- Probes the given stores in order; the first that would fault decides. -/
def probeStores (memory : UnitMemory) : List PendingStore → Except FaultCode Unit
  | [] => pure ()
  | pending :: rest => do
    memory.probe pending.address pending.bytes
    probeStores memory rest

/-- Makes the loads of a plan and probes its stores. -/
def Plan.perform (plan : Plan) (memory : UnitMemory) : Except Violation (Answer Effects) := do
  match ← performLoads plan.loads memory with
  | (.error fault, memory) => pure (.error fault, memory)
  | (.ok loaded, memory) =>
    match probeStores memory plan.effects.stores with
    | .error fault => pure (.error fault, memory)
    | .ok () =>
      pure (.ok { plan.effects with writes := loaded ++ plan.effects.writes }, memory)

/-- Executes an instruction up to the commit. -/
def execute (instruction : Instruction) (regs : RegisterFile) (memory : UnitMemory) :
    Except Violation (Answer Effects) :=
  match plan instruction regs with
  | .error fault => pure (.error fault, memory)
  | .ok plan => plan.perform memory

/-- How one step ends. -/
inductive StepOutcome where
  | retired (pc : Doubleword) (word : Word) (group : InstructionGroup) (mnemonic : Mnemonic)
  | faulted (pc : Doubleword) (word : Option Word) (cause : FaultCode)
  deriving Repr, DecidableEq

/-- Executes the instruction at the program counter.  A step that faults commits nothing. -/
def step (regs : RegisterFile) (memory : UnitMemory) :
    Except Violation (StepOutcome × RegisterFile × UnitMemory) := do
  let pc := regs.pc
  match ← memory.fetch pc with
  | (.error cause, memory) => pure (.faulted pc none cause, regs, memory)
  | (.ok word, memory) =>
    match decode word with
    | .error fault => pure (.faulted pc (some word) fault.code, regs, memory)
    | .ok instruction =>
      match ← execute instruction regs memory with
      | (.error cause, memory) => pure (.faulted pc (some word) cause, regs, memory)
      | (.ok effects, memory) =>
        let (regs, memory) ← commit effects regs memory
        pure (.retired pc word instruction.group instruction.mnemonic, regs, memory)

end A64Machine
