import A64Machine.Counter
import A64Machine.Encoding.Group
import A64Machine.Fault
import A64Machine.Word

/-!
The counters that a processing unit keeps over all its programs.
-/

namespace A64Machine

def InstructionGroup.position : InstructionGroup → Nat
  | .reserved => 0
  | .sve => 1
  | .dataProcessingImmediate => 2
  | .branchExceptionSystem => 3
  | .dataProcessingRegister => 4
  | .simdFp => 5
  | .loadStore => 6

def InstructionGroup.index (group : InstructionGroup) : Fin 7 :=
  ⟨group.position, by cases group <;> decide⟩

/-- Counters of one unit. -/
structure Diagnostics where
  programsHandled : Nat := 0
  programsInterrupted : Nat := 0
  instructionsRetired : Nat := 0
  retiredByGroup : Vector Nat 7 := Vector.replicate 7 0
  faults : Nat := 0
  decodeFaults : Nat := 0
  executeFaults : Nat := 0
  memoryFaults : Nat := 0
  lastFault : Option (FaultCode × Doubleword) := none
  deriving Repr, DecidableEq

namespace Diagnostics

/-- Counts a fault raised at `pc` and remembers it. -/
def recordFault (counters : Diagnostics) (code : FaultCode) (pc : Doubleword) : Diagnostics :=
  let counters :=
    { counters with faults := increment counters.faults, lastFault := some (code, pc) }
  match code.faultClass with
  | .decode => { counters with decodeFaults := increment counters.decodeFaults }
  | .execute => { counters with executeFaults := increment counters.executeFaults }
  | .memory => { counters with memoryFaults := increment counters.memoryFaults }

def retiredOf (counters : Diagnostics) (group : InstructionGroup) : Nat :=
  counters.retiredByGroup[group.index]

def recordRetired (counters : Diagnostics) (group : InstructionGroup) : Diagnostics :=
  { counters with
    instructionsRetired := increment counters.instructionsRetired
    retiredByGroup :=
      counters.retiredByGroup.set group.index (increment (counters.retiredOf group)) }

def recordProgram (counters : Diagnostics) (interrupted : Bool) : Diagnostics :=
  { counters with
    programsHandled := increment counters.programsHandled
    programsInterrupted :=
      if interrupted then increment counters.programsInterrupted else counters.programsInterrupted }

end Diagnostics

end A64Machine
