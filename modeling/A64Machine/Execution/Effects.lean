import A64Machine.Registers
import A64Machine.UnitMemory

/-!
The effects of one instruction.  Execution only collects them; nothing changes until they are
committed, all together, so an instruction that faults leaves no trace in registers or stores.
-/

namespace A64Machine

/-- How register number 31 is meant as a destination: the zero register or the stack pointer. -/
inductive RegisterTarget where
  | data | address
  deriving Repr, DecidableEq

/-- A register write that waits to be committed. -/
structure RegisterWrite where
  reg : Nat
  value : Doubleword
  target : RegisterTarget
  deriving Repr, DecidableEq

/-- A store that waits to be committed; its address has been probed. -/
structure PendingStore where
  address : Doubleword
  bytes : Nat
  value : Doubleword
  deriving Repr, DecidableEq

/-- What an instruction does to registers, memory, flags and program counter. -/
structure Effects where
  writes : List RegisterWrite := []
  stores : List PendingStore := []
  flags : Option Flags := none
  nextPc : Doubleword
  deriving Repr, DecidableEq

/-- A write of a data register; number 31 is discarded. -/
def RegisterWrite.data (reg : Nat) (value : Doubleword) : RegisterWrite :=
  ⟨reg, value, .data⟩

/-- A write of an address register; number 31 is the stack pointer. -/
def RegisterWrite.address (reg : Nat) (value : Doubleword) : RegisterWrite :=
  ⟨reg, value, .address⟩

def RegisterFile.apply (regs : RegisterFile) (write : RegisterWrite) : RegisterFile :=
  match write.target with
  | .data => regs.setGpr write.reg write.value
  | .address => regs.setGprOrSp write.reg write.value

namespace Effects

def applyTo (effects : Effects) (regs : RegisterFile) : RegisterFile :=
  let written := effects.writes.foldl RegisterFile.apply regs
  let flagged := match effects.flags with
    | none => written
    | some flags => written.setNzcv flags
  flagged.setPc effects.nextPc

end Effects

def commitStores : List PendingStore → UnitMemory → Except Violation UnitMemory
  | [], memory => pure memory
  | pending :: rest, memory => do
    let memory ← memory.store pending.address pending.bytes pending.value
    commitStores rest memory

def commit (effects : Effects) (regs : RegisterFile) (memory : UnitMemory) :
    Except Violation (RegisterFile × UnitMemory) := do
  let memory ← commitStores effects.stores memory
  pure (effects.applyTo regs, memory)

end A64Machine
