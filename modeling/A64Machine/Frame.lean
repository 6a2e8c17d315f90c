import A64Machine.AddressMap
import A64Machine.Registers

/-!
Frames: snapshots of what a unit shows of itself, its registers and its private stack.
-/

namespace A64Machine

/-- A copy of consecutive words that start at byte address `base`. -/
structure MemoryView where
  base : Doubleword := 0
  words : Array Word := #[]
  deriving Repr, DecidableEq

/-- The aligned word at a byte address, if the view holds it. -/
def MemoryView.read (view : MemoryView) (address : Doubleword) : Option Word :=
  if address.toNat % wordBytes ≠ 0 ∨ address.toNat < view.base.toNat then
    none
  else
    view.words[(address.toNat - view.base.toNat) / wordBytes]?

/-- A snapshot of a unit while it executes a program.  The frame of a program that has not begun is
all zero. -/
structure Frame where
  gprs : Vector Doubleword 31 := Vector.replicate 31 0
  sp : Doubleword := 0
  pc : Doubleword := 0
  nzcv : Flags := {}
  retired : Nat := 0
  memory : MemoryView := {}
  deriving Repr, DecidableEq

def Frame.capture (regs : RegisterFile) (retired : Nat) (stack : Array Word) : Frame :=
  { gprs := regs.x
    sp := regs.sp
    pc := regs.pc
    nzcv := regs.nzcv
    retired
    memory := ⟨BitVec.ofNat 64 stackBase, stack⟩ }

end A64Machine
