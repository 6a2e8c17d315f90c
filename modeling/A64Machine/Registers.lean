import A64Machine.Word

/-!
The register file of one processing unit: thirty-one general registers, the program counter, one
stack pointer per exception level and the condition flags.  Register number 31 is the zero register
or the current stack pointer, depending on the accessor.
-/

namespace A64Machine

/-- Condition flags. -/
structure Flags where
  n : Bool := false
  z : Bool := false
  c : Bool := false
  v : Bool := false
  deriving Repr, DecidableEq

namespace Flags

/-- The flags from the low four bits of a number, N in bit 3. -/
def ofBits (bits : Nat) : Flags :=
  { n := bits.testBit 3, z := bits.testBit 2, c := bits.testBit 1, v := bits.testBit 0 }

def bits (flags : Flags) : Nat :=
  8 * flags.n.toNat + 4 * flags.z.toNat + 2 * flags.c.toNat + flags.v.toNat

end Flags

/-- Exception level, which selects the stack pointer in use. -/
inductive ExceptionLevel where
  | el0 | el1 | el2 | el3
  deriving Repr, DecidableEq

namespace ExceptionLevel

def all : List ExceptionLevel := [.el0, .el1, .el2, .el3]

def index : ExceptionLevel → Fin 4
  | .el0 => 0
  | .el1 => 1
  | .el2 => 2
  | .el3 => 3

end ExceptionLevel

def generalRegisterCount : Nat := 31

/-- The register that a branch with link writes. -/
def linkRegister : Nat := 30

/-- The register number that stands for zero or for the stack pointer. -/
def zeroOrSp : Nat := 31

/-- The registers of one unit; every register is zero at first. -/
@[ext] structure RegisterFile where
  x : Vector Doubleword 31 := Vector.replicate 31 0
  pc : Doubleword := 0
  sps : Vector Doubleword 4 := Vector.replicate 4 0
  el : ExceptionLevel := .el0
  nzcv : Flags := {}
  deriving Repr, DecidableEq

namespace RegisterFile

/-- Register `n`, where 31 and above read as zero. -/
def gpr (regs : RegisterFile) (n : Nat) : Doubleword :=
  if h : n < 31 then regs.x[n] else 0

/-- Writes register `n`; a write to 31 or above is discarded. -/
def setGpr (regs : RegisterFile) (n : Nat) (value : Doubleword) : RegisterFile :=
  { regs with x := regs.x.setIfInBounds n value }

def spOf (regs : RegisterFile) (el : ExceptionLevel) : Doubleword :=
  regs.sps[el.index]

/-- The stack pointer in use. -/
def sp (regs : RegisterFile) : Doubleword :=
  regs.spOf regs.el

def setSp (regs : RegisterFile) (value : Doubleword) : RegisterFile :=
  { regs with sps := regs.sps.set regs.el.index value }

/-- Register `n`, where 31 and above read the stack pointer in use. -/
def gprOrSp (regs : RegisterFile) (n : Nat) : Doubleword :=
  if n < zeroOrSp then regs.gpr n else regs.sp

/-- Writes register `n`, where 31 and above write the stack pointer in use. -/
def setGprOrSp (regs : RegisterFile) (n : Nat) (value : Doubleword) : RegisterFile :=
  if n < zeroOrSp then regs.setGpr n value else regs.setSp value

def setPc (regs : RegisterFile) (value : Doubleword) : RegisterFile :=
  { regs with pc := value }

def setEl (regs : RegisterFile) (el : ExceptionLevel) : RegisterFile :=
  { regs with el }

def setNzcv (regs : RegisterFile) (nzcv : Flags) : RegisterFile :=
  { regs with nzcv }

theorem gpr_setGpr (regs : RegisterFile) (n m : Nat) (value : Doubleword) :
    (regs.setGpr n value).gpr m = if n = m ∧ m < 31 then value else regs.gpr m := by
  unfold gpr setGpr
  by_cases h : m < 31
  · by_cases e : n = m <;> simp [h, e]
  · simp [h]

@[simp] theorem spOf_setGpr (regs : RegisterFile) (n : Nat) (value : Doubleword)
    (el : ExceptionLevel) : (regs.setGpr n value).spOf el = regs.spOf el := rfl

@[simp] theorem pc_setGpr (regs : RegisterFile) (n : Nat) (value : Doubleword) :
    (regs.setGpr n value).pc = regs.pc := rfl

end RegisterFile

end A64Machine
