import A64Machine.Registers

/-!
Arithmetic of the instruction set on values of a given width: addition with carry and its flags,
shifts, and the bit masks that immediates encode.
-/

namespace A64Machine

/-- Operand size of an instruction. -/
inductive OperandWidth where
  | w32 | w64
  deriving Repr, DecidableEq

namespace OperandWidth

/-- The width that bit 31 of an instruction word selects. -/
def ofBit (sf : Bool) : OperandWidth :=
  if sf then .w64 else .w32

@[reducible] def bits : OperandWidth → Nat
  | .w32 => 32
  | .w64 => 64

def bytes : OperandWidth → Nat
  | .w32 => 4
  | .w64 => 8

/-- The low bits of `value` at this width, zero-extended. -/
def truncate (width : OperandWidth) (value : Doubleword) : Doubleword :=
  (value.setWidth width.bits).setWidth 64

/-- The value with every bit of this width set. -/
def mask (width : OperandWidth) : Doubleword :=
  (BitVec.allOnes width.bits).setWidth 64

end OperandWidth

/-- Sign-extends the low `bits` bits of `value`; zero bits and 64 bits or more keep the value. -/
def signExtend (value : Doubleword) (bits : Nat) : Doubleword :=
  if bits = 0 ∨ 64 ≤ bits then value else (value.setWidth bits).signExtend 64

/-- The sum of two values and a carry at their width, with the flags of that addition: C tells
whether the unsigned sum overflows, V whether the signed one does. -/
def addWithCarry {w : Nat} (x y : BitVec w) (carry : Bool) : BitVec w × Flags :=
  let result := x + y + BitVec.ofNat w carry.toNat
  (result,
    { n := result.msb
      z := result == 0
      c := BitVec.carry w x y carry
      v := decide (x.toInt + y.toInt + carry.toNat ≠ result.toInt) })

/-- The flags of a logical result: N is the top bit at the given width, Z says that all 64 bits are
zero, C and V are clear.  A result of the instruction set is zero above its width. -/
def logicalFlags (width : OperandWidth) (result : Doubleword) : Flags :=
  { n := result.getLsbD (width.bits - 1), z := result == 0 }

/-- Kinds of shift. -/
inductive ShiftKind where
  | lsl | lsr | asr | ror
  deriving Repr, DecidableEq

/-- The kind that the low two bits of a number encode. -/
def ShiftKind.ofBits (bits : Nat) : ShiftKind :=
  match bits % 4 with
  | 0 => .lsl
  | 1 => .lsr
  | 2 => .asr
  | _ => .ror

/-- Shifts or rotates a value by `amount` modulo its width. -/
def ShiftKind.apply {w : Nat} (kind : ShiftKind) (value : BitVec w) (amount : Nat) : BitVec w :=
  match kind with
  | .lsl => value <<< (amount % w)
  | .lsr => value >>> (amount % w)
  | .asr => value.sshiftRight (amount % w)
  | .ror => value.rotateRight (amount % w)

/-- Decodes the bit mask that `n`, `imms` and `immr` encode at width `w`.  The element size is the
highest power of two in `n : ~imms`; the element of the first mask holds `imms + 1` ones rotated
right by `immr`, that of the second `imms - immr + 1` ones, all modulo the element size, and both
are repeated to the full width.  With `immediate`, an element of ones alone is reserved. -/
def bitMasks? (w : Nat) (n : Bool) (imms immr : Nat) (immediate : Bool) :
    Option (BitVec w × BitVec w) :=
  let selector := 64 * n.toNat + (63 - imms % 64)
  let size := 1 <<< selector.log2
  if selector = 0 ∨ size < 2 ∨ w < size then
    none
  else
    let s := imms % size
    let r := immr % size
    if immediate ∧ s = size - 1 then
      none
    else
      let d := (s + size - r) % size
      let copies := w / size
      let first := ((lowOnes size (s + 1)).rotateRight r).replicate copies
      let second := (lowOnes size (d + 1)).replicate copies
      some (first.setWidth w, second.setWidth w)

end A64Machine
