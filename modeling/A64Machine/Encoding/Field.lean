import A64Machine.Word

/-!
Named bit fields of the A64 encoding.  A field is a fixed slice of the instruction word; several
names may denote the same slice.
-/

namespace A64Machine

/-- A named slice of an instruction word. -/
inductive InstructionField where
  | decodeFields | cond | imm3 | imm5 | imm6 | imm7 | imm9 | imm12 | imm14 | imm16 | imm19
  | imm26 | immHi | immLo | imms | immr | uImm4 | uImm6 | hw | ra | rd | rm | rn | rt | rt2
  | sh | cRm | cRn | size | sf | option | shift | nzcv | a | l | m | n | s | z | op1 | op2
  | opc | o0 | b5 | b40
  deriving Repr, DecidableEq

namespace InstructionField

/-- Every field in the order of the registry. -/
def all : List InstructionField :=
  [.decodeFields, .cond, .imm3, .imm5, .imm6, .imm7, .imm9, .imm12, .imm14, .imm16, .imm19,
   .imm26, .immHi, .immLo, .imms, .immr, .uImm4, .uImm6, .hw, .ra, .rd, .rm, .rn, .rt, .rt2,
   .sh, .cRm, .cRn, .size, .sf, .option, .shift, .nzcv, .a, .l, .m, .n, .s, .z, .op1, .op2,
   .opc, .o0, .b5, .b40]

/-- Bit offset and width of a field. -/
@[reducible] def layout : InstructionField → Nat × Nat
  | .decodeFields => (25, 4)
  | .cond => (0, 4)
  | .imm3 => (10, 3)
  | .imm5 => (16, 5)
  | .imm6 => (10, 6)
  | .imm7 => (15, 7)
  | .imm9 => (12, 9)
  | .imm12 => (10, 12)
  | .imm14 => (5, 14)
  | .imm16 => (5, 16)
  | .imm19 => (5, 19)
  | .imm26 => (0, 26)
  | .immHi => (5, 19)
  | .immLo => (29, 2)
  | .imms => (10, 6)
  | .immr => (16, 6)
  | .uImm4 => (10, 4)
  | .uImm6 => (16, 6)
  | .hw => (21, 2)
  | .ra => (10, 5)
  | .rd => (0, 5)
  | .rm => (16, 5)
  | .rn => (5, 5)
  | .rt => (0, 5)
  | .rt2 => (10, 5)
  | .sh => (22, 1)
  | .cRm => (8, 4)
  | .cRn => (12, 4)
  | .size => (30, 2)
  | .sf => (31, 1)
  | .option => (13, 3)
  | .shift => (22, 2)
  | .nzcv => (0, 4)
  | .a => (11, 1)
  | .l => (21, 1)
  | .m => (10, 1)
  | .n => (22, 1)
  | .s => (12, 1)
  | .z => (24, 1)
  | .op1 => (16, 3)
  | .op2 => (5, 3)
  | .opc => (22, 2)
  | .o0 => (19, 1)
  | .b5 => (31, 1)
  | .b40 => (19, 5)

@[reducible] def offset (field : InstructionField) : Nat := field.layout.1

@[reducible] def width (field : InstructionField) : Nat := field.layout.2

/-- The slice of `word` that a field names. -/
def extract (field : InstructionField) (word : Word) : BitVec field.width :=
  word.extractLsb' field.offset field.width

end InstructionField

/-! Operands of an instruction word, read through the registry. -/

namespace Operand

/-- Destination register number. -/
def rd (word : Word) : Nat := (InstructionField.rd.extract word).toNat

/-- First source or base register number. -/
def rn (word : Word) : Nat := (InstructionField.rn.extract word).toNat

/-- Second source register number. -/
def rm (word : Word) : Nat := (InstructionField.rm.extract word).toNat

/-- Addend register number. -/
def ra (word : Word) : Nat := (InstructionField.ra.extract word).toNat

/-- Transfer register number. -/
def rt (word : Word) : Nat := (InstructionField.rt.extract word).toNat

/-- Second transfer register number. -/
def rt2 (word : Word) : Nat := (InstructionField.rt2.extract word).toNat

end Operand

end A64Machine
