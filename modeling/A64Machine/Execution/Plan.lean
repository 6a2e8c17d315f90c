import A64Machine.Arithmetic
import A64Machine.Condition
import A64Machine.Decode
import A64Machine.Encoding.Field
import A64Machine.Execution.Effects

/-!
What an instruction sets out to do.  A plan depends on the instruction and the registers alone: the
loads it needs, and its effects once they have answered.  No instruction both loads and stores.
-/

namespace A64Machine

/-- A load into a register. -/
structure LoadRequest where
  address : Doubleword
  bytes : Nat
  signed : Bool := false
  reg : Nat
  deriving Repr, DecidableEq

/-- What a load leaves in its register when memory answers `value`. -/
def LoadRequest.result (request : LoadRequest) (value : Doubleword) : Doubleword :=
  if request.signed then signExtend value 32 else value

/-- The loads of an instruction, and its effects; what the loads bring in is written before the
writes among the effects. -/
structure Plan where
  loads : List LoadRequest := []
  effects : Effects
  deriving Repr, DecidableEq

/-- The address of the next instruction in sequence. -/
def fallThrough (regs : RegisterFile) : Doubleword :=
  regs.pc + 4

namespace Plan

/-- A plan that only goes on to the next instruction. -/
def idle (regs : RegisterFile) : Plan :=
  { effects := { nextPc := fallThrough regs } }

def writing (regs : RegisterFile) (writes : List RegisterWrite) : Plan :=
  { effects := { writes, nextPc := fallThrough regs } }

/-- A plan that writes a result of some width to a data register, with or without flags. -/
def result {w : Nat} (regs : RegisterFile) (reg : Nat) (value : BitVec w)
    (flags : Option Flags := none) : Plan :=
  { effects :=
      { writes := [.data reg (value.setWidth 64)], flags, nextPc := fallThrough regs } }

/-- A plan that only goes on at `target`. -/
def jump (target : Doubleword) (writes : List RegisterWrite := []) : Plan :=
  { effects := { writes, nextPc := target } }

/-- A plan that goes on at `target` or in sequence. -/
def branch (regs : RegisterFile) (taken : Bool) (target : Doubleword) : Plan :=
  if taken then jump target else idle regs

end Plan

/-- The operand width that bit 31 of a word selects. -/
def Operand.width (word : Word) : OperandWidth :=
  .ofBit (word.getLsbD 31)

/-- The address at a word-scaled displacement from the program counter. -/
def branchTarget {w : Nat} (regs : RegisterFile) (displacement : BitVec w) : Doubleword :=
  regs.pc + (displacement ++ 0#2).signExtend 64

def RegisterFile.read (regs : RegisterFile) (w n : Nat) : BitVec w :=
  (regs.gpr n).setWidth w

def target19 (word : Word) (regs : RegisterFile) : Doubleword :=
  branchTarget regs (InstructionField.imm19.extract word)

/-- ADR and ADRP. -/
def planPcRelative (word : Word) (mnemonic : Mnemonic) (regs : RegisterFile) :
    Except FaultCode Plan :=
  let displacement := InstructionField.immHi.extract word ++ InstructionField.immLo.extract word
  let rd := Operand.rd word
  match mnemonic with
  | .adr => pure (.result regs rd (regs.pc + displacement.signExtend 64))
  | .adrp =>
    let page := regs.pc &&& ~~~0xFFF#64
    pure (.result regs rd (page + (displacement ++ 0#12).signExtend 64))
  | _ => throw .unsupportedInstruction

def addOrSubtract {w : Nat} (subtract : Bool) (x y : BitVec w) : BitVec w × Flags :=
  if subtract then addWithCarry x (~~~y) true else addWithCarry x y false

/-- Add and subtract with an immediate operand.  Without flags the destination is an address
register. -/
def planAddSubImmediate (word : Word) (mnemonic : Mnemonic) (regs : RegisterFile) :
    Except FaultCode Plan :=
  let w := (Operand.width word).bits
  let imm12 : BitVec w := (InstructionField.imm12.extract word).setWidth w
  let imm := if InstructionField.sh.extract word = 1 then imm12 <<< 12 else imm12
  let operand : BitVec w := (regs.gprOrSp (Operand.rn word)).setWidth w
  let rd := Operand.rd word
  let plain (subtract : Bool) : Plan :=
    .writing regs [.address rd ((addOrSubtract subtract operand imm).1.setWidth 64)]
  let flagged (subtract : Bool) : Plan :=
    let (value, flags) := addOrSubtract subtract operand imm
    .result regs rd value (some flags)
  match mnemonic with
  | .addImmW | .addImmX => pure (plain false)
  | .addsImmW | .addsImmX => pure (flagged false)
  | .subImmW | .subImmX => pure (plain true)
  | .subsImmW | .subsImmX => pure (flagged true)
  | _ => throw .unsupportedInstruction

/-- The masks that the immediate fields of a word encode. -/
def immediateMasks (word : Word) (w : Nat) (immediate : Bool) :
    Except FaultCode (BitVec w × BitVec w) :=
  match bitMasks? w (InstructionField.n.extract word == 1)
      (InstructionField.imms.extract word).toNat (InstructionField.immr.extract word).toNat
      immediate with
  | some masks => pure masks
  | none => throw .undefinedInstruction

/-- Logical operations with a bit mask operand.  Without flags the destination is an address
register. -/
def planLogicalImmediate (word : Word) (mnemonic : Mnemonic) (regs : RegisterFile) :
    Except FaultCode Plan := do
  let w := (Operand.width word).bits
  let (imm, _) ← immediateMasks word w true
  let operand := regs.read w (Operand.rn word)
  let rd := Operand.rd word
  let plain (value : BitVec w) : Plan := .writing regs [.address rd (value.setWidth 64)]
  match mnemonic with
  | .andImmW | .andImmX => pure (plain (operand &&& imm))
  | .orrImmW | .orrImmX => pure (plain (operand ||| imm))
  | .eorImmW | .eorImmX => pure (plain (operand ^^^ imm))
  | .andsImmW | .andsImmX =>
    let value := operand &&& imm
    pure (.result regs rd value (some (logicalFlags (Operand.width word) (value.setWidth 64))))
  | _ => throw .unsupportedInstruction

/-- Moves of a 16-bit immediate into one of the halfword positions. -/
def planMoveWide (word : Word) (mnemonic : Mnemonic) (regs : RegisterFile) :
    Except FaultCode Plan := do
  let w := (Operand.width word).bits
  let position := 16 * (InstructionField.hw.extract word).toNat
  if w ≤ position then
    throw .undefinedInstruction
  let imm : BitVec w := (InstructionField.imm16.extract word).setWidth w <<< position
  let rd := Operand.rd word
  match mnemonic with
  | .movnW | .movnX => pure (.result regs rd (~~~imm))
  | .movzW | .movzX => pure (.result regs rd imm)
  | .movkW | .movkX =>
    let hole : BitVec w := 0xFFFF#w <<< position
    pure (.result regs rd (regs.read w rd &&& ~~~hole ||| imm))
  | _ => throw .unsupportedInstruction

/-- Bitfield moves.  The first mask selects the bits that are moved, the second those of the
destination field. -/
def planBitfield (word : Word) (mnemonic : Mnemonic) (regs : RegisterFile) :
    Except FaultCode Plan := do
  let w := (Operand.width word).bits
  let immr := (InstructionField.immr.extract word).toNat
  let imms := (InstructionField.imms.extract word).toNat
  if w ≤ immr ∨ w ≤ imms then
    throw .undefinedBehaviour
  let (wmask, tmask) ← immediateMasks word w false
  let rd := Operand.rd word
  let source := regs.read w (Operand.rn word)
  let moved := source.rotateRight immr
  match mnemonic with
  | .sbfmW | .sbfmX =>
    let top : BitVec w := if source.getLsbD imms then BitVec.allOnes w else 0
    pure (.result regs rd (top &&& ~~~tmask ||| moved &&& wmask &&& tmask))
  | .ubfmW | .ubfmX => pure (.result regs rd (moved &&& wmask &&& tmask))
  | .bfmW | .bfmX =>
    let old := regs.read w rd
    let bottom := old &&& ~~~wmask ||| moved &&& wmask
    pure (.result regs rd (old &&& ~~~tmask ||| bottom &&& tmask))
  | _ => throw .unsupportedInstruction

def planConditionalBranch (word : Word) (mnemonic : Mnemonic) (regs : RegisterFile) :
    Except FaultCode Plan :=
  match mnemonic with
  | .bCond =>
    let condition := Condition.ofBits (InstructionField.cond.extract word).toNat
    pure (.branch regs (condition.holds regs.nzcv) (target19 word regs))
  | _ => throw .unsupportedInstruction

/-- The write of the return address by a branch with link. -/
def linkWrite (regs : RegisterFile) : RegisterWrite :=
  .data linkRegister (fallThrough regs)

def planBranchRegister (word : Word) (mnemonic : Mnemonic) (regs : RegisterFile) :
    Except FaultCode Plan :=
  let target := regs.gpr (Operand.rn word)
  match mnemonic with
  | .br | .ret => pure (.jump target)
  | .blr => pure (.jump target [linkWrite regs])
  | _ => throw .unsupportedInstruction

/-- B and BL. -/
def planBranchImmediate (word : Word) (mnemonic : Mnemonic) (regs : RegisterFile) :
    Except FaultCode Plan :=
  let target := branchTarget regs (InstructionField.imm26.extract word)
  match mnemonic with
  | .b => pure (.jump target)
  | .bl => pure (.jump target [linkWrite regs])
  | _ => throw .unsupportedInstruction

/-- CBZ and CBNZ. -/
def planCompareBranch (word : Word) (mnemonic : Mnemonic) (regs : RegisterFile) :
    Except FaultCode Plan :=
  let isZero := regs.read (Operand.width word).bits (Operand.rt word) == 0
  match mnemonic with
  | .cbzW | .cbzX => pure (.branch regs isZero (target19 word regs))
  | .cbnzW | .cbnzX => pure (.branch regs (!isZero) (target19 word regs))
  | _ => throw .unsupportedInstruction

/-- TBZ and TBNZ. -/
def planTestBranch (word : Word) (mnemonic : Mnemonic) (regs : RegisterFile) :
    Except FaultCode Plan :=
  let position := (InstructionField.b5.extract word ++ InstructionField.b40.extract word).toNat
  let isSet := (regs.gpr (Operand.rt word)).getLsbD position
  let target := branchTarget regs (InstructionField.imm14.extract word)
  match mnemonic with
  | .tbz => pure (.branch regs (!isSet) target)
  | .tbnz => pure (.branch regs isSet target)
  | _ => throw .unsupportedInstruction

/-- The second operand of a shifted-register form: a register shifted by less than the width.  Only
the logical forms may rotate. -/
def shiftedOperand (word : Word) (w : Nat) (regs : RegisterFile) (mayRotate : Bool) :
    Except FaultCode (BitVec w) :=
  let kind := ShiftKind.ofBits (InstructionField.shift.extract word).toNat
  let amount := (InstructionField.imm6.extract word).toNat
  if (kind = .ror ∧ !mayRotate) ∨ w ≤ amount then throw .undefinedInstruction
  else pure (kind.apply (regs.read w (Operand.rm word)) amount)

def planAddSubShifted (word : Word) (mnemonic : Mnemonic) (regs : RegisterFile) :
    Except FaultCode Plan :=
  let w := (Operand.width word).bits
  let sum (subtract flagged : Bool) : Except FaultCode Plan := do
    let operand ← shiftedOperand word w regs false
    let (value, flags) := addOrSubtract subtract (regs.read w (Operand.rn word)) operand
    pure (.result regs (Operand.rd word) value (if flagged then some flags else none))
  match mnemonic with
  | .addW | .addX => sum false false
  | .addsW | .addsX => sum false true
  | .subW | .subX => sum true false
  | .subsW | .subsX => sum true true
  | _ => throw .unsupportedInstruction

def planLogicalShifted (word : Word) (mnemonic : Mnemonic) (regs : RegisterFile) :
    Except FaultCode Plan := do
  let w := (Operand.width word).bits
  let y ← shiftedOperand word w regs true
  let x := regs.read w (Operand.rn word)
  let rd := Operand.rd word
  let flagged (value : BitVec w) : Plan :=
    .result regs rd value (some (logicalFlags (Operand.width word) (value.setWidth 64)))
  match mnemonic with
  | .andW | .andX => pure (.result regs rd (x &&& y))
  | .bicW | .bicX => pure (.result regs rd (x &&& ~~~y))
  | .orrW | .orrX => pure (.result regs rd (x ||| y))
  | .ornW | .ornX => pure (.result regs rd (x ||| ~~~y))
  | .eorW | .eorX => pure (.result regs rd (x ^^^ y))
  | .eonW | .eonX => pure (.result regs rd (x ^^^ ~~~y))
  | .andsW | .andsX => pure (flagged (x &&& y))
  | .bicsW | .bicsX => pure (flagged (x &&& ~~~y))
  | _ => throw .unsupportedInstruction

/-- MADD and MSUB. -/
def planMultiplyAdd (word : Word) (mnemonic : Mnemonic) (regs : RegisterFile) :
    Except FaultCode Plan :=
  let w := (Operand.width word).bits
  let product := regs.read w (Operand.rn word) * regs.read w (Operand.rm word)
  let addend := regs.read w (Operand.ra word)
  let rd := Operand.rd word
  match mnemonic with
  | .maddW | .maddX => pure (.result regs rd (addend + product))
  | .msubW | .msubX => pure (.result regs rd (addend - product))
  | _ => throw .unsupportedInstruction

/-- Division and shifts by a register.  A quotient by zero is zero. -/
def planTwoSource (word : Word) (mnemonic : Mnemonic) (regs : RegisterFile) :
    Except FaultCode Plan :=
  let w := (Operand.width word).bits
  let x := regs.read w (Operand.rn word)
  let y := regs.read w (Operand.rm word)
  let rd := Operand.rd word
  match mnemonic with
  | .udivW | .udivX => pure (.result regs rd (x / y))
  | .sdivW | .sdivX => pure (.result regs rd (x.sdiv y))
  | .lslvW | .lslvX => pure (.result regs rd (ShiftKind.lsl.apply x y.toNat))
  | .lsrvW | .lsrvX => pure (.result regs rd (ShiftKind.lsr.apply x y.toNat))
  | .asrvW | .asrvX => pure (.result regs rd (ShiftKind.asr.apply x y.toNat))
  | .rorvW | .rorvX => pure (.result regs rd (ShiftKind.ror.apply x y.toNat))
  | _ => throw .unsupportedInstruction

def planConditionalSelect (word : Word) (mnemonic : Mnemonic) (regs : RegisterFile) :
    Except FaultCode Plan :=
  let w := (Operand.width word).bits
  let condition := Condition.ofBits (word.extractLsb' 12 4).toNat
  let x := regs.read w (Operand.rn word)
  let y := regs.read w (Operand.rm word)
  let select (other : BitVec w) : Plan :=
    .result regs (Operand.rd word) (if condition.holds regs.nzcv then x else other)
  match mnemonic with
  | .cselW | .cselX => pure (select y)
  | .csincW | .csincX => pure (select (y + 1))
  | .csinvW | .csinvX => pure (select (~~~y))
  | .csnegW | .csnegX => pure (select (-y))
  | _ => throw .unsupportedInstruction

def Plan.loading (regs : RegisterFile) (loads : List LoadRequest)
    (writes : List RegisterWrite := []) : Plan :=
  { loads, effects := { writes, nextPc := fallThrough regs } }

def Plan.storing (regs : RegisterFile) (stores : List PendingStore)
    (writes : List RegisterWrite) : Plan :=
  { effects := { writes, stores, nextPc := fallThrough regs } }

/-- Loads at a displacement from the program counter. -/
def planLoadLiteral (word : Word) (mnemonic : Mnemonic) (regs : RegisterFile) :
    Except FaultCode Plan :=
  let address := target19 word regs
  let reg := Operand.rt word
  match mnemonic with
  | .ldrW => pure (.loading regs [{ address, bytes := 4, reg }])
  | .ldrX => pure (.loading regs [{ address, bytes := 8, reg }])
  | .ldrsw => pure (.loading regs [{ address, bytes := 4, signed := true, reg }])
  | .prfm => pure (.idle regs)
  | _ => throw .unsupportedInstruction

/-- How a load or store uses its base register: at an offset, or with the base register updated
before or after the access. -/
inductive Indexing where
  | offset | preIndex | postIndex
  deriving Repr, DecidableEq

namespace Indexing

def writesBack : Indexing → Bool
  | .offset => false
  | .preIndex | .postIndex => true

def address (indexing : Indexing) (base offset : Doubleword) : Doubleword :=
  match indexing with
  | .postIndex => base
  | .offset | .preIndex => base + offset

/-- The update of the base register, if there is one. -/
def writeback (indexing : Indexing) (reg : Nat) (base offset : Doubleword) :
    List RegisterWrite :=
  if indexing.writesBack then [.address reg (base + offset)] else []

end Indexing

/-- The low `bytes` bytes of a register. -/
def storedValue (regs : RegisterFile) (reg bytes : Nat) : Doubleword :=
  regs.gpr reg &&& lowOnes 64 (8 * bytes)

/-- What a load or store of one register does with memory. -/
inductive Transfer where
  | load (signed : Bool)
  | store
  deriving Repr, DecidableEq

/-- Loads and stores of one register.  An updated base register must not be the transferred one,
unless both are number 31, which are then different registers. -/
def planLoadStore (word : Word) (mnemonic : Mnemonic) (indexing : Indexing)
    (regs : RegisterFile) : Except FaultCode Plan :=
  let rt := Operand.rt word
  let rn := Operand.rn word
  let access (transfer : Transfer) (bytes : Nat) : Except FaultCode Plan :=
    if indexing.writesBack ∧ rn = rt ∧ rn ≠ zeroOrSp then
      throw .undefinedBehaviour
    else
      let offset : Doubleword := match indexing with
        | .offset =>
          (InstructionField.imm12.extract word).setWidth 64 <<<
            (InstructionField.size.extract word).toNat
        | .preIndex | .postIndex => (InstructionField.imm9.extract word).signExtend 64
      let base := regs.gprOrSp rn
      let address := indexing.address base offset
      let writeback := indexing.writeback rn base offset
      match transfer with
      | .load signed => pure (.loading regs [{ address, bytes, signed, reg := rt }] writeback)
      | .store => pure (.storing regs [⟨address, bytes, storedValue regs rt bytes⟩] writeback)
  match mnemonic with
  | .strW => access .store 4
  | .ldrW => access (.load false) 4
  | .ldrsw => access (.load true) 4
  | .strX => access .store 8
  | .ldrX => access (.load false) 8
  | .prfm => if indexing = .offset then pure (.idle regs) else throw .undefinedInstruction
  | _ => throw .unsupportedInstruction

/-- Loads and stores of a pair of registers at consecutive addresses.  A pair of loads needs two
different registers. -/
def planLoadStorePair (word : Word) (mnemonic : Mnemonic) (indexing : Indexing)
    (regs : RegisterFile) : Except FaultCode Plan :=
  let rt := Operand.rt word
  let rt2 := Operand.rt2 word
  let rn := Operand.rn word
  let access (isLoad : Bool) (bytes : Nat) : Except FaultCode Plan :=
    if (isLoad ∧ rt = rt2) ∨ (indexing.writesBack ∧ (rn = rt ∨ rn = rt2) ∧ rn ≠ zeroOrSp) then
      throw .undefinedBehaviour
    else
      let offset :=
        (InstructionField.imm7.extract word).signExtend 64 * BitVec.ofNat 64 bytes
      let base := regs.gprOrSp rn
      let first := indexing.address base offset
      let second := first + BitVec.ofNat 64 bytes
      let writeback := indexing.writeback rn base offset
      if isLoad then
        pure (.loading regs
          [{ address := first, bytes, reg := rt }, { address := second, bytes, reg := rt2 }]
          writeback)
      else
        pure (.storing regs
          [⟨first, bytes, storedValue regs rt bytes⟩, ⟨second, bytes, storedValue regs rt2 bytes⟩]
          writeback)
  match mnemonic with
  | .stpW => access false 4
  | .ldpW => access true 4
  | .stpX => access false 8
  | .ldpX => access true 8
  | _ => throw .unsupportedInstruction

/-- The plan of an instruction, by its class.  Hints and barriers do nothing; a class without
semantics is unsupported. -/
def plan (instruction : Instruction) (regs : RegisterFile) : Except FaultCode Plan :=
  let word := instruction.word
  let mnemonic := instruction.mnemonic
  match instruction.cls with
  | .udf => throw .undefinedInstruction
  | .pcRelativeAddressing => planPcRelative word mnemonic regs
  | .addSubtractImmediate => planAddSubImmediate word mnemonic regs
  | .logicalImmediate => planLogicalImmediate word mnemonic regs
  | .moveWideImmediate => planMoveWide word mnemonic regs
  | .bitfield => planBitfield word mnemonic regs
  | .conditionalBranch => planConditionalBranch word mnemonic regs
  | .hints | .barriers => pure (.idle regs)
  | .unconditionalBranchRegister => planBranchRegister word mnemonic regs
  | .unconditionalBranchImmediate => planBranchImmediate word mnemonic regs
  | .compareAndBranch => planCompareBranch word mnemonic regs
  | .testAndBranch => planTestBranch word mnemonic regs
  | .addSubtractShiftedRegister => planAddSubShifted word mnemonic regs
  | .logicalShiftedRegister => planLogicalShifted word mnemonic regs
  | .dataProcessingThreeSource => planMultiplyAdd word mnemonic regs
  | .dataProcessingTwoSource => planTwoSource word mnemonic regs
  | .conditionalSelect => planConditionalSelect word mnemonic regs
  | .loadRegisterLiteral => planLoadLiteral word mnemonic regs
  | .loadStoreUnsignedImmediate => planLoadStore word mnemonic .offset regs
  | .loadStoreImmediatePreIndexed => planLoadStore word mnemonic .preIndex regs
  | .loadStoreImmediatePostIndexed => planLoadStore word mnemonic .postIndex regs
  | .loadStorePairOffset => planLoadStorePair word mnemonic .offset regs
  | .loadStorePairPreIndexed => planLoadStorePair word mnemonic .preIndex regs
  | .loadStorePairPostIndexed => planLoadStorePair word mnemonic .postIndex regs
  | _ => throw .unsupportedInstruction

end A64Machine
