import A64Machine.Proofs.Execution.CheckedOperands

/-!
Plans of instructions, computed step by step in checked arithmetic on values of 64 bits.  Whatever
the word, the class, the mnemonic and the registers are, the computation ends as the plan of the
instruction does: with that plan, or with its fault.
-/

namespace A64Machine

namespace Checked

def planPcRelative (word : Word) (mnemonic : Mnemonic) (regs : RegisterFile) :
    Except Stop Plan := do
  let both ← fieldPair word .immHi .immLo 2
  let displacement : Doubleword := both.setWidth 64
  match mnemonic with
  | .adr => do
    let offset ← signExtend displacement 21
    let rd ← register word .rd
    pure (.result regs rd (regs.pc + offset))
  | .adrp => do
    let scaled ← shiftLeft displacement 12
    let offset ← signExtend scaled 33
    let rd ← register word .rd
    pure (.result regs rd ((regs.pc &&& ~~~0xFFF#64) + offset))
  | _ => throw (.fault .unsupportedInstruction)

/-- The immediate of an addition or subtraction, which may stand twelve places up. -/
def addSubImmediate (word : Word) : Except Stop Doubleword := do
  let imm12 ← field word .imm12
  let sh ← field word .sh
  if sh = 1 then shiftLeft (imm12.setWidth 64) 12 else pure (imm12.setWidth 64)

def planAddSubImmediate (word : Word) (mnemonic : Mnemonic) (regs : RegisterFile) :
    Except Stop Plan := do
  let width ← operandWidth word
  let imm ← addSubImmediate word
  let rn ← register word .rn
  let finish (subtract flagged : Bool) : Except Stop Plan := do
    let (value, flags) ← addOrSubtract subtract (regs.gprOrSp rn) imm width
    let rd ← register word .rd
    if flagged then pure (.result regs rd value (some flags))
    else pure (.writing regs [.address rd value])
  match mnemonic with
  | .addImmW | .addImmX => finish false false
  | .addsImmW | .addsImmX => finish false true
  | .subImmW | .subImmX => finish true false
  | .subsImmW | .subsImmX => finish true true
  | _ => throw (.fault .unsupportedInstruction)

def immediateMasks (word : Word) (immediate : Bool) (width : OperandWidth) :
    Except Stop (Doubleword × Doubleword) := do
  let n ← field word .n
  let imms ← field word .imms
  let immr ← field word .immr
  bitMasks (n == 1) imms immr immediate width

def planLogicalImmediate (word : Word) (mnemonic : Mnemonic) (regs : RegisterFile) :
    Except Stop Plan := do
  let width ← operandWidth word
  let (imm, _) ← immediateMasks word true width
  let rn ← register word .rn
  let operand ← truncate width (regs.gpr rn)
  let rd ← register word .rd
  match mnemonic with
  | .andImmW | .andImmX => pure (.writing regs [.address rd (operand &&& imm)])
  | .orrImmW | .orrImmX => pure (.writing regs [.address rd (operand ||| imm)])
  | .eorImmW | .eorImmX => pure (.writing regs [.address rd (operand ^^^ imm)])
  | .andsImmW | .andsImmX => do
    let flags ← logicalFlags width (operand &&& imm)
    pure (.result regs rd (operand &&& imm) (some flags))
  | _ => throw (.fault .unsupportedInstruction)

/-- A plan that writes the low bits of a value to the destination register. -/
def planResult (word : Word) (regs : RegisterFile) (width : OperandWidth) (value : Doubleword) :
    Except Stop Plan := do
  let rd ← register word .rd
  let value ← truncate width value
  pure (.result regs rd value)

def planMoveWide (word : Word) (mnemonic : Mnemonic) (regs : RegisterFile) :
    Except Stop Plan := do
  let width ← operandWidth word
  let hw ← field word .hw
  if width = .w32 ∧ 2 ≤ hw.toNat then throw (.fault .undefinedInstruction)
  else do
    let position ← product UInt32.size hw.toNat 16
    let imm16 ← field word .imm16
    let imm ← shiftLeft (imm16.setWidth 64) position
    match mnemonic with
    | .movnW | .movnX => planResult word regs width (~~~imm)
    | .movzW | .movzX => planResult word regs width imm
    | .movkW | .movkX => do
      let rd ← register word .rd
      let hole ← shiftLeft 0xFFFF#64 position
      planResult word regs width (regs.gpr rd &&& ~~~hole ||| imm)
    | _ => throw (.fault .unsupportedInstruction)

/-- A bit of a value, repeated over a width. -/
def spread (value : Doubleword) (position : Nat) (width : OperandWidth) :
    Except Stop Doubleword := do
  let shifted ← shiftRight value position
  if shifted &&& 1#64 == 1#64 then ones width.bits else pure 0

def planBitfield (word : Word) (mnemonic : Mnemonic) (regs : RegisterFile) :
    Except Stop Plan := do
  let width ← operandWidth word
  let immr ← field word .immr
  let imms ← field word .imms
  if width = .w32 ∧ (32 ≤ immr.toNat ∨ 32 ≤ imms.toNat) then throw (.fault .undefinedBehaviour)
  else do
    let (wmask, tmask) ← immediateMasks word false width
    let rd ← register word .rd
    let rn ← register word .rn
    let source ← truncate width (regs.gpr rn)
    let moved ← shiftValue source .ror immr.toNat width
    match mnemonic with
    | .sbfmW | .sbfmX => do
      let top ← spread source imms.toNat width
      planResult word regs width (top &&& ~~~tmask ||| moved &&& wmask &&& tmask)
    | .ubfmW | .ubfmX => planResult word regs width (moved &&& wmask &&& tmask)
    | .bfmW | .bfmX => do
      let old ← truncate width (regs.gpr rd)
      let bottom := old &&& ~~~wmask ||| moved &&& wmask
      planResult word regs width (old &&& ~~~tmask ||| bottom &&& tmask)
    | _ => throw (.fault .unsupportedInstruction)

/-- A plan that goes on at a displacement from the program counter, or in sequence. -/
def planBranch (word : Word) (regs : RegisterFile) (taken : Bool) (name : InstructionField)
    (bits : Nat) : Except Stop Plan :=
  if taken then do
    let offset ← branchOffset word name bits
    pure (.jump (regs.pc + offset))
  else pure (.idle regs)

def planConditionalBranch (word : Word) (mnemonic : Mnemonic) (regs : RegisterFile) :
    Except Stop Plan :=
  match mnemonic with
  | .bCond => do
    let code ← condition (← field word .cond)
    planBranch word regs (code.holds regs.nzcv) .imm19 19
  | _ => throw (.fault .unsupportedInstruction)

def planBranchRegister (word : Word) (mnemonic : Mnemonic) (regs : RegisterFile) :
    Except Stop Plan := do
  let rn ← register word .rn
  match mnemonic with
  | .br | .ret => pure (.jump (regs.gpr rn))
  | .blr => pure (.jump (regs.gpr rn) [linkWrite regs])
  | _ => throw (.fault .unsupportedInstruction)

def planBranchImmediate (word : Word) (mnemonic : Mnemonic) (regs : RegisterFile) :
    Except Stop Plan :=
  let jump (writes : List RegisterWrite) : Except Stop Plan := do
    let offset ← branchOffset word .imm26 26
    pure (.jump (regs.pc + offset) writes)
  match mnemonic with
  | .b => jump []
  | .bl => jump [linkWrite regs]
  | _ => throw (.fault .unsupportedInstruction)

def planCompareBranch (word : Word) (mnemonic : Mnemonic) (regs : RegisterFile) :
    Except Stop Plan := do
  let width ← operandWidth word
  let rt ← register word .rt
  let value ← truncate width (regs.gpr rt)
  match mnemonic with
  | .cbzW | .cbzX => planBranch word regs (value == 0) .imm19 19
  | .cbnzW | .cbnzX => planBranch word regs (!(value == 0)) .imm19 19
  | _ => throw (.fault .unsupportedInstruction)

def planTestBranch (word : Word) (mnemonic : Mnemonic) (regs : RegisterFile) :
    Except Stop Plan := do
  let position ← fieldPair word .b5 .b40 5
  let rt ← register word .rt
  let shifted ← shiftRight (regs.gpr rt) position.toNat
  let isSet := shifted &&& 1#64 == 1#64
  match mnemonic with
  | .tbz => planBranch word regs (!isSet) .imm14 14
  | .tbnz => planBranch word regs isSet .imm14 14
  | _ => throw (.fault .unsupportedInstruction)

/-- The second operand of a shifted-register form. -/
def shiftedOperand (word : Word) (regs : RegisterFile) (width : OperandWidth) (mayRotate : Bool) :
    Except Stop Doubleword := do
  let shift ← field word .shift
  let amount ← field word .imm6
  let kind := ShiftKind.ofBits shift.toNat
  if (kind = .ror ∧ !mayRotate) ∨ width.bits ≤ amount.toNat then
    throw (.fault .undefinedInstruction)
  else do
    let rm ← register word .rm
    shiftValue (regs.gpr rm) kind amount.toNat width

def planAddSubShifted (word : Word) (mnemonic : Mnemonic) (regs : RegisterFile) :
    Except Stop Plan := do
  let width ← operandWidth word
  let finish (subtract flagged : Bool) : Except Stop Plan := do
    let operand ← shiftedOperand word regs width false
    let rn ← register word .rn
    let (value, flags) ← addOrSubtract subtract (regs.gpr rn) operand width
    let rd ← register word .rd
    pure (.result regs rd value (if flagged then some flags else none))
  match mnemonic with
  | .addW | .addX => finish false false
  | .addsW | .addsX => finish false true
  | .subW | .subX => finish true false
  | .subsW | .subsX => finish true true
  | _ => throw (.fault .unsupportedInstruction)

def planLogicalShifted (word : Word) (mnemonic : Mnemonic) (regs : RegisterFile) :
    Except Stop Plan := do
  let width ← operandWidth word
  let y ← shiftedOperand word regs width true
  let rn ← register word .rn
  let x ← truncate width (regs.gpr rn)
  let inverted ← truncate width (~~~y)
  let rd ← register word .rd
  let flagged (value : Doubleword) : Except Stop Plan := do
    let flags ← logicalFlags width value
    pure (.result regs rd value (some flags))
  match mnemonic with
  | .andW | .andX => pure (.result regs rd (x &&& y))
  | .bicW | .bicX => pure (.result regs rd (x &&& inverted))
  | .orrW | .orrX => pure (.result regs rd (x ||| y))
  | .ornW | .ornX => pure (.result regs rd (x ||| inverted))
  | .eorW | .eorX => pure (.result regs rd (x ^^^ y))
  | .eonW | .eonX => pure (.result regs rd (x ^^^ inverted))
  | .andsW | .andsX => flagged (x &&& y)
  | .bicsW | .bicsX => flagged (x &&& inverted)
  | _ => throw (.fault .unsupportedInstruction)

def planMultiplyAdd (word : Word) (mnemonic : Mnemonic) (regs : RegisterFile) :
    Except Stop Plan := do
  let width ← operandWidth word
  let rn ← register word .rn
  let rm ← register word .rm
  let ra ← register word .ra
  let factor := regs.gpr rn * regs.gpr rm
  match mnemonic with
  | .maddW | .maddX => planResult word regs width (regs.gpr ra + factor)
  | .msubW | .msubX => planResult word regs width (regs.gpr ra - factor)
  | _ => throw (.fault .unsupportedInstruction)

/-- The quotient of two values of a width with a sign; a quotient by zero is zero. -/
def signedQuotient (x y : Doubleword) (width : OperandWidth) : Except Stop Doubleword := do
  let signedX ← signExtend x width.bits
  let signedY ← signExtend y width.bits
  if signedY = 0 then pure 0 else quotientSigned signedX signedY

def planTwoSource (word : Word) (mnemonic : Mnemonic) (regs : RegisterFile) :
    Except Stop Plan := do
  let width ← operandWidth word
  let rn ← register word .rn
  let x ← truncate width (regs.gpr rn)
  let rm ← register word .rm
  let y ← truncate width (regs.gpr rm)
  let amount ← remainder y.toNat width.bits
  let shifted (kind : ShiftKind) : Except Stop Plan := do
    let value ← shiftValue x kind amount width
    planResult word regs width value
  match mnemonic with
  | .udivW | .udivX => planResult word regs width (if y = 0 then 0 else x / y)
  | .sdivW | .sdivX => do
    let value ← signedQuotient x y width
    planResult word regs width value
  | .lslvW | .lslvX => shifted .lsl
  | .lsrvW | .lsrvX => shifted .lsr
  | .asrvW | .asrvX => shifted .asr
  | .rorvW | .rorvX => shifted .ror
  | _ => throw (.fault .unsupportedInstruction)

def planConditionalSelect (word : Word) (mnemonic : Mnemonic) (regs : RegisterFile) :
    Except Stop Plan := do
  let width ← operandWidth word
  let code ← condition (← bits word 12 4)
  let rn ← register word .rn
  let rm ← register word .rm
  let select (other : Doubleword) : Except Stop Plan :=
    planResult word regs width (if code.holds regs.nzcv then regs.gpr rn else other)
  match mnemonic with
  | .cselW | .cselX => select (regs.gpr rm)
  | .csincW | .csincX => select (regs.gpr rm + 1)
  | .csinvW | .csinvX => select (~~~(regs.gpr rm))
  | .csnegW | .csnegX => select (-regs.gpr rm)
  | _ => throw (.fault .unsupportedInstruction)

def planLoadLiteral (word : Word) (mnemonic : Mnemonic) (regs : RegisterFile) :
    Except Stop Plan := do
  let offset ← branchOffset word .imm19 19
  let address := regs.pc + offset
  let reg ← register word .rt
  match mnemonic with
  | .ldrW => pure (.loading regs [{ address, bytes := 4, reg }])
  | .ldrX => pure (.loading regs [{ address, bytes := 8, reg }])
  | .ldrsw => pure (.loading regs [{ address, bytes := 4, signed := true, reg }])
  | .prfm => pure (.idle regs)
  | _ => throw (.fault .unsupportedInstruction)

/-- The offset of a load or store of one register. -/
def accessOffset (word : Word) (indexing : Indexing) : Except Stop Doubleword :=
  match indexing with
  | .offset => do
    let imm12 ← field word .imm12
    let size ← field word .size
    shiftLeft (imm12.setWidth 64) size.toNat
  | .preIndex | .postIndex => do
    let imm9 ← field word .imm9
    signExtend (imm9.setWidth 64) 9

def planLoadStore (word : Word) (mnemonic : Mnemonic) (indexing : Indexing)
    (regs : RegisterFile) : Except Stop Plan :=
  let access (transfer : Transfer) (bytes : Nat) : Except Stop Plan := do
    let rt ← register word .rt
    let rn ← register word .rn
    if indexing.writesBack ∧ rn = rt ∧ rn ≠ zeroOrSp then throw (.fault .undefinedBehaviour)
    else do
      let offset ← accessOffset word indexing
      let base := regs.gprOrSp rn
      let address := indexing.address base offset
      let writeback := indexing.writeback rn base offset
      match transfer with
      | .load signed => pure (.loading regs [{ address, bytes, signed, reg := rt }] writeback)
      | .store => do
        let mask ← byteMask bytes
        pure (.storing regs [⟨address, bytes, regs.gpr rt &&& mask⟩] writeback)
  match mnemonic with
  | .strW => access .store 4
  | .ldrW => access (.load false) 4
  | .ldrsw => access (.load true) 4
  | .strX => access .store 8
  | .ldrX => access (.load false) 8
  | .prfm =>
    if indexing = .offset then pure (.idle regs) else throw (.fault .undefinedInstruction)
  | _ => throw (.fault .unsupportedInstruction)

def planLoadStorePair (word : Word) (mnemonic : Mnemonic) (indexing : Indexing)
    (regs : RegisterFile) : Except Stop Plan :=
  let access (isLoad : Bool) (bytes : Nat) : Except Stop Plan := do
    let rt ← register word .rt
    let rt2 ← register word .rt2
    let rn ← register word .rn
    if (isLoad ∧ rt = rt2) ∨ (indexing.writesBack ∧ (rn = rt ∨ rn = rt2) ∧ rn ≠ zeroOrSp) then
      throw (.fault .undefinedBehaviour)
    else do
      let imm7 ← field word .imm7
      let displacement ← signExtend (imm7.setWidth 64) 7
      let offset ← shiftLeft displacement (BitVec.ofNat 64 bytes).ctz.toNat
      let base := regs.gprOrSp rn
      let first := indexing.address base offset
      let second := first + BitVec.ofNat 64 bytes
      let writeback := indexing.writeback rn base offset
      if isLoad then
        pure (.loading regs
          [{ address := first, bytes, reg := rt }, { address := second, bytes, reg := rt2 }]
          writeback)
      else do
        let mask ← byteMask bytes
        pure (.storing regs
          [⟨first, bytes, regs.gpr rt &&& mask⟩, ⟨second, bytes, regs.gpr rt2 &&& mask⟩]
          writeback)
  match mnemonic with
  | .stpW => access false 4
  | .ldpW => access true 4
  | .stpX => access false 8
  | .ldpX => access true 8
  | _ => throw (.fault .unsupportedInstruction)

def plan (instruction : Instruction) (regs : RegisterFile) : Except Stop Plan :=
  let word := instruction.word
  let mnemonic := instruction.mnemonic
  match instruction.cls with
  | .udf => throw (.fault .undefinedInstruction)
  | .pcRelativeAddressing => planPcRelative word mnemonic regs
  | .addSubtractImmediate => planAddSubImmediate word mnemonic regs
  | .logicalImmediate => planLogicalImmediate word mnemonic regs
  | .moveWideImmediate => planMoveWide word mnemonic regs
  | .bitfield => planBitfield word mnemonic regs
  | .conditionalBranch => planConditionalBranch word mnemonic regs
  | .hints | .barriers => pure (.idle regs)
  | .unconditionalBranchRegister => planBranchRegister word mnemonic regs
  | .unconditionalBranchImmediate => planBranchImmediate word mnemonic regs
  | .compareAndBranch => planCompareBranch word mnemonic regs
  | .testAndBranch => planTestBranch word mnemonic regs
  | .addSubtractShiftedRegister => planAddSubShifted word mnemonic regs
  | .logicalShiftedRegister => planLogicalShifted word mnemonic regs
  | .dataProcessingThreeSource => planMultiplyAdd word mnemonic regs
  | .dataProcessingTwoSource => planTwoSource word mnemonic regs
  | .conditionalSelect => planConditionalSelect word mnemonic regs
  | .loadRegisterLiteral => planLoadLiteral word mnemonic regs
  | .loadStoreUnsignedImmediate => planLoadStore word mnemonic .offset regs
  | .loadStoreImmediatePreIndexed => planLoadStore word mnemonic .preIndex regs
  | .loadStoreImmediatePostIndexed => planLoadStore word mnemonic .postIndex regs
  | .loadStorePairOffset => planLoadStorePair word mnemonic .offset regs
  | .loadStorePairPreIndexed => planLoadStorePair word mnemonic .preIndex regs
  | .loadStorePairPostIndexed => planLoadStorePair word mnemonic .postIndex regs
  | _ => throw (.fault .unsupportedInstruction)

section Families

variable (word : Word) (mnemonic : Mnemonic) (regs : RegisterFile)

theorem planPcRelative_eq :
    planPcRelative word mnemonic regs =
      (A64Machine.planPcRelative word mnemonic regs).mapError .fault := by
  have hpair : fieldPair word .immHi .immLo 2 =
      pure ((InstructionField.immHi.extract word ++ InstructionField.immLo.extract word).setWidth
        32) := fieldPair_eq word .immHi (by decide)
  rw [planPcRelative, hpair, pure_bind, setWidth_widened (by decide)]
  cases mnemonic with
  | adr =>
    have hoffset := signExtend_field (by decide) (by decide)
      (InstructionField.immHi.extract word ++ InstructionField.immLo.extract word)
    dsimp only
    rw [signExtend_eq, pure_bind, register_rd, pure_bind]
    exact congrArg (fun offset => pure (Plan.result regs (Operand.rd word) (regs.pc + offset)))
      hoffset
  | adrp =>
    have hoffset := signExtend_field (by decide) (by decide)
      ((InstructionField.immHi.extract word ++ InstructionField.immLo.extract word) ++ 0#12)
    dsimp only
    rw [shiftLeft_eq _ (by decide), pure_bind, signExtend_eq, pure_bind, register_rd, pure_bind,
      shiftLeft_setWidth]
    exact congrArg (fun offset =>
      pure (Plan.result regs (Operand.rd word) ((regs.pc &&& ~~~0xFFF#64) + offset))) hoffset
  | _ => rfl

theorem addSubImmediate_eq (width : OperandWidth) :
    ∃ imm, addSubImmediate word = pure imm ∧
      imm.setWidth width.bits =
        if InstructionField.sh.extract word = 1
        then (InstructionField.imm12.extract word).setWidth width.bits <<< 12
        else (InstructionField.imm12.extract word).setWidth width.bits := by
  have hsh : (InstructionField.sh.extract word).setWidth 32 = 1 ↔
      InstructionField.sh.extract word = 1 := by
    rw [← BitVec.toNat_inj, BitVec.toNat_setWidth_of_le (by decide), ← BitVec.toNat_inj]
    rfl
  have hwide : InstructionField.imm12.width ≤ 64 := by decide
  rw [addSubImmediate, field_eq, pure_bind, field_eq, pure_bind, setWidth_widened (by decide),
    shiftLeft_eq _ (by decide)]
  simp only [hsh]
  split
  next =>
    refine ⟨_, rfl, ?_⟩
    rw [setWidth_shiftLeft_low (bits_le_64 width), setWidth_widened hwide]
  next => exact ⟨_, rfl, setWidth_widened hwide _ _⟩

theorem planAddSubImmediate_eq :
    planAddSubImmediate word mnemonic regs =
      (A64Machine.planAddSubImmediate word mnemonic regs).mapError .fault := by
  rcases addSubImmediate_eq word (Operand.width word) with ⟨imm, himm, hlow⟩
  rw [planAddSubImmediate, operandWidth_eq, pure_bind, himm, pure_bind, register_rn, pure_bind]
  simp only [addOrSubtract_eq, pure_bind, register_rd, hlow]
  cases mnemonic with
  | _ => rfl

/-- The masks of the immediate fields are those of the width with zeros above them. -/
theorem immediateMasks_eq (immediate : Bool) (width : OperandWidth) :
    immediateMasks word immediate width =
      match A64Machine.immediateMasks word width.bits immediate with
      | .ok masks => pure (masks.1.setWidth 64, masks.2.setWidth 64)
      | .error cause => throw (.fault cause) := by
  have hn : ((InstructionField.n.extract word).setWidth 32 == 1) =
      (InstructionField.n.extract word == 1) := by
    rw [Bool.eq_iff_iff, beq_iff_eq, beq_iff_eq, ← BitVec.toNat_inj,
      BitVec.toNat_setWidth_of_le (by decide), ← BitVec.toNat_inj]
    rfl
  have hmasks := bitMasks_eq (InstructionField.n.extract word == 1)
    (InstructionField.imms.extract word) (InstructionField.immr.extract word) immediate width
  rw [immediateMasks, field_eq, pure_bind, field_eq, pure_bind, field_eq, pure_bind, hn]
  refine hmasks.trans ?_
  unfold A64Machine.immediateMasks
  cases bitMasks? width.bits (InstructionField.n.extract word == 1)
    (InstructionField.imms.extract word).toNat (InstructionField.immr.extract word).toNat
    immediate <;> rfl

theorem planLogicalImmediate_eq :
    planLogicalImmediate word mnemonic regs =
      (A64Machine.planLogicalImmediate word mnemonic regs).mapError .fault := by
  rw [planLogicalImmediate, A64Machine.planLogicalImmediate, operandWidth_eq, pure_bind,
    immediateMasks_eq]
  cases A64Machine.immediateMasks word (Operand.width word).bits true with
  | error cause => rfl
  | ok masks =>
    simp only [pure_bind, register_rn, truncate_eq, register_rd, ← BitVec.setWidth_and,
      ← BitVec.setWidth_or, ← BitVec.setWidth_xor, logicalFlags_eq]
    cases mnemonic with
    | _ => rfl

/-- The low bits of a value of 64 bits, written to the destination register. -/
theorem planResult_eq (width : OperandWidth) (value : Doubleword) :
    planResult word regs width value =
      pure (.result regs (Operand.rd word) (value.setWidth width.bits)) := by
  rw [planResult, register_rd, pure_bind, truncate_eq, pure_bind]
  rfl

theorem planMoveWide_eq :
    planMoveWide word mnemonic regs =
      (A64Machine.planMoveWide word mnemonic regs).mapError .fault := by
  have hhw : (InstructionField.hw.extract word).toNat < 4 := (InstructionField.hw.extract word).isLt
  have hlimit : (InstructionField.hw.extract word).toNat * 16 < UInt32.size := by
    have hword : 64 < UInt32.size := by decide
    omega
  have hreserved : (Operand.width word = .w32 ∧ 2 ≤ (InstructionField.hw.extract word).toNat) ↔
      (Operand.width word).bits ≤ 16 * (InstructionField.hw.extract word).toNat := by
    cases Operand.width word with
    | w32 => simp only [OperandWidth.bits, true_and]; omega
    | w64 => simp only [OperandWidth.bits, reduceCtorEq, false_and, false_iff]; omega
  rw [planMoveWide, A64Machine.planMoveWide, operandWidth_eq, pure_bind, field_eq, pure_bind]
  dsimp only
  rw [toNat_field]
  simp only [hreserved]
  by_cases hpast : (Operand.width word).bits ≤ 16 * (InstructionField.hw.extract word).toNat
  · rw [if_pos hpast, if_pos hpast]
    rfl
  have hshift : 16 * (InstructionField.hw.extract word).toNat < 64 := by omega
  have hwidth := bits_le_64 (Operand.width word)
  have hhole : (0xFFFF#64).setWidth (Operand.width word).bits = 0xFFFF#(Operand.width word).bits :=
    BitVec.setWidth_ofNat_of_le hwidth 0xFFFF
  rw [if_neg hpast, if_neg hpast, product_eq hlimit, pure_bind, Nat.mul_comm, field_eq, pure_bind,
    setWidth_widened (by decide), shiftLeft_eq _ hshift, pure_bind]
  simp only [planResult_eq, register_rd, pure_bind, shiftLeft_eq _ hshift, BitVec.setWidth_or,
    BitVec.setWidth_and, BitVec.setWidth_not hwidth, setWidth_shiftLeft_low hwidth, hhole,
    setWidth_widened (show InstructionField.imm16.width ≤ 64 by decide)]
  cases mnemonic with
  | _ => rfl

/-- A bit below the width, repeated over the width. -/
theorem spread_eq {width : OperandWidth} (value : BitVec width.bits) {position : Nat}
    (hposition : position < 64) :
    spread (value.setWidth 64) position width =
      pure ((if value.getLsbD position then BitVec.allOnes width.bits else 0).setWidth 64) := by
  rw [spread, shiftRight_eq _ hposition, pure_bind, and_one_eq (by decide),
    BitVec.getLsbD_ushiftRight, Nat.add_zero, BitVec.getLsbD_setWidth, decide_eq_true hposition,
    Bool.true_and, ones_eq]
  cases value.getLsbD position <;> cases width <;> rfl

theorem planBitfield_eq :
    planBitfield word mnemonic regs =
      (A64Machine.planBitfield word mnemonic regs).mapError .fault := by
  have hwidth := bits_le_64 (Operand.width word)
  have himmr : (InstructionField.immr.extract word).toNat < 64 :=
    (InstructionField.immr.extract word).isLt
  have himms : (InstructionField.imms.extract word).toNat < 64 :=
    (InstructionField.imms.extract word).isLt
  -- Numbers of six bits are always below 64, so only the 32-bit form can refuse one.
  have hpast : (Operand.width word = .w32 ∧ (32 ≤ (InstructionField.immr.extract word).toNat ∨
        32 ≤ (InstructionField.imms.extract word).toNat)) ↔
      (Operand.width word).bits ≤ (InstructionField.immr.extract word).toNat ∨
        (Operand.width word).bits ≤ (InstructionField.imms.extract word).toNat := by
    cases Operand.width word with
    | w32 => simp only [OperandWidth.bits, true_and]
    | w64 => simp only [OperandWidth.bits, reduceCtorEq, false_and, false_iff]; omega
  rw [planBitfield, A64Machine.planBitfield, operandWidth_eq, pure_bind, field_eq, pure_bind,
    field_eq, pure_bind]
  dsimp only
  rw [toNat_field, toNat_field]
  simp only [hpast]
  split
  next => rfl
  next hinside =>
    rw [immediateMasks_eq]
    cases A64Machine.immediateMasks word (Operand.width word).bits false with
    | error cause => rfl
    | ok masks =>
      have hturned (value : BitVec (Operand.width word).bits) (amount : Nat) :
          ShiftKind.ror.apply value amount = value.rotateRight amount :=
        rotateRight_mod value amount
      simp only [pure_bind, register_rd, register_rn, truncate_eq, shiftValue_eq,
        spread_eq _ himms, planResult_eq, BitVec.setWidth_or, BitVec.setWidth_and,
        BitVec.setWidth_not hwidth, setWidth_bits, hturned]
      cases mnemonic with
      | _ => rfl

theorem planBranch_eq (taken : Bool) {name : InstructionField} (hpositive : 0 < name.width)
    (hname : name.width ≤ 30) :
    planBranch word regs taken name name.width =
      pure (.branch regs taken (branchTarget regs (name.extract word))) := by
  unfold planBranch Plan.branch
  cases taken with
  | false => rfl
  | true =>
    rw [if_pos rfl, branchOffset_eq word hpositive hname]
    rfl

theorem planConditionalBranch_eq :
    planConditionalBranch word mnemonic regs =
      (A64Machine.planConditionalBranch word mnemonic regs).mapError .fault := by
  have hbranch (taken : Bool) : planBranch word regs taken .imm19 19 =
      pure (.branch regs taken (target19 word regs)) :=
    planBranch_eq word regs taken (by decide) (by decide)
  simp only [planConditionalBranch, field_eq, pure_bind, condition_eq, toNat_field, hbranch]
  cases mnemonic with
  | _ => rfl

theorem planBranchRegister_eq :
    planBranchRegister word mnemonic regs =
      (A64Machine.planBranchRegister word mnemonic regs).mapError .fault := by
  rw [planBranchRegister, register_rn, pure_bind]
  cases mnemonic with
  | _ => rfl

theorem planBranchImmediate_eq :
    planBranchImmediate word mnemonic regs =
      (A64Machine.planBranchImmediate word mnemonic regs).mapError .fault := by
  have hoffset : branchOffset word .imm26 26 =
      pure ((InstructionField.imm26.extract word ++ 0#2).signExtend 64) :=
    branchOffset_eq word (by decide) (by decide)
  simp only [planBranchImmediate, hoffset, pure_bind]
  cases mnemonic with
  | _ => rfl

theorem planCompareBranch_eq :
    planCompareBranch word mnemonic regs =
      (A64Machine.planCompareBranch word mnemonic regs).mapError .fault := by
  have hbranch (taken : Bool) : planBranch word regs taken .imm19 19 =
      pure (.branch regs taken (target19 word regs)) :=
    planBranch_eq word regs taken (by decide) (by decide)
  simp only [planCompareBranch, operandWidth_eq, register_rt, truncate_eq, pure_bind, hbranch,
    setWidth_beq_zero (bits_le_64 (Operand.width word))]
  cases mnemonic with
  | _ => rfl

theorem planTestBranch_eq :
    planTestBranch word mnemonic regs =
      (A64Machine.planTestBranch word mnemonic regs).mapError .fault := by
  have hpair : fieldPair word .b5 .b40 5 =
      pure ((InstructionField.b5.extract word ++ InstructionField.b40.extract word).setWidth 32) :=
    fieldPair_eq word .b5 (by decide)
  have hbranch (taken : Bool) : planBranch word regs taken .imm14 14 =
      pure (.branch regs taken (branchTarget regs (InstructionField.imm14.extract word))) :=
    planBranch_eq word regs taken (by decide) (by decide)
  have hposition : ((InstructionField.b5.extract word ++ InstructionField.b40.extract word).setWidth
        32).toNat =
      (InstructionField.b5.extract word ++ InstructionField.b40.extract word).toNat :=
    BitVec.toNat_setWidth_of_le (by decide)
  have hlimit :
      (InstructionField.b5.extract word ++ InstructionField.b40.extract word).toNat < 64 :=
    (InstructionField.b5.extract word ++ InstructionField.b40.extract word).isLt
  rw [planTestBranch, hpair, pure_bind, register_rt, pure_bind, hposition, shiftRight_eq _ hlimit,
    pure_bind]
  simp only [and_one_eq (show 0 < 64 by decide), BitVec.getLsbD_ushiftRight, Nat.add_zero, hbranch]
  cases mnemonic with
  | _ => rfl

theorem shiftedOperand_eq (width : OperandWidth) (mayRotate : Bool) :
    shiftedOperand word regs width mayRotate =
      match A64Machine.shiftedOperand word width.bits regs mayRotate with
      | .ok operand => pure (operand.setWidth 64)
      | .error cause => throw (.fault cause) := by
  rw [shiftedOperand, A64Machine.shiftedOperand, field_eq, pure_bind, field_eq, pure_bind]
  dsimp only
  rw [toNat_field, toNat_field]
  split
  next => rfl
  next =>
    rw [register_rm, pure_bind, shiftValue_eq]
    rfl

theorem planAddSubShifted_eq :
    planAddSubShifted word mnemonic regs =
      (A64Machine.planAddSubShifted word mnemonic regs).mapError .fault := by
  unfold planAddSubShifted A64Machine.planAddSubShifted
  rw [operandWidth_eq, pure_bind]
  dsimp only
  rw [shiftedOperand_eq]
  cases A64Machine.shiftedOperand word (Operand.width word).bits regs false with
  | error cause =>
    cases mnemonic with
    | _ => rfl
  | ok operand =>
    simp only [pure_bind, register_rn, addOrSubtract_eq, register_rd, setWidth_bits]
    cases mnemonic with
    | _ => rfl

theorem planLogicalShifted_eq :
    planLogicalShifted word mnemonic regs =
      (A64Machine.planLogicalShifted word mnemonic regs).mapError .fault := by
  have hwidth := bits_le_64 (Operand.width word)
  rw [planLogicalShifted, A64Machine.planLogicalShifted, operandWidth_eq, pure_bind,
    shiftedOperand_eq]
  cases A64Machine.shiftedOperand word (Operand.width word).bits regs true with
  | error cause => rfl
  | ok operand =>
    simp only [pure_bind, register_rn, truncate_eq, register_rd, BitVec.setWidth_not hwidth,
      setWidth_bits, ← BitVec.setWidth_and,
      ← BitVec.setWidth_or, ← BitVec.setWidth_xor, logicalFlags_eq]
    cases mnemonic with
    | _ => rfl

theorem planMultiplyAdd_eq :
    planMultiplyAdd word mnemonic regs =
      (A64Machine.planMultiplyAdd word mnemonic regs).mapError .fault := by
  have hwidth := bits_le_64 (Operand.width word)
  simp only [planMultiplyAdd, operandWidth_eq, register_rn, register_rm, register_ra, pure_bind,
    planResult_eq, BitVec.setWidth_add _ _ hwidth, BitVec.setWidth_mul _ _ hwidth,
    setWidth_sub_low hwidth]
  cases mnemonic with
  | _ => rfl

/-- A quotient with a sign is the one at the width. -/
theorem signedQuotient_eq {width : OperandWidth} (x y : BitVec width.bits) :
    ∃ value, signedQuotient (x.setWidth 64) (y.setWidth 64) width = pure value ∧
      value.setWidth width.bits = x.sdiv y := by
  have hwidth := bits_le_64 width
  rw [signedQuotient, signExtend_eq, signExtend_setWidth, pure_bind, signExtend_eq,
    signExtend_setWidth, pure_bind]
  have hquotient := sdiv_widened hwidth x y
  split
  next hzero =>
    refine ⟨0, rfl, ?_⟩
    rw [hzero] at hquotient
    rw [← hquotient]
    exact congrArg (BitVec.setWidth width.bits) BitVec.sdiv_zero.symm
  next hsome =>
    refine ⟨(x.signExtend 64).sdiv (y.signExtend 64), ?_, hquotient⟩
    exact if_neg hsome

theorem planTwoSource_eq :
    planTwoSource word mnemonic regs =
      (A64Machine.planTwoSource word mnemonic regs).mapError .fault := by
  have hwidth := bits_le_64 (Operand.width word)
  have hdivisor := Nat.ne_of_gt (bits_pos (Operand.width word))
  have hmod (kind : ShiftKind) (value : BitVec (Operand.width word).bits) (amount : Nat) :
      kind.apply value (amount % (Operand.width word).bits) = kind.apply value amount := by
    cases kind <;> simp only [ShiftKind.apply, Nat.mod_mod]
  have hunsigned (x y : BitVec (Operand.width word).bits) :
      (if y.setWidth 64 = 0 then 0 else x.setWidth 64 / y.setWidth 64) = (x / y).setWidth 64 := by
    rw [udiv_widened hwidth]
    split
    next hzero =>
      have hnone : y = 0 := by
        rw [← setWidth_bits _ y, hzero]
        exact BitVec.setWidth_zero _ _
      have hquotient : x / 0 = 0 := BitVec.udiv_zero
      rw [hnone, hquotient]
      exact (BitVec.setWidth_zero _ _).symm
    next => rfl
  simp only [planTwoSource, operandWidth_eq, register_rn, register_rm, truncate_eq, pure_bind,
    remainder_eq hdivisor, planResult_eq, shiftValue_eq, setWidth_bits, hmod,
    BitVec.toNat_setWidth_of_le hwidth, hunsigned]
  rcases signedQuotient_eq (regs.read (Operand.width word).bits (Operand.rn word))
    (regs.read (Operand.width word).bits (Operand.rm word)) with ⟨value, hvalue, hquotient⟩
  unfold RegisterFile.read at hvalue hquotient
  simp only [hvalue, pure_bind, hquotient]
  cases mnemonic with
  | _ => rfl

theorem planConditionalSelect_eq :
    planConditionalSelect word mnemonic regs =
      (A64Machine.planConditionalSelect word mnemonic regs).mapError .fault := by
  have hwidth := bits_le_64 (Operand.width word)
  have hcode : ((word.extractLsb' 12 4).setWidth 32).toNat = (word.extractLsb' 12 4).toNat :=
    BitVec.toNat_setWidth_of_le (by decide)
  have hone : (1 : Doubleword).setWidth (Operand.width word).bits = 1 :=
    BitVec.setWidth_ofNat_of_le hwidth 1
  have hselect (taken : Bool) (x y : Doubleword) :
      (if taken then x else y).setWidth (Operand.width word).bits =
        if taken then x.setWidth (Operand.width word).bits
        else y.setWidth (Operand.width word).bits := by
    cases taken <;> rfl
  simp only [planConditionalSelect, operandWidth_eq, register_rn, register_rm, pure_bind,
    bits_eq word (show 12 < 32 by decide) (show 4 < 32 by decide), condition_eq, hcode,
    planResult_eq, hselect, BitVec.setWidth_add _ _ hwidth, BitVec.setWidth_not hwidth,
    BitVec.setWidth_neg_of_le hwidth, hone]
  cases mnemonic with
  | _ => rfl

theorem planLoadLiteral_eq :
    planLoadLiteral word mnemonic regs =
      (A64Machine.planLoadLiteral word mnemonic regs).mapError .fault := by
  have hoffset : branchOffset word .imm19 19 =
      pure ((InstructionField.imm19.extract word ++ 0#2).signExtend 64) :=
    branchOffset_eq word (by decide) (by decide)
  -- A load that extends its sign does so when the answer comes, which is not part of the plan.
  rw [planLoadLiteral, hoffset, pure_bind, register_rt, pure_bind]
  cases mnemonic with
  | _ => rfl

/-- The offset of a load or store of one register, as the plan has it. -/
theorem accessOffset_eq (indexing : Indexing) :
    accessOffset word indexing = pure (match indexing with
      | .offset =>
        (InstructionField.imm12.extract word).setWidth 64 <<<
          (InstructionField.size.extract word).toNat
      | .preIndex | .postIndex => (InstructionField.imm9.extract word).signExtend 64) := by
  have hsize : (InstructionField.size.extract word).toNat < 4 :=
    (InstructionField.size.extract word).isLt
  have hoffset : accessOffset word .offset = pure
      ((InstructionField.imm12.extract word).setWidth 64 <<<
        (InstructionField.size.extract word).toNat) := by
    rw [accessOffset, field_eq, pure_bind, field_eq, pure_bind, setWidth_widened (by decide),
      toNat_field, shiftLeft_eq _ (by omega)]
  have hindexed : (do
      let imm9 ← field word .imm9
      signExtend (imm9.setWidth 64) 9) =
      pure ((InstructionField.imm9.extract word).signExtend 64) := by
    rw [field_eq, pure_bind, setWidth_widened (by decide), signExtend_eq]
    exact congrArg pure (signExtend_field (by decide) (by decide) _)
  cases indexing with
  | offset => exact hoffset
  | preIndex => exact hindexed
  | postIndex => exact hindexed

theorem planLoadStore_eq (indexing : Indexing) :
    planLoadStore word mnemonic indexing regs =
      (A64Machine.planLoadStore word mnemonic indexing regs).mapError .fault := by
  simp only [planLoadStore, register_rt, register_rn, pure_bind, accessOffset_eq,
    byteMask_eq (show 4 ≤ 8 by decide), byteMask_eq (show 8 ≤ 8 by decide)]
  unfold A64Machine.planLoadStore
  cases mnemonic with
  | strW | ldrW | ldrsw | strX | ldrX =>
    dsimp only
    rw [apply_ite (Except.mapError Stop.fault)]
    rfl
  | prfm => cases indexing <;> rfl
  | _ => rfl

/-- A displacement counted in elements of four or eight bytes. -/
theorem shiftLeft_ctz {bytes : Nat} (hbytes : bytes = 4 ∨ bytes = 8) (value : Doubleword) :
    shiftLeft value (BitVec.ofNat 64 bytes).ctz.toNat = pure (value * BitVec.ofNat 64 bytes) := by
  rcases hbytes with rfl | rfl
  · have hzeros : (BitVec.ofNat 64 4).ctz.toNat = 2 := by decide +kernel
    rw [hzeros, shiftLeft_eq _ (by decide), BitVec.shiftLeft_eq_mul_twoPow]
    rfl
  · have hzeros : (BitVec.ofNat 64 8).ctz.toNat = 3 := by decide +kernel
    rw [hzeros, shiftLeft_eq _ (by decide), BitVec.shiftLeft_eq_mul_twoPow]
    rfl

theorem planLoadStorePair_eq (indexing : Indexing) :
    planLoadStorePair word mnemonic indexing regs =
      (A64Machine.planLoadStorePair word mnemonic indexing regs).mapError .fault := by
  have hdisplacement :
      signExtend (((InstructionField.imm7.extract word).setWidth 32).setWidth 64) 7 =
        pure ((InstructionField.imm7.extract word).signExtend 64) := by
    rw [setWidth_widened (by decide), signExtend_eq]
    exact congrArg pure (signExtend_field (by decide) (by decide) _)
  simp only [planLoadStorePair, A64Machine.planLoadStorePair, register_rt, register_rt2,
    register_rn, pure_bind, field_eq, hdisplacement, shiftLeft_ctz (.inl rfl),
    shiftLeft_ctz (.inr rfl), byteMask_eq (show 4 ≤ 8 by decide),
    byteMask_eq (show 8 ≤ 8 by decide)]
  cases mnemonic with
  | stpW | ldpW | stpX | ldpX =>
    dsimp only
    rw [apply_ite (Except.mapError Stop.fault)]
    rfl
  | _ => rfl

end Families

/-- The checked computation of a plan ends as the plan does. -/
theorem plan_eq (instruction : Instruction) (regs : RegisterFile) :
    plan instruction regs = (A64Machine.plan instruction regs).mapError .fault := by
  unfold plan A64Machine.plan
  cases instruction.cls with
  | pcRelativeAddressing => exact planPcRelative_eq _ _ _
  | addSubtractImmediate => exact planAddSubImmediate_eq _ _ _
  | logicalImmediate => exact planLogicalImmediate_eq _ _ _
  | moveWideImmediate => exact planMoveWide_eq _ _ _
  | bitfield => exact planBitfield_eq _ _ _
  | conditionalBranch => exact planConditionalBranch_eq _ _ _
  | unconditionalBranchRegister => exact planBranchRegister_eq _ _ _
  | unconditionalBranchImmediate => exact planBranchImmediate_eq _ _ _
  | compareAndBranch => exact planCompareBranch_eq _ _ _
  | testAndBranch => exact planTestBranch_eq _ _ _
  | addSubtractShiftedRegister => exact planAddSubShifted_eq _ _ _
  | logicalShiftedRegister => exact planLogicalShifted_eq _ _ _
  | dataProcessingThreeSource => exact planMultiplyAdd_eq _ _ _
  | dataProcessingTwoSource => exact planTwoSource_eq _ _ _
  | conditionalSelect => exact planConditionalSelect_eq _ _ _
  | loadRegisterLiteral => exact planLoadLiteral_eq _ _ _
  | loadStoreUnsignedImmediate => exact planLoadStore_eq _ _ _ _
  | loadStoreImmediatePreIndexed => exact planLoadStore_eq _ _ _ _
  | loadStoreImmediatePostIndexed => exact planLoadStore_eq _ _ _ _
  | loadStorePairOffset => exact planLoadStorePair_eq _ _ _ _
  | loadStorePairPreIndexed => exact planLoadStorePair_eq _ _ _ _
  | loadStorePairPostIndexed => exact planLoadStorePair_eq _ _ _ _
  | _ => rfl

end Checked

end A64Machine
