import A64Machine.Proofs.Execution.BitfieldMoves
import A64Machine.Proofs.Execution.Comparisons

/-!
Shifts.  A register is shifted by a bitfield move whose fields hold the amount, by the amount in
another register modulo the width, and as the second operand of ORR with the zero register.  The three
ways write the same value: the shift or rotation of the number that the source holds at the width.
-/

namespace A64Machine

namespace ShiftKind

/-- A number of width `w` multiplied or divided by `2 ^ k`.  A division rounds down and the sign
counts for ASR alone; ROR puts the remainder above the quotient. -/
def shifted {w : Nat} (kind : ShiftKind) (x : BitVec w) (k : Nat) : BitVec w :=
  match kind with
  | .lsl => BitVec.ofNat w (x.toNat * 2 ^ k)
  | .lsr => BitVec.ofNat w (x.toNat / 2 ^ k)
  | .asr => BitVec.ofInt w (x.toInt / 2 ^ k)
  | .ror => BitVec.ofNat w (x.toNat % 2 ^ k * 2 ^ (w - k) + x.toNat / 2 ^ k)

/-- Only the amount modulo the width counts. -/
theorem apply_mod {w : Nat} (kind : ShiftKind) (x : BitVec w) (amount : Nat) :
    kind.apply x (amount % w) = kind.apply x amount := by
  cases kind <;> simp only [apply, Nat.mod_mod]

section Amount

variable {w k : Nat} (hk : k < w) (x : BitVec w)

include hk

/-- A rotation moves the low bits to the top, and the others down. -/
theorem toNat_rotateRight :
    (x.rotateRight k).toNat = x.toNat % 2 ^ k * 2 ^ (w - k) + x.toNat / 2 ^ k := by
  have hsplit : 2 ^ w = 2 ^ k * 2 ^ (w - k) := by
    rw [← Nat.pow_add, Nat.add_sub_cancel' (Nat.le_of_lt hk)]
  have hquotient : x.toNat / 2 ^ k < 2 ^ (w - k) := by
    apply Nat.div_lt_of_lt_mul
    rw [← hsplit]
    exact x.isLt
  rw [BitVec.toNat_rotateRight, Nat.mod_eq_of_lt hk, Nat.shiftRight_eq_div_pow, Nat.shiftLeft_eq,
    hsplit, Nat.mul_mod_mul_right, Nat.or_comm, ← Nat.shiftLeft_eq,
    ← Nat.shiftLeft_add_eq_or_of_lt hquotient]

/-- A shift by less than the width is the shift of the number. -/
theorem apply_eq_shifted (kind : ShiftKind) : kind.apply x k = kind.shifted x k := by
  cases kind with
  | lsl =>
    apply BitVec.eq_of_toNat_eq
    rw [apply, shifted, Nat.mod_eq_of_lt hk, BitVec.toNat_shiftLeft, BitVec.toNat_ofNat,
      Nat.shiftLeft_eq]
  | lsr =>
    apply BitVec.eq_of_toNat_eq
    rw [apply, shifted, Nat.mod_eq_of_lt hk, BitVec.toNat_ushiftRight, BitVec.toNat_ofNat,
      Nat.shiftRight_eq_div_pow, Nat.mod_eq_of_lt (Nat.lt_of_le_of_lt (Nat.div_le_self _ _) x.isLt)]
  | asr =>
    rw [apply, shifted, Nat.mod_eq_of_lt hk, BitVec.sshiftRight, Int.shiftRight_eq_div_pow]
    rfl
  | ror =>
    apply BitVec.eq_of_toNat_eq
    rw [apply, shifted, Nat.mod_eq_of_lt hk, BitVec.toNat_ofNat, ← toNat_rotateRight hk,
      Nat.mod_eq_of_lt (x.rotateRight k).isLt]

end Amount

end ShiftKind

/-! ### Shifts as bitfield moves -/

namespace BitRun

variable {w k : Nat} (hk : k < w)

include hk

/-- A shift to the right takes the bits from the amount on to the bottom. -/
theorem ofFields_right : ofFields w k (w - 1) = ⟨k, w - k, 0⟩ := by
  have hcount : w - 1 - k + 1 = w - k := by omega
  rw [ofFields, if_pos (Nat.le_sub_one_of_lt hk), hcount]

/-- A shift to the left takes the bits that stay inside up to the amount. -/
theorem ofFields_left : ofFields w ((w - k) % w) (w - 1 - k) = ⟨0, w - k, k⟩ := by
  rcases Nat.eq_zero_or_pos k with rfl | hpos
  · rw [Nat.sub_zero, Nat.mod_self, Nat.sub_zero]
    exact ofFields_right hk
  · have hcount : w - 1 - k + 1 = w - k := by omega
    have htarget : w - (w - k) = k := by omega
    rw [Nat.mod_eq_of_lt (by omega), ofFields, if_neg (by omega), hcount, htarget]

variable (x : BitVec w)

theorem zeroed_right : zeroed ⟨k, w - k, 0⟩ x = ShiftKind.lsr.apply x k := by
  apply BitVec.eq_of_getLsbD_eq
  intro i hi
  have hplace : 0 + i < w := by omega
  have hbit : (zeroed ⟨k, w - k, 0⟩ x).getLsbD (0 + i) = _ := getLsbD_zeroed hplace
  dsimp only at hbit
  rw [ShiftKind.apply, Nat.mod_eq_of_lt hk, BitVec.getLsbD_ushiftRight, ← Nat.zero_add i, hbit,
    Nat.zero_add]
  rcases Nat.lt_or_ge i (w - k) with hwithin | habove
  · rw [decide_eq_true hwithin, Bool.true_and]
  · rw [BitVec.getLsbD_of_ge x (k + i) (by omega), Bool.and_false]

theorem zeroed_left : zeroed ⟨0, w - k, k⟩ x = ShiftKind.lsl.apply x k := by
  apply BitVec.eq_of_getLsbD_eq
  intro i hi
  rw [ShiftKind.apply, Nat.mod_eq_of_lt hk, BitVec.getLsbD_shiftLeft, decide_eq_true hi,
    Bool.true_and]
  rcases Nat.lt_or_ge i k with hbelow | hfrom
  · rw [getLsbD_zeroed_below hbelow]
    simp [hbelow]
  · obtain ⟨j, rfl⟩ := Nat.exists_eq_add_of_le hfrom
    have hwithin : j < w - k := by omega
    rw [getLsbD_zeroed hi]
    simp [hwithin]

theorem signed_right : signed ⟨k, w - k, 0⟩ x = ShiftKind.asr.apply x k := by
  have hsign := msb_take_ofFields x k (w - 1)
  rw [ofFields_right hk, ← BitVec.msb_eq_getLsbD_last] at hsign
  apply BitVec.eq_of_getLsbD_eq
  intro i hi
  have hplace : 0 + i < w := by omega
  have hbit : (signed ⟨k, w - k, 0⟩ x).getLsbD (0 + i) = _ := getLsbD_signed hplace
  dsimp only at hbit
  have hinside : k + i < w ↔ i < w - k := by omega
  rw [ShiftKind.apply, Nat.mod_eq_of_lt hk, BitVec.getLsbD_sshiftRight, ← Nat.zero_add i, hbit,
    hsign, Nat.zero_add]
  simp [hi, hinside]

end BitRun

/-! ### The forms of a shift -/

/-- The ways to shift a register: as a bitfield move, by the amount in a register, and as the second
operand of ORR with the zero register. -/
inductive ShiftForm where
  | bitfield | register | operand
  deriving Repr, DecidableEq

namespace ShiftForm

/-- The number of the register that a word of this form shifts. -/
def source (form : ShiftForm) (word : Word) : Nat :=
  match form with
  | .bitfield | .register => Operand.rn word
  | .operand => Operand.rm word

/-- The operations that a form has for a kind of shift.  No bitfield move rotates. -/
def operations : ShiftForm → ShiftKind → List Mnemonic
  | .bitfield, .lsl | .bitfield, .lsr => [.ubfmW, .ubfmX]
  | .bitfield, .asr => [.sbfmW, .sbfmX]
  | .bitfield, .ror => []
  | .register, .lsl => [.lslvW, .lslvX]
  | .register, .lsr => [.lsrvW, .lsrvX]
  | .register, .asr => [.asrvW, .asrvX]
  | .register, .ror => [.rorvW, .rorvX]
  | .operand, _ => [.orrW, .orrX]

/-- The fields of a bitfield move, `immr` and `imms`, that shifts by `k` at width `w`. -/
def bitfieldFields (kind : ShiftKind) (w k : Nat) : Nat × Nat :=
  match kind with
  | .lsl => ((w - k) % w, w - 1 - k)
  | _ => (k, w - 1)

/-- Whether a word of this form shifts by `k`, apart from its operation: by its fields, or by the
amount that a register holds modulo the width. -/
def Amounts (form : ShiftForm) (kind : ShiftKind) (k : Nat) (word : Word) (regs : RegisterFile) :
    Prop :=
  let w := (Operand.width word).bits
  match form with
  | .bitfield => ((InstructionField.immr.extract word).toNat,
      (InstructionField.imms.extract word).toNat) = bitfieldFields kind w k
  | .register => (regs.read w (Operand.rm word)).toNat % w = k
  | .operand => Operand.rn word = zeroOrSp ∧
      ShiftKind.ofBits (InstructionField.shift.extract word).toNat = kind ∧
      (InstructionField.imm6.extract word).toNat = k

instance (form : ShiftForm) (kind : ShiftKind) (k : Nat) (word : Word) (regs : RegisterFile) :
    Decidable (form.Amounts kind k word regs) :=
  match form with
  | .bitfield => inferInstanceAs (Decidable (_ = _))
  | .register => inferInstanceAs (Decidable (_ = _))
  | .operand => inferInstanceAs (Decidable (_ ∧ _ ∧ _))

theorem bitfieldFields_lt (kind : ShiftKind) {w k : Nat} (hk : k < w) :
    (bitfieldFields kind w k).1 < w ∧ (bitfieldFields kind w k).2 < w := by
  cases kind with
  | lsl =>
    have hpos : 0 < w := Nat.lt_of_le_of_lt (Nat.zero_le k) hk
    have hlast : w - 1 - k < w := by omega
    exact ⟨Nat.mod_lt _ hpos, hlast⟩
  | lsr | asr | ror =>
    have hlast : w - 1 < w := by omega
    exact ⟨hk, hlast⟩

/-- A bitfield move with the fields of a shift is that shift. -/
theorem result_bitfieldFields {kind : ShiftKind} {mnemonic : Mnemonic}
    (hoperation : mnemonic ∈ operations .bitfield kind) {w k : Nat} (hk : k < w) (x y : BitVec w) :
    (BitRun.ofFields w (bitfieldFields kind w k).1 (bitfieldFields kind w k).2).result mnemonic x y =
      kind.apply x k := by
  cases kind with
  | lsl =>
    simp only [operations, List.mem_cons, List.not_mem_nil, or_false] at hoperation
    rw [← BitRun.zeroed_left hk, ← BitRun.ofFields_left hk]
    rcases hoperation with rfl | rfl <;> rfl
  | lsr =>
    simp only [operations, List.mem_cons, List.not_mem_nil, or_false] at hoperation
    rw [← BitRun.zeroed_right hk, ← BitRun.ofFields_right hk]
    rcases hoperation with rfl | rfl <;> rfl
  | asr =>
    simp only [operations, List.mem_cons, List.not_mem_nil, or_false] at hoperation
    rw [← BitRun.signed_right hk, ← BitRun.ofFields_right hk]
    rcases hoperation with rfl | rfl <;> rfl
  | ror => simp only [operations, List.not_mem_nil] at hoperation

section Plan

variable {regs : RegisterFile} {word : Word} {instruction : Instruction} {kind : ShiftKind} {k : Nat}
  (hdecode : decode word = .ok instruction)

include hdecode

theorem plan_bitfield (hoperation : instruction.mnemonic ∈ operations .bitfield kind)
    (hamount : Amounts .bitfield kind k word regs) (hk : k < (Operand.width word).bits) :
    plan instruction regs = .ok (.result regs (Operand.rd word)
      (kind.apply (regs.read (Operand.width word).bits (Operand.rn word)) k)) := by
  have hall : ∀ kind, ∀ mnemonic ∈ operations .bitfield kind,
      mnemonic ∈ InstructionClass.bitfield.operations := by
    intro kind
    cases kind <;> decide
  have hmoves := hall kind _ hoperation
  obtain ⟨hclass, hn⟩ := class_of_bitfield hdecode hmoves
  obtain ⟨hr, hs⟩ := Prod.ext_iff.1 hamount
  dsimp only at hr hs
  obtain ⟨hlowR, hlowS⟩ := bitfieldFields_lt kind hk
  rw [← hr] at hlowR
  rw [← hs] at hlowS
  rw [plan, hclass, (decode_eq_ok hdecode).1]
  dsimp only
  rw [planBitfield_of_fields hn hlowR hlowS hmoves, hr, hs, result_bitfieldFields hoperation hk]

theorem plan_register (hoperation : instruction.mnemonic ∈ operations .register kind)
    (hamount : Amounts .register kind k word regs) :
    plan instruction regs = .ok (.result regs (Operand.rd word)
      (kind.apply (regs.read (Operand.width word).bits (Operand.rn word)) k)) := by
  have hall : ∀ kind, ∀ mnemonic ∈ operations .register kind,
      mnemonic ∈ InstructionClass.dataProcessingTwoSource.operations := by
    intro kind
    cases kind <;> decide
  have hclass : instruction.cls = .dataProcessingTwoSource :=
    class_of_operation (by decide) hdecode (hall kind _ hoperation)
  rw [plan, hclass, (decode_eq_ok hdecode).1, ← hamount, ShiftKind.apply_mod]
  dsimp only
  generalize instruction.mnemonic = mnemonic at hoperation
  cases kind <;> simp only [operations, List.mem_cons, List.not_mem_nil, or_false] at hoperation <;>
    rcases hoperation with rfl | rfl <;> rfl

theorem plan_operand (hoperation : instruction.mnemonic ∈ operations .operand kind)
    (hamount : Amounts .operand kind k word regs) (hk : k < (Operand.width word).bits) :
    plan instruction regs = .ok (.result regs (Operand.rd word)
      (kind.apply (regs.read (Operand.width word).bits (Operand.rm word)) k)) := by
  have hmember : instruction.mnemonic ∈ InstructionClass.logicalShiftedRegister.operations := by
    have hall : ∀ mnemonic ∈ operations .operand .lsl,
        mnemonic ∈ InstructionClass.logicalShiftedRegister.operations := by decide
    exact hall _ hoperation
  have hclass : instruction.cls = .logicalShiftedRegister :=
    class_of_operation (by decide) hdecode hmember
  obtain ⟨hzero, hkind, himm⟩ := hamount
  have hsource : regs.read (Operand.width word).bits (Operand.rn word) = 0 := by
    rw [hzero]
    exact BitVec.setWidth_zero _ _
  have hshifted : shiftedOperand word (Operand.width word).bits regs true =
      .ok (kind.apply (regs.read (Operand.width word).bits (Operand.rm word)) k) := by
    simp only [shiftedOperand, hkind, himm, Bool.not_true, Bool.false_eq_true, and_false, false_or,
      if_neg (Nat.not_le.2 hk)]
    rfl
  rw [plan, hclass, (decode_eq_ok hdecode).1]
  dsimp only
  simp only [operations, List.mem_cons, List.not_mem_nil, or_false] at hoperation
  simp only [planLogicalShifted, hshifted, hsource, bind, Except.bind]
  rcases hoperation with hmnemonic | hmnemonic <;> rw [hmnemonic] <;> simp [BitVec.zero_or] <;> rfl

/-- The plan of each form is the shift of its source. -/
theorem plan_eq {form : ShiftForm} (hoperation : instruction.mnemonic ∈ form.operations kind)
    (hamount : form.Amounts kind k word regs) (hk : k < (Operand.width word).bits) :
    plan instruction regs = .ok (.result regs (Operand.rd word)
      (kind.apply (regs.read (Operand.width word).bits (form.source word)) k)) := by
  cases form with
  | bitfield => exact plan_bitfield hdecode hoperation hamount hk
  | register => exact plan_register hdecode hoperation hamount
  | operand => exact plan_operand hdecode hoperation hamount hk

end Plan

end ShiftForm

/-- The forms of a shift agree.  Every form that shifts by less than the width retires, and writes
with zeros above the width what the shift makes of the number that its source holds at the width. -/
theorem shiftForms_agree (width : OperandWidth) (kind : ShiftKind) {k : Nat} (hk : k < width.bits)
    (x : BitVec width.bits) (form : ShiftForm) {regs : RegisterFile} {memory fetched : UnitMemory}
    {word : Word} {instruction : Instruction}
    (hfetch : memory.fetch regs.pc = .ok (.ok word, fetched))
    (hdecode : decode word = .ok instruction) (hwidth : Operand.width word = width)
    (hoperation : instruction.mnemonic ∈ form.operations kind)
    (hamount : form.Amounts kind k word regs)
    (hsource : regs.read width.bits (form.source word) = x) :
    step regs memory = .ok (.retired regs.pc word instruction.group instruction.mnemonic,
      (regs.setGpr (Operand.rd word) ((kind.shifted x k).setWidth 64)).setPc (regs.pc + 4),
      fetched) := by
  subst hwidth hsource
  have hplan := ShiftForm.plan_eq hdecode hoperation hamount hk
  rw [ShiftKind.apply_eq_shifted hk] at hplan
  rw [step_of_plan hfetch hdecode hplan rfl, Plan.applyTo_result]

/-- SBFM W0, W1, #4, #31, then ASRV W0, W1, W2 with 36 in W2, then ORR W0, WZR, W1, ASR #4: each
leaves the same in X0, whatever the high halves hold. -/
theorem shiftForms_agree_asr :
    ∃ regs : RegisterFile, ∃ first second third : UnitMemory,
      regs.gpr 1 = 0x7FFFFFFF80000001 ∧ regs.gpr 2 = 0xFFFFFFFF00000024 ∧
      (∃ fetched, step regs first = .ok (.retired 0 0x13047C20 .dataProcessingImmediate .sbfmW,
        (regs.setGpr 0 0xF8000000).setPc 4, fetched)) ∧
      (∃ fetched, step regs second = .ok (.retired 0 0x1AC22820 .dataProcessingRegister .asrvW,
        (regs.setGpr 0 0xF8000000).setPc 4, fetched)) ∧
      (∃ fetched, step regs third = .ok (.retired 0 0x2A8113E0 .dataProcessingRegister .orrW,
        (regs.setGpr 0 0xF8000000).setPc 4, fetched)) := by
  let regs : RegisterFile :=
    (RegisterFile.setGpr {} 1 0x7FFFFFFF80000001).setGpr 2 0xFFFFFFFF00000024
  let holding (word : Word) : UnitMemory :=
    { hierarchy := .ram { name := "RAM", words := #[word] }, stack := .zeroed "STACK" 4 }
  have hends {word : Word} {outcome : StepOutcome} {file expected : RegisterFile}
      {fetched : UnitMemory} (hstep : step regs (holding word) = .ok (outcome, file, fetched))
      (hfile : file = expected) :
      ∃ fetched, step regs (holding word) = .ok (outcome, expected, fetched) :=
    ⟨fetched, hfile ▸ hstep⟩
  have hmove : decode 0x13047C20 =
      .ok ⟨0x13047C20, .dataProcessingImmediate, .bitfield, .sbfmW⟩ := rfl
  have hvariable : decode 0x1AC22820 =
      .ok ⟨0x1AC22820, .dataProcessingRegister, .dataProcessingTwoSource, .asrvW⟩ := rfl
  have horr : decode 0x2A8113E0 =
      .ok ⟨0x2A8113E0, .dataProcessingRegister, .logicalShiftedRegister, .orrW⟩ := rfl
  obtain ⟨_, hmoved⟩ : ∃ fetched, (holding 0x13047C20).fetch regs.pc =
      .ok (.ok 0x13047C20, fetched) := exists_of_answer (by decide +kernel)
  obtain ⟨_, hshifted⟩ : ∃ fetched, (holding 0x1AC22820).fetch regs.pc =
      .ok (.ok 0x1AC22820, fetched) := exists_of_answer (by decide +kernel)
  obtain ⟨_, hored⟩ : ∃ fetched, (holding 0x2A8113E0).fetch regs.pc =
      .ok (.ok 0x2A8113E0, fetched) := exists_of_answer (by decide +kernel)
  have hk : 4 < OperandWidth.w32.bits := by decide
  have hsbfm := shiftForms_agree .w32 .asr hk 0x80000001 .bitfield hmoved hmove rfl
    (by decide) (by decide +kernel) (by decide +kernel)
  have hasrv := shiftForms_agree .w32 .asr hk 0x80000001 .register hshifted hvariable rfl
    (by decide) (by decide +kernel) (by decide +kernel)
  have horrShifted := shiftForms_agree .w32 .asr hk 0x80000001 .operand hored horr rfl
    (by decide) (by decide +kernel) (by decide +kernel)
  exact ⟨regs, holding 0x13047C20, holding 0x1AC22820, holding 0x2A8113E0, by decide +kernel,
    by decide +kernel, hends hsbfm (by decide +kernel), hends hasrv (by decide +kernel),
    hends horrShifted (by decide +kernel)⟩

end A64Machine
