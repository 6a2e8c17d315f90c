import Mathlib.Algebra.Group.Int.Defs
import Mathlib.Algebra.Group.Nat.Defs
import A64Machine.Proofs.Execution.CheckedPlan
import A64Machine.Proofs.Execution.Sequences

/-!
Division with a remainder.  A division leaves the quotient, and a multiply-subtract of the quotient
and the divisor from the dividend leaves the remainder that belongs to it.
-/

namespace A64Machine

/-- What a division without sign makes of `n` and `m`: the quotient and the remainder, or zero and
`n` when `m` is zero. -/
structure UnsignedDivision {w : Nat} (n m q r : BitVec w) : Prop where
  byZero : m = 0 → q = 0 ∧ r = n
  proper : m ≠ 0 → n.toNat = q.toNat * m.toNat + r.toNat ∧ r.toNat < m.toNat

/-- What a division with sign makes of `n` and `m`: the quotient rounded toward zero, and the
remainder with the sign of `n`.  The quotient of the least number by minus one has no representation
and wraps around. -/
structure SignedDivision {w : Nat} (n m q r : BitVec w) : Prop where
  byZero : m = 0 → q = 0 ∧ r = n
  wraps : n.toInt = -2 ^ (w - 1) → m.toInt = -1 → q.toInt = -2 ^ (w - 1) ∧ r = 0
  proper : m ≠ 0 → ¬(n.toInt = -2 ^ (w - 1) ∧ m.toInt = -1) →
    q.toInt = n.toInt.tdiv m.toInt ∧ n.toInt = q.toInt * m.toInt + r.toInt ∧
      r.toInt.natAbs < m.toInt.natAbs ∧ (r.toInt = 0 ∨ r.toInt.sign = n.toInt.sign)

section Arithmetic

variable {w : Nat} (n m : BitVec w)

/-- What is left after a division without sign. -/
theorem sub_udiv_mul : n - n / m * m = n % m := by
  have hquotient : (n / m * m).toNat = n.toNat / m.toNat * m.toNat := by
    rw [BitVec.toNat_mul, BitVec.toNat_udiv]
    exact Nat.mod_eq_of_lt (Nat.lt_of_le_of_lt (Nat.div_mul_le_self _ _) n.isLt)
  have hle : n / m * m ≤ n := by
    rw [BitVec.le_def, hquotient]
    exact Nat.div_mul_le_self _ _
  apply BitVec.eq_of_toNat_eq
  rw [BitVec.toNat_sub_of_le hle, hquotient, BitVec.toNat_umod]
  exact Nat.sub_eq_of_eq_add (Nat.mod_add_div' _ _).symm

theorem unsignedDivision : UnsignedDivision n m (n / m) (n - n / m * m) := by
  rw [sub_udiv_mul]
  refine ⟨?byZero, ?proper⟩
  case byZero =>
    rintro rfl
    exact ⟨BitVec.udiv_zero, BitVec.umod_zero⟩
  case proper =>
    intro hm
    have hpos : 0 < m.toNat := BitVec.toNat_pos_of_ne_zero hm
    rw [BitVec.toNat_udiv, BitVec.toNat_umod]
    exact ⟨(Nat.div_add_mod' _ _).symm, Nat.mod_lt _ hpos⟩

/-- What is left after a division with sign, also when the quotient wraps around. -/
theorem sub_sdiv_mul : n - n.sdiv m * m = n.srem m := by
  apply BitVec.eq_of_toInt_eq
  rw [BitVec.toInt_sub, BitVec.toInt_mul, BitVec.toInt_sdiv, Int.bmod_mul_bmod,
    Int.sub_bmod_bmod, Int.mul_comm, ← Int.tmod_def, ← BitVec.toInt_srem, BitVec.toInt_bmod_cancel]

variable {n m} (hw : 0 < w)

include hw

theorem toInt_eq_least_iff : n.toInt = -2 ^ (w - 1) ↔ n = BitVec.intMin w := by
  rw [← BitVec.toInt_intMin_of_pos hw, BitVec.toInt_inj]

theorem toInt_eq_neg_one_iff : m.toInt = -1 ↔ m = -1#w := by
  have hall : (-1#w).toInt = -1 := by
    rw [BitVec.neg_one_eq_allOnes, BitVec.toInt_allOnes, if_pos hw]
  rw [← BitVec.toInt_inj, hall]

theorem signedDivision : SignedDivision n m (n.sdiv m) (n - n.sdiv m * m) := by
  rw [sub_sdiv_mul]
  refine ⟨?byZero, ?wraps, ?proper⟩
  case byZero =>
    rintro rfl
    exact ⟨BitVec.sdiv_zero, BitVec.srem_zero⟩
  case wraps =>
    intro hn hm
    have hremainder : n.srem m = 0 := by
      apply BitVec.eq_of_toInt_eq
      rw [BitVec.toInt_srem, hm, Int.tmod_neg, Int.tmod_one]
      exact BitVec.toInt_zero.symm
    refine ⟨?_, hremainder⟩
    rw [(toInt_eq_least_iff hw).1 hn, (toInt_eq_neg_one_iff hw).1 hm, BitVec.intMin_sdiv_neg_one,
      BitVec.toInt_intMin_of_pos hw]
  case proper =>
    intro hm hfits
    rw [toInt_eq_least_iff hw, toInt_eq_neg_one_iff hw, Decidable.not_and_iff_not_or_not] at hfits
    have hdivisor : m.toInt ≠ 0 := fun hzero =>
      hm (BitVec.eq_of_toInt_eq (hzero.trans BitVec.toInt_zero.symm))
    rw [BitVec.toInt_sdiv_of_ne_or_ne _ _ hfits, BitVec.toInt_srem, Int.natAbs_tmod,
      ← Int.sign_eq_zero_iff_zero, Int.sign_tmod]
    refine ⟨rfl, (Int.tdiv_mul_add_tmod _ _).symm, ?_, ?_⟩
    · exact Nat.mod_lt _ (Int.natAbs_pos.2 hdivisor)
    · split
      · exact .inl rfl
      · exact .inr rfl

end Arithmetic

/-! ### The instructions -/

def Mnemonic.divisions : List Mnemonic := [.udivW, .udivX, .sdivW, .sdivX]

/-- Whether a division has regard to signs. -/
def Mnemonic.dividesSigned (mnemonic : Mnemonic) : Bool :=
  mnemonic == .sdivW || mnemonic == .sdivX

def Mnemonic.quotient {w : Nat} (mnemonic : Mnemonic) (n m : BitVec w) : BitVec w :=
  if mnemonic.dividesSigned then n.sdiv m else n / m

/-- What a division makes of `n` and `m`. -/
def Mnemonic.Divides {w : Nat} (mnemonic : Mnemonic) (n m q r : BitVec w) : Prop :=
  if mnemonic.dividesSigned then SignedDivision n m q r else UnsignedDivision n m q r

theorem Mnemonic.divides_quotient {w : Nat} (hw : 0 < w) (mnemonic : Mnemonic) (n m : BitVec w) :
    mnemonic.Divides n m (mnemonic.quotient n m) (n - mnemonic.quotient n m * m) := by
  unfold Divides quotient
  by_cases hsigned : mnemonic.dividesSigned
  · rw [if_pos hsigned, if_pos hsigned]
    exact signedDivision hw
  · rw [if_neg hsigned, if_neg hsigned]
    exact unsignedDivision n m

/-- A division and the multiply-subtract that takes the product of its quotient and its divisor from
its dividend.  The quotient overwrites neither divisor nor dividend. -/
structure RemainderPair (width : OperandWidth) (dividing subtracting : Instruction) : Prop where
  decodes : decode dividing.word = .ok dividing ∧ decode subtracting.word = .ok subtracting
  divides : dividing.mnemonic ∈ Mnemonic.divisions
  subtracts : subtracting.mnemonic = .msubW ∨ subtracting.mnemonic = .msubX
  width_eq : Operand.width dividing.word = width ∧ Operand.width subtracting.word = width
  quotient_eq : Operand.rn subtracting.word = Operand.rd dividing.word
  divisor_eq : Operand.rm subtracting.word = Operand.rm dividing.word
  dividend_eq : Operand.ra subtracting.word = Operand.rn dividing.word
  quotient_ne : Operand.rd dividing.word ≠ Operand.rn dividing.word ∧
    Operand.rd dividing.word ≠ Operand.rm dividing.word

namespace RemainderPair

variable {width : OperandWidth} {dividing subtracting : Instruction}
  (hpair : RemainderPair width dividing subtracting) (regs : RegisterFile)

include hpair

theorem plan_dividing : plan dividing regs = .ok (.result regs (Operand.rd dividing.word)
    (dividing.mnemonic.quotient (regs.read width.bits (Operand.rn dividing.word))
      (regs.read width.bits (Operand.rm dividing.word)))) := by
  have hall : ∀ mnemonic ∈ Mnemonic.divisions,
      mnemonic ∈ InstructionClass.dataProcessingTwoSource.operations := by decide
  have hclass : dividing.cls = .dataProcessingTwoSource :=
    class_of_operation (by decide) hpair.decodes.1 (hall _ hpair.divides)
  obtain rfl := hpair.width_eq.1
  have hdivides := hpair.divides
  simp only [Mnemonic.divisions, List.mem_cons, List.not_mem_nil, or_false] at hdivides
  rw [plan, hclass]
  dsimp only
  rcases hdivides with hmnemonic | hmnemonic | hmnemonic | hmnemonic <;> rw [hmnemonic] <;> rfl

theorem plan_subtracting : plan subtracting regs = .ok (.result regs (Operand.rd subtracting.word)
    (regs.read width.bits (Operand.rn dividing.word) -
      regs.read width.bits (Operand.rd dividing.word) *
        regs.read width.bits (Operand.rm dividing.word))) := by
  have hmember : subtracting.mnemonic ∈ InstructionClass.dataProcessingThreeSource.operations := by
    rcases hpair.subtracts with hmnemonic | hmnemonic <;> rw [hmnemonic] <;> decide
  have hclass : subtracting.cls = .dataProcessingThreeSource :=
    class_of_operation (by decide) hpair.decodes.2 hmember
  obtain rfl := hpair.width_eq.2
  rw [plan, hclass, ← hpair.quotient_eq, ← hpair.divisor_eq, ← hpair.dividend_eq]
  dsimp only
  rcases hpair.subtracts with hmnemonic | hmnemonic <;> rw [hmnemonic] <;> rfl

/-- The registers that the multiply-subtract reads after the division. -/
theorem read_divided (hkept : Operand.rd dividing.word ≠ zeroOrSp) (q : BitVec width.bits)
    (pc : Doubleword) :
    let divided := (regs.setGpr (Operand.rd dividing.word) (q.setWidth 64)).setPc pc
    divided.read width.bits (Operand.rd dividing.word) = q ∧
      divided.read width.bits (Operand.rn dividing.word) =
        regs.read width.bits (Operand.rn dividing.word) ∧
      divided.read width.bits (Operand.rm dividing.word) =
        regs.read width.bits (Operand.rm dividing.word) := by
  have hbound : Operand.rd dividing.word < 31 := by
    have hfield : Operand.rd dividing.word < 32 := BitVec.isLt _
    unfold zeroOrSp at hkept
    omega
  obtain ⟨hn, hm⟩ := hpair.quotient_ne
  exact ⟨regs.read_written pc hbound q, regs.read_written_of_ne pc hn _ _,
    regs.read_written_of_ne pc hm _ _⟩

end RemainderPair

/-- A division and a multiply-subtract leave quotient and remainder.  When the quotient goes to a
register that keeps it, both instructions retire, no operation of either lacks an answer, and what
they write is the quotient and the remainder of the numbers that the operands hold at the width. -/
theorem quotient_and_remainder {width : OperandWidth} {dividing subtracting : Instruction}
    (hpair : RemainderPair width dividing subtracting)
    (hkept : Operand.rd dividing.word ≠ zeroOrSp) (regs : RegisterFile) {memory after : UnitMemory}
    (hfetches : memory.Fetches regs.pc [dividing.word, subtracting.word] after) :
    let n := regs.read width.bits (Operand.rn dividing.word)
    let m := regs.read width.bits (Operand.rm dividing.word)
    ∃ q r : BitVec width.bits, dividing.mnemonic.Divides n m q r ∧
      let divided := (regs.setGpr (Operand.rd dividing.word) (q.setWidth 64)).setPc (regs.pc + 4)
      Checked.plan dividing regs = .ok (.result regs (Operand.rd dividing.word) q) ∧
      Checked.plan subtracting divided = .ok (.result divided (Operand.rd subtracting.word) r) ∧
      ∃ records, Machine.run (fun _ => false) 2 ⟨regs, memory⟩ = .ok (.limit, records,
        ⟨(divided.setGpr (Operand.rd subtracting.word) (r.setWidth 64)).setPc (regs.pc + 8),
          after⟩) := by
  intro n m
  let q := dividing.mnemonic.quotient n m
  refine ⟨q, n - q * m, Mnemonic.divides_quotient (Checked.bits_pos width) _ n m, ?_⟩
  intro divided
  have hdividing := hpair.plan_dividing regs
  have hsubtracting := hpair.plan_subtracting divided
  obtain ⟨hq, hn, hm⟩ := hpair.read_divided regs hkept q (regs.pc + 4)
  rw [hq, hn, hm] at hsubtracting
  have hcode : AdvancesAll [dividing.word, subtracting.word] regs _ :=
    .cons (.of_result hpair.decodes.1 hdividing)
      (.cons (.of_result hpair.decodes.2 hsubtracting) (.nil _))
  have hpc : regs.pc + 4 + 4 = regs.pc + 8 := BitVec.add_assoc _ _ _
  rw [← hpc]
  refine ⟨?_, ?_, Machine.run_of_advancesAll hcode hfetches⟩
  · rw [Checked.plan_eq, hdividing]
    rfl
  · rw [Checked.plan_eq, hsubtracting]
    rfl

/-- SDIV W3, W1, W2 and MSUB W4, W3, W2, W1 divide -7 by 2: the quotient is -3 and the remainder -1,
whatever the high halves hold. -/
theorem quotient_and_remainder_seven :
    ∃ (dividing subtracting : Instruction) (regs : RegisterFile) (memory after : UnitMemory),
      RemainderPair .w32 dividing subtracting ∧ Operand.rd dividing.word ≠ zeroOrSp ∧
      memory.Fetches regs.pc [dividing.word, subtracting.word] after ∧
      regs.gpr 1 = 0xFFFFFFF9 ∧ regs.gpr 2 = 0xFFFFFFFF00000002 ∧
      ∃ records, Machine.run (fun _ => false) 2 ⟨regs, memory⟩ = .ok (.limit, records,
        ⟨((regs.setGpr 3 0xFFFFFFFD).setGpr 4 0xFFFFFFFF).setPc 8, after⟩) := by
  let dividing : Instruction :=
    ⟨0x1AC20C23, .dataProcessingRegister, .dataProcessingTwoSource, .sdivW⟩
  let subtracting : Instruction :=
    ⟨0x1B028464, .dataProcessingRegister, .dataProcessingThreeSource, .msubW⟩
  have hdividing : decode 0x1AC20C23 = .ok dividing := rfl
  have hsubtracting : decode 0x1B028464 = .ok subtracting := rfl
  let regs : RegisterFile := (RegisterFile.setGpr {} 1 0xFFFFFFF9).setGpr 2 0xFFFFFFFF00000002
  let memory : UnitMemory :=
    { hierarchy := .ram { name := "RAM", words := #[0x1AC20C23, 0x1B028464] }
      stack := .zeroed "STACK" 4 }
  have hpair : RemainderPair .w32 dividing subtracting :=
    ⟨⟨hdividing, hsubtracting⟩, by decide, by decide, by decide, by decide, by decide, by decide,
      by decide⟩
  have hholds : memory.words.Holds regs.pc [dividing.word, subtracting.word] := by decide +kernel
  obtain ⟨after, hfetches⟩ := memory.exists_fetches trivial trivial hholds
  have hkept : Operand.rd dividing.word ≠ zeroOrSp := by decide
  obtain ⟨q, r, hdivides, -, -, records, hrun⟩ :=
    quotient_and_remainder hpair hkept regs hfetches
  have hn : regs.read OperandWidth.w32.bits (Operand.rn dividing.word) = (-7 : BitVec 32) := by
    decide +kernel
  have hm : regs.read OperandWidth.w32.bits (Operand.rm dividing.word) = (2 : BitVec 32) := by
    decide +kernel
  rw [hn, hm] at hdivides
  have hsigned : SignedDivision (-7 : BitVec 32) 2 q r := hdivides
  obtain ⟨hquotient, hsum, -, -⟩ := hsigned.proper (by decide) (by decide)
  have hq : q = 0xFFFFFFFD := BitVec.eq_of_toInt_eq (hquotient.trans (by decide))
  subst hq
  have hr : r = 0xFFFFFFFF := by
    apply BitVec.eq_of_toInt_eq
    have hdividend : (-7 : BitVec 32).toInt = -7 := by decide
    have hproduct : (0xFFFFFFFD : BitVec 32).toInt * (2 : BitVec 32).toInt = -6 := by decide
    have hrest : (0xFFFFFFFF : BitVec 32).toInt = -1 := by decide
    omega
  subst hr
  have hends {file expected : RegisterFile} (hfile : file = expected)
      (hrun : Machine.run (fun _ => false) 2 ⟨regs, memory⟩ =
        .ok (.limit, records, ⟨file, after⟩)) :
      Machine.run (fun _ => false) 2 ⟨regs, memory⟩ = .ok (.limit, records, ⟨expected, after⟩) :=
    hfile ▸ hrun
  exact ⟨dividing, subtracting, regs, memory, after, hpair, hkept, hfetches, by decide +kernel,
    by decide +kernel, records, hends (by decide +kernel) hrun⟩

/-- UDIV XZR, X1, X2 leaves no quotient for MSUB X0, XZR, X2, X1 to subtract: of 5 and 2 the dividend
is left, which is not a remainder. -/
theorem quotient_discarded :
    ∃ (dividing subtracting : Instruction) (regs final : RegisterFile)
      (memory after : UnitMemory) (records : List StepRecord),
      RemainderPair .w64 dividing subtracting ∧ dividing.mnemonic = .udivX ∧
      memory.Fetches regs.pc [dividing.word, subtracting.word] after ∧
      regs.read 64 (Operand.rn dividing.word) = 5 ∧ regs.read 64 (Operand.rm dividing.word) = 2 ∧
      Machine.run (fun _ => false) 2 ⟨regs, memory⟩ = .ok (.limit, records, ⟨final, after⟩) ∧
      final.read 64 (Operand.rd subtracting.word) = 5 ∧
      ∀ q : BitVec 64, ¬UnsignedDivision 5 2 q 5 := by
  let dividing : Instruction :=
    ⟨0x9AC2083F, .dataProcessingRegister, .dataProcessingTwoSource, .udivX⟩
  let subtracting : Instruction :=
    ⟨0x9B0287E0, .dataProcessingRegister, .dataProcessingThreeSource, .msubX⟩
  have hdividing : decode 0x9AC2083F = .ok dividing := rfl
  have hsubtracting : decode 0x9B0287E0 = .ok subtracting := rfl
  let regs : RegisterFile := (RegisterFile.setGpr {} 1 5).setGpr 2 2
  let memory : UnitMemory :=
    { hierarchy := .ram { name := "RAM", words := #[0x9AC2083F, 0x9B0287E0] }
      stack := .zeroed "STACK" 4 }
  have hpair : RemainderPair .w64 dividing subtracting :=
    ⟨⟨hdividing, hsubtracting⟩, by decide, by decide, by decide, by decide, by decide, by decide,
      by decide⟩
  have hholds : memory.words.Holds regs.pc [dividing.word, subtracting.word] := by decide +kernel
  obtain ⟨after, hfetches⟩ := memory.exists_fetches trivial trivial hholds
  have hcode : AdvancesAll [dividing.word, subtracting.word] regs _ :=
    .cons (.of_result hdividing (hpair.plan_dividing regs))
      (.cons (.of_result hsubtracting (hpair.plan_subtracting _)) (.nil _))
  obtain ⟨records, hrun⟩ := Machine.run_of_advancesAll hcode hfetches
  refine ⟨dividing, subtracting, regs, _, memory, after, records, hpair, rfl, hfetches,
    by decide +kernel, by decide +kernel, hrun, by decide +kernel, ?_⟩
  intro q hdivision
  have hless := (hdivision.proper (by decide)).2
  exact absurd hless (by decide)

end A64Machine
