import Mathlib.Algebra.Group.Int.Defs
import Mathlib.Algebra.Group.Nat.Defs
import A64Machine.Proofs.Execution.Retirement
import A64Machine.Proofs.Execution.StepFrame

/-!
Comparisons.  A subtraction that sets the flags compares its operands: a conditional branch or select
that reads those flags decides the relation of the two numbers that its condition names.
-/

namespace A64Machine

/-- Whether a number has a two's-complement representation of a width. -/
def Representable (w : Nat) (value : Int) : Prop :=
  -2 ^ (w - 1) ≤ value ∧ value < 2 ^ (w - 1)

instance (w : Nat) (value : Int) : Decidable (Representable w value) :=
  inferInstanceAs (Decidable (_ ∧ _))

/-- What a condition says about two numbers of a width when they are compared. -/
def Condition.Compares {w : Nat} (condition : Condition) (x y : BitVec w) : Prop :=
  match condition with
  | .eq => x = y
  | .ne => x ≠ y
  | .cs => y.toNat ≤ x.toNat
  | .cc => x.toNat < y.toNat
  | .mi => (x - y).msb = true
  | .pl => (x - y).msb = false
  | .vs => ¬ Representable w (x.toInt - y.toInt)
  | .vc => Representable w (x.toInt - y.toInt)
  | .hi => y.toNat < x.toNat
  | .ls => x.toNat ≤ y.toNat
  | .ge => y.toInt ≤ x.toInt
  | .lt => x.toInt < y.toInt
  | .gt => y.toInt < x.toInt
  | .le => x.toInt ≤ y.toInt
  | .al | .nv => True

instance {w : Nat} (condition : Condition) (x y : BitVec w) :
    Decidable (condition.Compares x y) :=
  match condition with
  | .eq => inferInstanceAs (Decidable (x = y))
  | .ne => inferInstanceAs (Decidable (x ≠ y))
  | .cs => inferInstanceAs (Decidable (y.toNat ≤ x.toNat))
  | .cc => inferInstanceAs (Decidable (x.toNat < y.toNat))
  | .mi => inferInstanceAs (Decidable ((x - y).msb = true))
  | .pl => inferInstanceAs (Decidable ((x - y).msb = false))
  | .vs => inferInstanceAs (Decidable (¬ Representable w (x.toInt - y.toInt)))
  | .vc => inferInstanceAs (Decidable (Representable w (x.toInt - y.toInt)))
  | .hi => inferInstanceAs (Decidable (y.toNat < x.toNat))
  | .ls => inferInstanceAs (Decidable (x.toNat ≤ y.toNat))
  | .ge => inferInstanceAs (Decidable (y.toInt ≤ x.toInt))
  | .lt => inferInstanceAs (Decidable (x.toInt < y.toInt))
  | .gt => inferInstanceAs (Decidable (y.toInt < x.toInt))
  | .le => inferInstanceAs (Decidable (x.toInt ≤ y.toInt))
  | .al | .nv => inferInstanceAs (Decidable True)

section Difference

variable {w : Nat} (x y : BitVec w)

theorem representable_toInt : Representable w x.toInt :=
  ⟨BitVec.le_toInt x, BitVec.toInt_lt⟩

/-- A difference is the sum with the complement and one more. -/
theorem add_not_add_one : x + ~~~y + 1#w = x - y := by
  rw [BitVec.sub_eq_add_neg, BitVec.neg_eq_not_add, BitVec.add_assoc]

theorem sub_beq_zero : (x - y == 0) = decide (x = y) := by
  rw [Bool.eq_iff_iff, beq_iff_eq, decide_eq_true_iff]
  constructor
  · intro hzero
    rw [← BitVec.sub_add_cancel x y, hzero]
    exact BitVec.zero_add y
  · rintro rfl
    exact BitVec.sub_self x

theorem carry_not : BitVec.carry w x (~~~y) true = decide (y.toNat ≤ x.toNat) := by
  have hless := BitVec.ult_eq_not_carry x y
  rw [BitVec.ult_eq_decide] at hless
  rw [← Bool.not_not (BitVec.carry w x (~~~y) true), ← hless, ← decide_not]
  exact decide_eq_decide.2 Nat.not_lt

variable {x y} (hw : 0 < w)

include hw

theorem toInt_not : (~~~y).toInt = -1 - y.toInt := by
  have hlt := y.isLt
  rw [BitVec.toInt_eq_msb_cond, BitVec.toInt_eq_msb_cond, BitVec.msb_not, BitVec.toNat_not]
  generalize 2 ^ w = modulus at hlt
  cases y.msb <;> simp [hw] <;> omega

/-- A difference wraps around once when it is not representable, and changes its sign. -/
theorem toInt_sub_cases :
    (Representable w (x.toInt - y.toInt) ∧ (x - y).toInt = x.toInt - y.toInt) ∨
    (2 ^ (w - 1) ≤ x.toInt - y.toInt ∧ (x - y).toInt < 0) ∨
    (x.toInt - y.toInt < -2 ^ (w - 1) ∧ 0 ≤ (x - y).toInt) := by
  have hdouble : 2 ^ w = 2 * 2 ^ (w - 1) := by
    rw [← Nat.pow_succ', Nat.succ_eq_add_one, Nat.sub_add_cancel hw]
  have hhalf : ((2 ^ (w - 1) : Nat) : Int) = 2 ^ (w - 1) := Int.natCast_pow 2 (w - 1)
  have hx := representable_toInt x
  have hy := representable_toInt y
  -- the wrapped difference is the one representable number that is congruent to the exact one
  have hwrap {wrapped : Int} (hwrapped : Representable w wrapped)
      (hdvd : ((2 ^ w : Nat) : Int) ∣ wrapped - (x.toInt - y.toInt)) :
      (x - y).toInt = wrapped := by
    unfold Representable at hwrapped
    rw [BitVec.toInt_sub, Int.bmod_eq_iff (Nat.two_pow_pos w)]
    exact ⟨by omega, by omega, hdvd⟩
  unfold Representable at *
  by_cases hlow : x.toInt - y.toInt < -2 ^ (w - 1)
  · have hsum : (x - y).toInt = x.toInt - y.toInt + (2 ^ w : Nat) :=
      hwrap (by omega) ⟨1, by omega⟩
    exact .inr (.inr ⟨hlow, by omega⟩)
  by_cases hhigh : 2 ^ (w - 1) ≤ x.toInt - y.toInt
  · have hdifference : (x - y).toInt = x.toInt - y.toInt - (2 ^ w : Nat) :=
      hwrap (by omega) ⟨-1, by omega⟩
    exact .inr (.inl ⟨hhigh, by omega⟩)
  · exact .inl ⟨by omega, hwrap (by omega) ⟨0, by omega⟩⟩

/-- The flags of a comparison. -/
theorem flags_of_subtract : (addOrSubtract true x y).2 =
    { n := decide ((x - y).toInt < 0)
      z := decide (x = y)
      c := decide (y.toNat ≤ x.toNat)
      v := decide (¬ Representable w (x.toInt - y.toInt)) } := by
  have hoverflow : x.toInt + (~~~y).toInt + (true.toNat : Nat) ≠ (x - y).toInt ↔
      ¬ Representable w (x.toInt - y.toInt) := by
    have hcases := toInt_sub_cases hw (x := x) (y := y)
    have hnot := toInt_not hw (y := y)
    have hrange := representable_toInt (x - y)
    unfold Representable at *
    rw [Bool.toNat_true]
    omega
  have hvalue : x + ~~~y + BitVec.ofNat w true.toNat = x - y := add_not_add_one x y
  simp only [addOrSubtract, if_true, addWithCarry, hvalue, sub_beq_zero, carry_not,
    BitVec.msb_eq_toInt, hoverflow]

/-- The sign of the difference is wrong exactly when the difference is not representable. -/
theorem sign_beq_overflow :
    (decide ((x - y).toInt < 0) == decide (¬ Representable w (x.toInt - y.toInt))) =
      decide (y.toInt ≤ x.toInt) := by
  have hpos : (0 : Int) < 2 ^ (w - 1) := Int.pow_pos (by decide)
  have hcases := toInt_sub_cases hw (x := x) (y := y)
  rw [Bool.eq_iff_iff, beq_iff_eq, decide_eq_decide, decide_eq_true_iff]
  unfold Representable at *
  omega

/-- After a comparison a condition holds exactly when the numbers are in its relation. -/
theorem holds_subtract_iff (condition : Condition) :
    condition.holds (addOrSubtract true x y).2 = true ↔ condition.Compares x y := by
  have hunsigned : x = y ↔ x.toNat = y.toNat := BitVec.toNat_inj.symm
  have hsigned : x = y ↔ x.toInt = y.toInt := BitVec.toInt_inj.symm
  rw [flags_of_subtract hw]
  cases condition with
  | mi | pl =>
    simp only [Condition.holds, Condition.Compares, BitVec.msb_eq_toInt, Bool.not_eq_true']
  | hi | ls =>
    simp only [Condition.holds, Condition.Compares, Bool.not_eq_true', Bool.and_eq_true,
      Bool.and_eq_false_iff, Bool.not_eq_false', decide_eq_true_iff, decide_eq_false_iff_not,
      hunsigned]
    omega
  | ge => simp only [Condition.holds, Condition.Compares, sign_beq_overflow hw, decide_eq_true_iff]
  | lt | gt | le =>
    simp only [Condition.holds, Condition.Compares, bne, sign_beq_overflow hw, Bool.not_eq_true',
      Bool.and_eq_true, Bool.and_eq_false_iff, Bool.not_eq_false', decide_eq_true_iff,
      decide_eq_false_iff_not, hsigned]
    omega
  | _ => simp [Condition.holds, Condition.Compares]

end Difference

/-- The mnemonics of subtractions that set the flags. -/
def Mnemonic.comparisons : List Mnemonic :=
  [.subsImmW, .subsImmX, .subsW, .subsX]

/-- The numbers that a subtraction compares, at its operand width: a register or the stack pointer and
an immediate, which may be shifted by twelve, or a register and a shifted one. -/
def comparedOperands (word : Word) (mnemonic : Mnemonic) (regs : RegisterFile) :
    BitVec (Operand.width word).bits × BitVec (Operand.width word).bits :=
  let w := (Operand.width word).bits
  match mnemonic with
  | .subsImmW | .subsImmX =>
    let imm12 : BitVec w := (InstructionField.imm12.extract word).setWidth w
    ((regs.gprOrSp (Operand.rn word)).setWidth w,
      if InstructionField.sh.extract word = 1 then imm12 <<< 12 else imm12)
  | _ =>
    let kind := ShiftKind.ofBits (InstructionField.shift.extract word).toNat
    let amount := (InstructionField.imm6.extract word).toNat
    (regs.read w (Operand.rn word), kind.apply (regs.read w (Operand.rm word)) amount)

/-- Whether the relation that a condition names holds of the operands of a comparison. -/
def Condition.Decides (condition : Condition) (word : Word) (mnemonic : Mnemonic)
    (regs : RegisterFile) : Prop :=
  condition.Compares (comparedOperands word mnemonic regs).1 (comparedOperands word mnemonic regs).2

instance (condition : Condition) (word : Word) (mnemonic : Mnemonic) (regs : RegisterFile) :
    Decidable (condition.Decides word mnemonic regs) :=
  inferInstanceAs (Decidable (condition.Compares _ _))

/-- The classes of the mnemonics that compare and of those that read the flags. -/
theorem class_of_comparison {word : Word} {instruction : Instruction}
    (hdecode : decode word = .ok instruction) :
    let mnemonic := instruction.mnemonic
    (mnemonic = .subsImmW ∨ mnemonic = .subsImmX → instruction.cls = .addSubtractImmediate) ∧
    (mnemonic = .subsW ∨ mnemonic = .subsX → instruction.cls = .addSubtractShiftedRegister) ∧
    (mnemonic = .bCond → instruction.cls = .conditionalBranch) ∧
    (mnemonic = .cselW ∨ mnemonic = .cselX → instruction.cls = .conditionalSelect) :=
  forall_rows_of_decode (p := fun cls mnemonic =>
    (mnemonic = .subsImmW ∨ mnemonic = .subsImmX → cls = .addSubtractImmediate) ∧
    (mnemonic = .subsW ∨ mnemonic = .subsX → cls = .addSubtractShiftedRegister) ∧
    (mnemonic = .bCond → cls = .conditionalBranch) ∧
    (mnemonic = .cselW ∨ mnemonic = .cselX → cls = .conditionalSelect)) (by decide +kernel) hdecode

theorem shiftedOperand_eq_ok {word : Word} {w : Nat} {regs : RegisterFile} {mayRotate : Bool}
    {operand : BitVec w} (hok : shiftedOperand word w regs mayRotate = .ok operand) :
    operand = (ShiftKind.ofBits (InstructionField.shift.extract word).toNat).apply
      (regs.read w (Operand.rm word)) (InstructionField.imm6.extract word).toNat := by
  unfold shiftedOperand at hok
  extract_lets kind amount at hok
  split at hok
  · contradiction
  · exact (Except.ok.inj hok).symm

/-- The plan of a comparison leaves the flags of its operands. -/
theorem flags_of_comparison {word : Word} {instruction : Instruction} {regs : RegisterFile}
    {made : Plan} (hdecode : decode word = .ok instruction)
    (hcompares : instruction.mnemonic ∈ Mnemonic.comparisons)
    (hplan : plan instruction regs = .ok made) :
    made.effects.flags =
      some (addOrSubtract true (comparedOperands word instruction.mnemonic regs).1
        (comparedOperands word instruction.mnemonic regs).2).2 := by
  obtain ⟨himmediate, hshifted, -, -⟩ := class_of_comparison hdecode
  obtain rfl := (decode_eq_ok hdecode).1
  rcases instruction with ⟨word, group, cls, mnemonic⟩
  simp only [Mnemonic.comparisons, List.mem_cons, List.not_mem_nil, or_false] at *
  rcases hcompares with hmnemonic | hmnemonic | hmnemonic | hmnemonic
  case inl | inr.inl =>
    subst hmnemonic
    obtain rfl := himmediate (by simp)
    obtain rfl := Except.ok.inj hplan
    rfl
  all_goals
    subst hmnemonic
    obtain rfl := hshifted (by simp)
    obtain ⟨operand, hoperand, hresult⟩ := bind_eq_ok hplan
    obtain rfl := Except.ok.inj hresult
    obtain rfl := shiftedOperand_eq_ok hoperand
    rfl

/-- A condition that is looked at after a comparison decides the relation that it names. -/
theorem holds_of_comparison {regs regs' : RegisterFile} {memory after : UnitMemory}
    {pc : Doubleword} {word : Word} {group : InstructionGroup} {mnemonic : Mnemonic}
    (hcompare : step regs memory = .ok (.retired pc word group mnemonic, regs', after))
    (hcompares : mnemonic ∈ Mnemonic.comparisons) (condition : Condition) :
    condition.holds regs'.nzcv = decide (condition.Decides word mnemonic regs) := by
  obtain ⟨instruction, made, loaded, hdecode, rfl, hplan, rfl⟩ := retired_of_step hcompare
  have hpos : 0 < (Operand.width word).bits := by
    cases Operand.width word <;> decide
  rw [Effects.applyTo_eq, flags_of_comparison hdecode hcompares hplan, Bool.eq_iff_iff,
    decide_eq_true_iff]
  exact holds_subtract_iff hpos condition

/-- Compare and branch.  As long as the flags of a comparison are kept, a conditional branch is taken,
and a conditional select picks its first source, exactly when the relation that the condition names
holds of the compared operands. -/
theorem branch_of_comparison {regs regs' : RegisterFile} {memory after : UnitMemory}
    {pc : Doubleword} {word : Word} {group : InstructionGroup} {mnemonic : Mnemonic}
    (hcompare : step regs memory = .ok (.retired pc word group mnemonic, regs', after))
    (hcompares : mnemonic ∈ Mnemonic.comparisons) {later : RegisterFile}
    (hflags : later.nzcv = regs'.nzcv) {current fetched : UnitMemory} {next : Word}
    (hfetch : current.fetch later.pc = .ok (.ok next, fetched)) {instruction : Instruction}
    (hdecode : decode next = .ok instruction) :
    (instruction.mnemonic = .bCond →
      step later current = .ok (.retired later.pc next instruction.group instruction.mnemonic,
        later.setPc (if (Condition.ofBits (next.extractLsb' 0 4).toNat).Decides word mnemonic regs
          then target19 next later else later.pc + 4), fetched)) ∧
    (instruction.mnemonic = .cselW ∨ instruction.mnemonic = .cselX →
      let w := (Operand.width next).bits
      let selected : BitVec w :=
        if (Condition.ofBits (next.extractLsb' 12 4).toNat).Decides word mnemonic regs
        then later.read w (Operand.rn next) else later.read w (Operand.rm next)
      step later current = .ok (.retired later.pc next instruction.group instruction.mnemonic,
        (later.setGpr (Operand.rd next) (selected.setWidth 64)).setPc (later.pc + 4), fetched)) := by
  have hholds (condition : Condition) : condition.holds later.nzcv =
      decide (condition.Decides word mnemonic regs) := by
    rw [hflags]
    exact holds_of_comparison hcompare hcompares condition
  obtain ⟨-, -, hbranch, hselect⟩ := class_of_comparison hdecode
  obtain ⟨rfl, -⟩ := decode_eq_ok hdecode
  rcases instruction with ⟨next, group', cls, mnemonic'⟩
  refine ⟨?_, ?_⟩
  · rintro rfl
    obtain rfl := hbranch rfl
    rw [step_of_plan hfetch hdecode rfl (Plan.accesses_branch _ _), Plan.applyTo_branch, hholds]
    simp only [decide_eq_true_iff]
    rfl
  · intro hselects w selected
    obtain rfl := hselect hselects
    have hplan : plan ⟨next, group', .conditionalSelect, mnemonic'⟩ later =
        .ok (.result later (Operand.rd next) selected) := by
      simp only [plan, planConditionalSelect, hholds, decide_eq_true_iff, selected]
      rcases hselects with rfl | rfl <;> rfl
    rw [step_of_plan hfetch hdecode hplan rfl, Plan.applyTo_result]

/-- CMP W0, W1 of the least 32-bit number with one: the difference is not representable, and still
B.LT is taken and CSEL X2, X0, X1, LT picks X0. -/
theorem branch_of_comparison_least :
    ∃ regs regs' : RegisterFile, ∃ memory after selecting : UnitMemory,
      regs.gpr 0 = 0x80000000 ∧ regs.gpr 1 = 1 ∧
      step regs memory =
        .ok (.retired 0 0x6B01001F .dataProcessingRegister .subsW, regs', after) ∧
      regs'.nzcv.n = false ∧
      (∃ fetched, step regs' after =
        .ok (.retired 4 0x5400004B .branchExceptionSystem .bCond, regs'.setPc 12, fetched)) ∧
      (∃ fetched, step regs' selecting =
        .ok (.retired 4 0x9A81B002 .dataProcessingRegister .cselX,
          (regs'.setGpr 2 0x80000000).setPc 8, fetched)) := by
  let regs : RegisterFile := (RegisterFile.setGpr {} 0 0x80000000).setGpr 1 1
  let regs' : RegisterFile := { regs with pc := 4, nzcv := { c := true, v := true } }
  let branching : Ram := { name := "RAM", words := #[0x6B01001F, 0x5400004B] }
  let memory : UnitMemory := { hierarchy := .ram branching, stack := .zeroed "STACK" 4 }
  let choosing : Ram := { name := "RAM", words := #[0x6B01001F, 0x9A81B002] }
  let selecting : UnitMemory := { hierarchy := .ram choosing, stack := .zeroed "STACK" 4 }
  have hrun : (step regs memory).toOption.map (fun ended =>
      (ended.1, ended.2.1, (ended.2.2.fetch 4).toOption.map (·.1.toOption))) =
        some (.retired 0 0x6B01001F .dataProcessingRegister .subsW, regs',
          some (some 0x5400004B)) := by
    decide +kernel
  have hchosen : (selecting.fetch 4).toOption.map (·.1.toOption) = some (some 0x9A81B002) := by
    decide +kernel
  obtain ⟨⟨outcome, ended, after⟩, hsome, hends⟩ := Option.map_eq_some_iff.1 hrun
  obtain ⟨rfl, hends⟩ := Prod.mk.inj hends
  obtain ⟨rfl, hnext⟩ := Prod.mk.inj hends
  have hcompare := eq_ok_of_toOption hsome
  obtain ⟨branched, hbranch⟩ := exists_of_answer hnext
  obtain ⟨selected, hselect⟩ := exists_of_answer hchosen
  have hcompares : Mnemonic.subsW ∈ Mnemonic.comparisons := by decide
  have hflags : regs'.nzcv = regs'.nzcv := rfl
  have hless : decode 0x5400004B =
      .ok ⟨0x5400004B, .branchExceptionSystem, .conditionalBranch, .bCond⟩ := rfl
  have hselects : decode 0x9A81B002 =
      .ok ⟨0x9A81B002, .dataProcessingRegister, .conditionalSelect, .cselX⟩ := rfl
  have hbranched := (branch_of_comparison hcompare hcompares hflags hbranch hless).1 rfl
  have hselected := (branch_of_comparison hcompare hcompares hflags hselect hselects).2 (.inr rfl)
  exact ⟨regs, regs', memory, after, selecting, by decide +kernel, by decide +kernel, hcompare, rfl,
    ⟨branched, hbranched⟩, ⟨selected, hselected⟩⟩

end A64Machine
