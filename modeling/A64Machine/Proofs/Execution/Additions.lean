import A64Machine.Proofs.Execution.CheckedArithmetic
import A64Machine.Proofs.Execution.Comparisons

/-!
Addition with carry.  The sum at the operand width is the exact sum without its carry out, and the
flags say how it differs from the exact sums without and with a sign.
-/

namespace A64Machine

section Sums

variable {w : Nat} (x y : BitVec w) (carry : Bool)

/-- The sum is the exact one modulo two to the width. -/
theorem toNat_carriedSum : (addWithCarry x y carry).1.toNat =
    (x.toNat + y.toNat + carry.toNat) % 2 ^ w := by
  simp only [addWithCarry]
  rw [BitVec.toNat_add, BitVec.toNat_add, BitVec.toNat_ofNat, Nat.mod_add_mod, Nat.add_mod_mod]

/-- The sum represents the exact signed sum if anything of the width does. -/
theorem carriedSum_eq_ofInt : (addWithCarry x y carry).1 =
    BitVec.ofInt w (x.toInt + y.toInt + carry.toNat) := by
  rw [BitVec.ofInt_add, BitVec.ofInt_add, BitVec.ofInt_toInt, BitVec.ofInt_toInt,
    BitVec.ofInt_natCast]
  rfl

/-- The numbers that a width represents are those that survive being written at it. -/
theorem toInt_ofInt_eq_iff (hw : 0 < w) (value : Int) :
    (BitVec.ofInt w value).toInt = value ↔ Representable w value := by
  constructor
  · intro hsame
    rw [← hsame]
    exact representable_toInt _
  · rintro ⟨hlow, hhigh⟩
    exact BitVec.toInt_ofInt_eq_self hw hlow hhigh

/-- The flags of an addition, as facts about the exact sums. -/
theorem flags_of_carriedSum (hw : 0 < w) : (addWithCarry x y carry).2 =
    { n := (addWithCarry x y carry).1.getLsbD (w - 1)
      z := decide ((addWithCarry x y carry).1 = 0)
      c := decide (2 ^ w ≤ x.toNat + y.toNat + carry.toNat)
      v := decide (¬Representable w (x.toInt + y.toInt + carry.toNat)) } := by
  -- The sum has the exact value exactly when that value is representable.
  have hexact := toInt_ofInt_eq_iff hw (x.toInt + y.toInt + carry.toNat)
  rw [← carriedSum_eq_ofInt, eq_comm] at hexact
  have hoverflow : decide (x.toInt + y.toInt + carry.toNat ≠ (addWithCarry x y carry).1.toInt) =
      decide (¬Representable w (x.toInt + y.toInt + carry.toNat)) :=
    decide_eq_decide.2 (not_congr hexact)
  rw [← BitVec.msb_eq_getLsbD_last, ← hoverflow]
  simp only [addWithCarry, BitVec.carry_width, ge_iff_le, ne_eq]
  rfl

end Sums

/-- Addition with carry is exact, and where it is computed step by step no sum, difference or shift
on the way passes its type.  The result is the exact sum modulo two to the width; N is its top bit,
Z says that it is zero, C that the exact sum passes the width, V that the exact signed sum is not
representable at the width.  A subtraction, which adds the complement and one, sets C when it needs
no borrow. -/
theorem addWithCarry_exact (x y : Doubleword) (carry : Bool) (width : OperandWidth) :
    let w := width.bits
    (∃ result flags, Checked.addWithCarry x y carry width = .ok (result, flags) ∧
      addWithCarry (x.setWidth w) (y.setWidth w) carry = (result.setWidth w, flags) ∧
      result.toNat = (x.toNat % 2 ^ w + y.toNat % 2 ^ w + carry.toNat) % 2 ^ w ∧
      flags.n = result.getLsbD (w - 1) ∧
      (flags.z = true ↔ result = 0) ∧
      (flags.c = true ↔ 2 ^ w ≤ x.toNat % 2 ^ w + y.toNat % 2 ^ w + carry.toNat) ∧
      (flags.v = true ↔
        ¬Representable w ((x.setWidth w).toInt + (y.setWidth w).toInt + carry.toNat))) ∧
    ∃ result flags, Checked.addWithCarry x (~~~y) true width = .ok (result, flags) ∧
      (flags.c = true ↔ y.toNat % 2 ^ w ≤ x.toNat % 2 ^ w) := by
  intro w
  have hw : w ≤ 64 := Checked.bits_le_64 width
  have hpos : 0 < w := Checked.bits_pos width
  have hflags := flags_of_carriedSum (x.setWidth w) (y.setWidth w) carry hpos
  refine ⟨⟨_, _, Checked.addWithCarry_eq x y carry width, ?_, ?_, ?_, ?_, ?_, ?_⟩,
    _, _, Checked.addWithCarry_eq x (~~~y) true width, ?_⟩
  case refine_1 =>
    rw [BitVec.setWidth_setWidth_of_le _ hw, BitVec.setWidth_eq]
  case refine_2 =>
    rw [BitVec.toNat_setWidth_of_le hw, toNat_carriedSum, BitVec.toNat_setWidth,
      BitVec.toNat_setWidth]
  case refine_3 =>
    have htop : w - 1 < 64 := by omega
    rw [hflags, BitVec.getLsbD_setWidth, decide_eq_true htop, Bool.true_and]
  case refine_4 =>
    rw [hflags, decide_eq_true_iff, ← beq_iff_eq, ← Checked.setWidth_beq_zero hw, beq_iff_eq]
  case refine_5 =>
    rw [hflags, decide_eq_true_iff, BitVec.toNat_setWidth, BitVec.toNat_setWidth]
  case refine_6 =>
    rw [hflags, decide_eq_true_iff]
  case refine_7 =>
    have hcomplement : (~~~y).setWidth w = ~~~(y.setWidth w) := BitVec.setWidth_not hw
    rw [hcomplement, addWithCarry, carry_not, decide_eq_true_iff, BitVec.toNat_setWidth,
      BitVec.toNat_setWidth]

end A64Machine
