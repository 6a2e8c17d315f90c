import Mathlib.Algebra.Group.Nat.Defs
import A64Machine.Proofs.BitString.Canonical

/-!
Bit strings compute with natural numbers.  A numeral is a width and a number below two to that
width; each operation on strings is an operation on numerals, and a sequence of operations on
strings, whichever of the two forms they come to be in on the way, ends with the strings that write
the numerals of the same sequence.
-/

namespace A64Machine

namespace BitString

theorem testBit_foldr (bits : List Bool) (i : Nat) :
    (bits.foldr (fun (bit : Bool) rest => 2 * rest + bit.toNat) 0).testBit i =
      bits.getD i false := by
  induction bits generalizing i with
  | nil => exact Nat.zero_testBit i
  | cons bit rest ih =>
    have hbit : bit.toNat < 2 := Bool.toNat_lt bit
    cases i with
    | zero =>
      rw [List.foldr_cons, Nat.testBit_zero, Nat.mul_add_mod, Nat.mod_eq_of_lt hbit]
      cases bit <;> rfl
    | succ i =>
      rw [List.foldr_cons, Nat.testBit_succ, List.getD_cons_succ, ← ih,
        Nat.mul_add_div Nat.two_pos, Nat.div_eq_of_lt hbit, Nat.add_zero]

/-- The number that a string writes has the bits of the string. -/
theorem testBit_value (b : BitString) (i : Nat) :
    b.value.testBit i = (decide (i < b.width) && b.bit i) := by
  rw [value, testBit_foldr, bits]
  by_cases hbelow : i < b.width
  · simp [hbelow]
  · simp [hbelow]

theorem value_lt (b : BitString) : b.value < 2 ^ b.width := by
  apply Nat.lt_pow_two_of_testBit
  intro i hpast
  rw [testBit_value, decide_eq_false (Nat.not_lt.2 hpast), Bool.false_and]

theorem Canonical.testBit_value {b : BitString} (hcanonical : b.Canonical) (i : Nat) :
    b.value.testBit i = b.bit i := by
  rw [BitString.testBit_value]
  by_cases hbelow : i < b.width
  · rw [decide_eq_true hbelow, Bool.true_and]
  · rw [hcanonical.clear i (Nat.le_of_not_lt hbelow), Bool.and_false]

end BitString

/-- A number with the width that it is written with. -/
structure Numeral where
  width : Nat
  value : Nat
  deriving Repr, DecidableEq

def Numeral.setTo (numeral : Numeral) (position : Nat) (value : Bool) : Numeral :=
  ⟨numeral.width, if value then numeral.value ||| 2 ^ position
    else (numeral.value ||| 2 ^ position) ^^^ 2 ^ position⟩

namespace BitString

/-- Whether a string is in its proper form and writes a numeral. -/
structure Writes (b : BitString) (numeral : Numeral) : Prop where
  canonical : b.Canonical
  width_eq : b.width = numeral.width
  value_eq : b.value = numeral.value

variable {b : BitString} {numeral : Numeral}

theorem Writes.bit_eq (hb : b.Writes numeral) (i : Nat) : b.bit i = numeral.value.testBit i := by
  rw [← hb.value_eq, hb.canonical.testBit_value]

theorem Writes.testBit_of_le (hb : b.Writes numeral) {i : Nat} (hpast : numeral.width ≤ i) :
    numeral.value.testBit i = false := by
  rw [← hb.bit_eq]
  exact hb.canonical.clear i (by rw [hb.width_eq]; exact hpast)

theorem Writes.below_and (hb : b.Writes numeral) (i : Nat) :
    (decide (i < numeral.width) && numeral.value.testBit i) = numeral.value.testBit i := by
  by_cases hbelow : i < numeral.width
  · rw [decide_eq_true hbelow, Bool.true_and]
  · rw [hb.testBit_of_le (Nat.le_of_not_lt hbelow), Bool.and_false]

theorem Writes.value_lt (hb : b.Writes numeral) : numeral.value < 2 ^ numeral.width := by
  rw [← hb.value_eq, ← hb.width_eq]
  exact b.value_lt

/-- A string with the bits of a number writes it. -/
theorem HasBits.writes {width value : Nat} {f : Nat → Bool} (hb : b.HasBits width f)
    (hvalue : ∀ i, value.testBit i = (decide (i < width) && f i)) : b.Writes ⟨width, value⟩ where
  canonical := hb.canonical
  width_eq := hb.width_eq
  value_eq := by
    apply Nat.eq_of_testBit_eq
    intro i
    rw [hb.canonical.testBit_value, hb.bit_eq, hvalue]

theorem zeros_writes (width : Nat) : (zeros width).Writes ⟨width, 0⟩ := by
  refine (hasBits_zeros width).writes fun i => ?_
  rw [Nat.zero_testBit, Bool.and_false]

theorem ofDoubleword_writes (width : Nat) (value : BitVec 64) :
    (ofDoubleword width value).Writes ⟨width, value.toNat % 2 ^ width⟩ := by
  refine (hasBits_ofDoubleword width value).writes fun i => ?_
  rw [Nat.testBit_mod_two_pow, BitVec.testBit_toNat]

theorem setTo_writes (hb : b.Writes numeral) {i : Nat} (hin : i < numeral.width) (value : Bool) :
    ∃ after, b.setTo i value = .ok after ∧ after.Writes (numeral.setTo i value) := by
  rw [← hb.width_eq] at hin
  obtain ⟨after, hafter, hbits⟩ := setTo_eq_ok hb.canonical hin value
  rw [hb.width_eq] at hbits hin
  refine ⟨after, hafter, hbits.writes fun k => ?_⟩
  by_cases hsame : k = i
  · subst hsame
    cases value <;> simp [hin]
  · rw [if_neg hsame, hb.bit_eq, hb.below_and]
    cases value <;> simp [Ne.symm hsame]

theorem flip_writes (hb : b.Writes numeral) {i : Nat} (hin : i < numeral.width) :
    ∃ after, b.flip i = .ok after ∧ after.Writes ⟨numeral.width, numeral.value ^^^ 2 ^ i⟩ := by
  rw [← hb.width_eq] at hin
  obtain ⟨after, hafter, hbits⟩ := flip_eq_ok hb.canonical hin
  rw [hb.width_eq] at hbits hin
  refine ⟨after, hafter, hbits.writes fun k => ?_⟩
  by_cases hsame : k = i
  · subst hsame
    simp [hin, hb.bit_eq]
  · rw [if_neg hsame, hb.bit_eq, hb.below_and]
    simp [Ne.symm hsame]

theorem setAll_writes (hb : b.Writes numeral) :
    b.setAll.Writes ⟨numeral.width, 2 ^ numeral.width - 1⟩ := by
  rw [← hb.width_eq]
  refine (hasBits_setAll b).writes fun i => ?_
  rw [Nat.testBit_two_pow_sub_one, Bool.and_true]

theorem resetAll_writes (hb : b.Writes numeral) : b.resetAll.Writes ⟨numeral.width, 0⟩ := by
  rw [← hb.width_eq]
  exact zeros_writes b.width

theorem not_writes (hb : b.Writes numeral) :
    b.not.Writes ⟨numeral.width, 2 ^ numeral.width - 1 - numeral.value⟩ := by
  have hbits := hasBits_not hb.canonical
  rw [hb.width_eq] at hbits
  refine hbits.writes fun i => ?_
  rw [hb.bit_eq, Nat.sub_sub, Nat.add_comm 1, Nat.testBit_two_pow_sub_succ hb.value_lt]

theorem resize_writes (hb : b.Writes numeral) (width : Nat) :
    (b.resize width).Writes ⟨width, numeral.value % 2 ^ width⟩ := by
  refine (hasBits_resize hb.canonical width).writes fun i => ?_
  rw [hb.bit_eq, Nat.testBit_mod_two_pow]

theorem concat_writes {high low : BitString} {upper lower : Numeral} (hhigh : high.Writes upper)
    (hlow : low.Writes lower) : (high.concat low).Writes
      ⟨upper.width + lower.width, upper.value * 2 ^ lower.width + lower.value⟩ := by
  have hbits := hasBits_concat hhigh.canonical hlow.canonical
  rw [hhigh.width_eq, hlow.width_eq] at hbits
  refine hbits.writes fun i => ?_
  rw [Nat.mul_comm, Nat.testBit_two_pow_mul_add _ hlow.value_lt, hhigh.bit_eq, hlow.bit_eq]
  split
  next hlower =>
    have hbelow : i < upper.width + lower.width := by omega
    rw [decide_eq_true hbelow, decide_eq_false (Nat.not_le.mpr hlower), Bool.false_and,
      Bool.false_or, Bool.true_and]
  next hupper =>
    have hinner : (i < upper.width + lower.width) = (i - lower.width < upper.width) := by
      rw [eq_iff_iff]
      omega
    rw [hlow.testBit_of_le (Nat.le_of_not_lt hupper), Bool.or_false,
      decide_eq_true (Nat.le_of_not_lt hupper), Bool.true_and]
    simp only [hinner]
    rw [hhigh.below_and]

theorem zipWith_writes {f : BitVec 64 → BitVec 64 → BitVec 64} {g : Bool → Bool → Bool}
    {op : Nat → Nat → Nat}
    (hwords : ∀ (x y : BitVec 64) (i : Nat), (f x y).getLsbD i = g (x.getLsbD i) (y.getLsbD i))
    (hvalues : ∀ x y i : Nat, (op x y).testBit i = g (x.testBit i) (y.testBit i))
    (hfalse : g false false = false) {a b : BitString} {left right : Numeral}
    (ha : a.Writes left) (hb : b.Writes right) :
    (zipWith f a b).Writes ⟨max left.width right.width, op left.value right.value⟩ := by
  have hbits := hasBits_zipWith hwords a b
  rw [ha.width_eq, hb.width_eq] at hbits
  refine hbits.writes fun i => ?_
  rw [hvalues, ha.bit_eq, hb.bit_eq]
  by_cases hbelow : i < max left.width right.width
  · rw [decide_eq_true hbelow, Bool.true_and]
  · rw [decide_eq_false hbelow, Bool.false_and, ha.testBit_of_le (by omega),
      hb.testBit_of_le (by omega), hfalse]

theorem shiftLeft_writes (hb : b.Writes numeral) (amount : Nat) :
    (b.shiftLeft amount).Writes
      ⟨numeral.width, numeral.value * 2 ^ amount % 2 ^ numeral.width⟩ := by
  have hbits := hasBits_shiftLeft hb.canonical amount
  rw [hb.width_eq] at hbits
  refine hbits.writes fun i => ?_
  rw [hb.bit_eq, Nat.testBit_mod_two_pow, Nat.testBit_mul_two_pow]

theorem shiftRight_writes (hb : b.Writes numeral) (amount : Nat) :
    (b.shiftRight amount).Writes ⟨numeral.width, numeral.value / 2 ^ amount⟩ := by
  have hbits := hasBits_shiftRight hb.canonical amount
  rw [hb.width_eq] at hbits
  refine hbits.writes fun i => ?_
  rw [hb.bit_eq, Nat.testBit_div_two_pow, Nat.add_comm]
  by_cases hbelow : i < numeral.width
  · rw [decide_eq_true hbelow, Bool.true_and]
  · rw [decide_eq_false hbelow, Bool.false_and, hb.testBit_of_le (by omega)]

end BitString

/-- An operation that fills one of a bank of slots.  One that works in place, such as inverting
every bit of a string or combining another string into it, names its slot as an operand too. -/
inductive BitStep where
  | zeros (slot width : Nat)
  | ofDoubleword (slot width : Nat) (value : BitVec 64)
  | set (slot position : Nat)
  | reset (slot position : Nat)
  | flip (slot position : Nat)
  | setTo (slot position : Nat) (value : Bool)
  | setAll (slot : Nat)
  | resetAll (slot : Nat)
  | not (slot operand : Nat)
  | resize (slot width : Nat)
  | concat (slot low : Nat)
  | and (slot left right : Nat)
  | or (slot left right : Nat)
  | xor (slot left right : Nat)
  | shiftLeft (slot operand amount : Nat)
  | shiftRight (slot operand amount : Nat)
  deriving Repr, DecidableEq

namespace BitStep

def slot : BitStep → Nat
  | .zeros slot _ | .ofDoubleword slot _ _ | .set slot _ | .reset slot _ | .flip slot _
  | .setTo slot _ _ | .setAll slot | .resetAll slot | .not slot _ | .resize slot _
  | .concat slot _ | .and slot _ _ | .or slot _ _ | .xor slot _ _ | .shiftLeft slot _ _
  | .shiftRight slot _ _ => slot

/-- The string that an operation puts into its slot. -/
def result (bank : Nat → BitString) : BitStep → Except BitStringError BitString
  | .zeros _ width => .ok (.zeros width)
  | .ofDoubleword _ width value => .ok (.ofDoubleword width value)
  | .set slot position => (bank slot).set position
  | .reset slot position => (bank slot).reset position
  | .flip slot position => (bank slot).flip position
  | .setTo slot position value => (bank slot).setTo position value
  | .setAll slot => .ok (bank slot).setAll
  | .resetAll slot => .ok (bank slot).resetAll
  | .not _ operand => .ok (bank operand).not
  | .resize slot width => .ok ((bank slot).resize width)
  | .concat slot low => .ok ((bank slot).concat (bank low))
  | .and _ left right => .ok ((bank left).and (bank right))
  | .or _ left right => .ok ((bank left).or (bank right))
  | .xor _ left right => .ok ((bank left).xor (bank right))
  | .shiftLeft _ operand amount => .ok ((bank operand).shiftLeft amount)
  | .shiftRight _ operand amount => .ok ((bank operand).shiftRight amount)

/-- The numeral that an operation puts into its slot. -/
def numeral (bank : Nat → Numeral) : BitStep → Numeral
  | .zeros _ width => ⟨width, 0⟩
  | .ofDoubleword _ width value => ⟨width, value.toNat % 2 ^ width⟩
  | .set slot position => (bank slot).setTo position true
  | .reset slot position => (bank slot).setTo position false
  | .flip slot position => ⟨(bank slot).width, (bank slot).value ^^^ 2 ^ position⟩
  | .setTo slot position value => (bank slot).setTo position value
  | .setAll slot => ⟨(bank slot).width, 2 ^ (bank slot).width - 1⟩
  | .resetAll slot => ⟨(bank slot).width, 0⟩
  | .not _ operand =>
    ⟨(bank operand).width, 2 ^ (bank operand).width - 1 - (bank operand).value⟩
  | .resize slot width => ⟨width, (bank slot).value % 2 ^ width⟩
  | .concat slot low =>
    ⟨(bank slot).width + (bank low).width,
      (bank slot).value * 2 ^ (bank low).width + (bank low).value⟩
  | .and _ left right =>
    ⟨max (bank left).width (bank right).width, (bank left).value &&& (bank right).value⟩
  | .or _ left right =>
    ⟨max (bank left).width (bank right).width, (bank left).value ||| (bank right).value⟩
  | .xor _ left right =>
    ⟨max (bank left).width (bank right).width, (bank left).value ^^^ (bank right).value⟩
  | .shiftLeft _ operand amount =>
    ⟨(bank operand).width, (bank operand).value * 2 ^ amount % 2 ^ (bank operand).width⟩
  | .shiftRight _ operand amount =>
    ⟨(bank operand).width, (bank operand).value / 2 ^ amount⟩

/-- Whether the bit that an operation names is below the width of its slot. -/
def InRange (bank : Nat → Numeral) : BitStep → Prop
  | .set slot position | .reset slot position | .flip slot position | .setTo slot position _ =>
    position < (bank slot).width
  | _ => True

instance (bank : Nat → Numeral) (step : BitStep) : Decidable (step.InRange bank) := by
  cases step <;> simp only [InRange] <;> infer_instance

/-- An operation inside the width of its slot succeeds, and its string writes its numeral. -/
theorem result_writes {strings : Nat → BitString} {numerals : Nat → Numeral}
    (hbank : ∀ slot, (strings slot).Writes (numerals slot)) {step : BitStep}
    (hin : step.InRange numerals) :
    ∃ after, step.result strings = .ok after ∧ after.Writes (step.numeral numerals) := by
  cases step with
  | zeros slot width => exact ⟨_, rfl, BitString.zeros_writes width⟩
  | ofDoubleword slot width value => exact ⟨_, rfl, BitString.ofDoubleword_writes width value⟩
  | set slot position => exact BitString.setTo_writes (hbank slot) hin true
  | reset slot position => exact BitString.setTo_writes (hbank slot) hin false
  | flip slot position => exact BitString.flip_writes (hbank slot) hin
  | setTo slot position value => exact BitString.setTo_writes (hbank slot) hin value
  | setAll slot => exact ⟨_, rfl, BitString.setAll_writes (hbank slot)⟩
  | resetAll slot => exact ⟨_, rfl, BitString.resetAll_writes (hbank slot)⟩
  | not slot operand => exact ⟨_, rfl, BitString.not_writes (hbank operand)⟩
  | resize slot width => exact ⟨_, rfl, BitString.resize_writes (hbank slot) width⟩
  | concat slot low => exact ⟨_, rfl, BitString.concat_writes (hbank slot) (hbank low)⟩
  | and slot left right =>
    exact ⟨_, rfl, BitString.zipWith_writes (fun _ _ _ => BitVec.getLsbD_and)
      (fun x y i => Nat.testBit_and x y i) rfl (hbank left) (hbank right)⟩
  | or slot left right =>
    exact ⟨_, rfl, BitString.zipWith_writes (fun _ _ _ => BitVec.getLsbD_or)
      (fun x y i => Nat.testBit_or x y i) rfl (hbank left) (hbank right)⟩
  | xor slot left right =>
    exact ⟨_, rfl, BitString.zipWith_writes (fun _ _ _ => BitVec.getLsbD_xor)
      (fun x y i => Nat.testBit_xor x y i) rfl (hbank left) (hbank right)⟩
  | shiftLeft slot operand amount =>
    exact ⟨_, rfl, BitString.shiftLeft_writes (hbank operand) amount⟩
  | shiftRight slot operand amount =>
    exact ⟨_, rfl, BitString.shiftRight_writes (hbank operand) amount⟩

def put {α : Type} (bank : Nat → α) (slot : Nat) (content : α) : Nat → α := fun place =>
  if place = slot then content else bank place

/-- Runs operations in order on a bank of strings. -/
def run : List BitStep → (Nat → BitString) → Except BitStringError (Nat → BitString)
  | [], strings => pure strings
  | step :: rest, strings => do
    let after ← step.result strings
    run rest (put strings step.slot after)

/-- The numerals after the same operations. -/
def numerals : List BitStep → (Nat → Numeral) → (Nat → Numeral)
  | [], bank => bank
  | step :: rest, bank => numerals rest (put bank step.slot (step.numeral bank))

/-- Whether each bit that is named is below the width that its slot has by then. -/
def AllInRange : List BitStep → (Nat → Numeral) → Prop
  | [], _ => True
  | step :: rest, bank =>
    step.InRange bank ∧ AllInRange rest (put bank step.slot (step.numeral bank))

instance decidableAllInRange (steps : List BitStep) (bank : Nat → Numeral) :
    Decidable (AllInRange steps bank) :=
  match steps with
  | [] => isTrue trivial
  | _ :: rest =>
    haveI := decidableAllInRange rest
    inferInstanceAs (Decidable (_ ∧ _))

theorem run_writes {strings : Nat → BitString} {bank : Nat → Numeral}
    (hbank : ∀ slot, (strings slot).Writes (bank slot)) (steps : List BitStep)
    (hin : AllInRange steps bank) :
    ∃ after, run steps strings = .ok after ∧
      ∀ slot, (after slot).Writes (numerals steps bank slot) := by
  -- That every slot writes its numeral is what one operation keeps and the next one needs.
  induction steps generalizing strings bank with
  | nil => exact ⟨strings, rfl, hbank⟩
  | cons step rest ih =>
    obtain ⟨content, hresult, hcontent⟩ := result_writes hbank hin.1
    have hput : ∀ slot, (put strings step.slot content slot).Writes
        (put bank step.slot (step.numeral bank) slot) := by
      intro slot
      unfold put
      split
      · exact hcontent
      · exact hbank slot
    obtain ⟨after, hrun, hafter⟩ := ih hput hin.2
    refine ⟨after, ?_, hafter⟩
    rw [run, hresult]
    exact hrun

/-- Operations on strings, from empty ones on, never fail on bits that the strings have, and every
string they lead to is in its proper form and has the width and the value of the numeral that the
same operations on numbers lead to. -/
theorem run_refines_numerals (steps : List BitStep) (hin : AllInRange steps fun _ => ⟨0, 0⟩) :
    ∃ after, run steps (fun _ => .zeros 0) = .ok after ∧ ∀ slot,
      (after slot).Canonical ∧
      (after slot).width = (numerals steps (fun _ => ⟨0, 0⟩) slot).width ∧
      (after slot).value = (numerals steps (fun _ => ⟨0, 0⟩) slot).value := by
  obtain ⟨after, hrun, hafter⟩ := run_writes (fun _ => BitString.zeros_writes 0) steps hin
  exact ⟨after, hrun, fun slot =>
    ⟨(hafter slot).canonical, (hafter slot).width_eq, (hafter slot).value_eq⟩⟩

/-- A string grows past one word and past two, is moved across the words and comes back to one. -/
theorem run_refines_numerals_across_words :
    let steps : List BitStep := [.ofDoubleword 0 60 0xabcdef012345678, .ofDoubleword 1 10 0x2ab,
      .concat 0 1, .set 0 69, .not 2 0, .concat 2 0, .shiftLeft 3 2 65, .shiftRight 4 3 128,
      .xor 4 4 1, .resize 2 33, .flip 2 32, .and 0 2 3]
    AllInRange steps (fun _ => ⟨0, 0⟩) ∧
      ∃ after, run steps (fun _ => .zeros 0) = .ok after ∧ ∀ slot,
        (after slot).Canonical ∧
        (after slot).width = (numerals steps (fun _ => ⟨0, 0⟩) slot).width ∧
        (after slot).value = (numerals steps (fun _ => ⟨0, 0⟩) slot).value :=
  ⟨by decide, run_refines_numerals _ (by decide)⟩

end BitStep

end A64Machine
