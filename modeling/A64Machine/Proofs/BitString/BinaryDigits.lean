import A64Machine.Proofs.BitString.Contents
import A64Machine.Proofs.BitString.Reachable

/-!
The text of a bit string.  A text is read from its last character on, and the first one that is no
digit on that way is refused.  Reading and writing are inverse to each other: a string is read back
from its text, and a text of digits is what the string read from it is displayed as.
-/

namespace A64Machine

namespace BitString

def IsBinaryDigit (c : Char) : Prop :=
  c = '0' ∨ c = '1'

instance : DecidablePred IsBinaryDigit := fun c =>
  inferInstanceAs (Decidable (c = '0' ∨ c = '1'))

/-- The digit that a bit is displayed as. -/
def digitOf (bit : Bool) : Char :=
  if bit then '1' else '0'

theorem isBinaryDigit_digitOf (bit : Bool) : IsBinaryDigit (digitOf bit) := by
  cases bit <;> decide

theorem digitOf_beq_one (bit : Bool) : (digitOf bit == '1') = bit := by
  cases bit <;> rfl

theorem digitOf_of_isBinaryDigit {c : Char} (hc : IsBinaryDigit c) : digitOf (c == '1') = c := by
  rcases hc with rfl | rfl <;> rfl

section Reading

variable {b : BitString}

/-- One digit is written into the bit that the reading is at. -/
theorem readDigits_cons (hb : b.Canonical) {i : Nat} (hin : i < b.width)
    (hclear : b.bit i = false) {c : Char} (hc : IsBinaryDigit c) :
    ∃ next, (∀ rest, readDigits (c :: rest) i b = readDigits rest (i + 1) next) ∧
      next.HasBits b.width fun k => if k = i then c == '1' else b.bit k := by
  rcases hc with rfl | rfl
  case inl =>
    refine ⟨b, fun _ => rfl, hb.hasBits.congr fun k _ => ?_⟩
    split
    next hplace => rw [hplace, hclear]; rfl
    next => rfl
  case inr =>
    obtain ⟨next, hset, hbits⟩ := setTo_eq_ok hb hin true
    refine ⟨next, fun rest => ?_, hbits⟩
    have hwritten : b.set i = .ok next := hset
    rw [readDigits, if_neg (by decide), if_pos rfl, hwritten]
    rfl

/-- Digits are written into the bits from the place of the reading on, which are clear before. -/
theorem readDigits_append (digits : List Char) (i : Nat)
    (hdigits : ∀ c ∈ digits, IsBinaryDigit c) (hb : b.Canonical)
    (hroom : i + digits.length ≤ b.width) (hclear : ∀ k, i ≤ k → b.bit k = false) :
    ∃ next,
      (∀ rest, readDigits (digits ++ rest) i b = readDigits rest (i + digits.length) next) ∧
      next.HasBits b.width fun k =>
        if k < i then b.bit k else digits.getD (k - i) '0' == '1' := by
  -- The bits from the place on stay clear until their digit comes, which is what the next step needs.
  induction digits generalizing i b with
  | nil =>
    refine ⟨b, fun _ => rfl, hb.hasBits.congr fun k _ => ?_⟩
    split
    next => rfl
    next hfrom => rw [hclear k (Nat.le_of_not_lt hfrom)]; rfl
  | cons c others ih =>
    rw [List.length_cons] at hroom ⊢
    obtain ⟨written, hread, hwritten⟩ :=
      readDigits_cons hb (by omega) (hclear i (Nat.le_refl i)) (hdigits c List.mem_cons_self)
    have hrest : ∀ k, i + 1 ≤ k → written.bit k = false := by
      intro k hk
      rw [hwritten.bit_eq, if_neg (by omega), hclear k (by omega), Bool.and_false]
    have hplaces : i + 1 + others.length ≤ written.width := by
      rw [hwritten.width_eq]
      omega
    obtain ⟨next, hothers, hbits⟩ := ih (i + 1)
      (fun d hd => hdigits d (List.mem_cons_of_mem c hd)) hwritten.canonical hplaces hrest
    rw [hwritten.width_eq] at hbits
    refine ⟨next, fun rest => ?_, hbits.congr fun k hk => ?_⟩
    · rw [List.cons_append, hread, hothers, Nat.add_assoc, Nat.add_comm 1]
    · rw [hwritten.bit_eq, decide_eq_true hk, Bool.true_and]
      by_cases hbefore : k < i
      · rw [if_pos (by omega), if_neg (by omega), if_pos hbefore]
      by_cases hhere : k = i
      · rw [if_pos (by omega), if_pos hhere, if_neg hbefore, hhere, Nat.sub_self]
        rfl
      · have hplace : k - i = k - (i + 1) + 1 := by omega
        rw [if_neg (by omega), if_neg hbefore, hplace, List.getD_cons_succ]

/-- The digits of a whole reading are the bits from the lowest one on. -/
theorem readDigits_zeros (digits : List Char) {width : Nat} (hroom : digits.length ≤ width)
    (hdigits : ∀ c ∈ digits, IsBinaryDigit c) :
    ∃ next,
      (∀ rest, readDigits (digits ++ rest) 0 (zeros width) =
        readDigits rest digits.length next) ∧
      next.HasBits width fun k => digits.getD k '0' == '1' := by
  have hempty := hasBits_zeros width
  have hplaces : 0 + digits.length ≤ (zeros width).width := by
    rw [hempty.width_eq, Nat.zero_add]
    exact hroom
  obtain ⟨next, hread, hbits⟩ := readDigits_append digits 0 hdigits hempty.canonical hplaces
    fun k _ => by rw [hempty.bit_eq, Bool.and_false]
  rw [hempty.width_eq] at hbits
  rw [Nat.zero_add] at hread
  refine ⟨next, hread, hbits.congr fun k _ => ?_⟩
  rw [if_neg (Nat.not_lt_zero k), Nat.sub_zero]

end Reading

section Texts

variable {b : BitString} {digits : String}

/-- A text of digits is read, and its last digit is the lowest bit. -/
theorem parse_eq_ok (hdigits : ∀ c ∈ digits.toList, IsBinaryDigit c) :
    ∃ b, parse digits = .ok b ∧ b.Canonical ∧ b.bits = digits.toList.reverse.map (· == '1') := by
  have hroom : digits.toList.reverse.length ≤ digits.toList.length :=
    Nat.le_of_eq List.length_reverse
  obtain ⟨b, hread, hbits⟩ := readDigits_zeros digits.toList.reverse hroom
    fun c hc => hdigits c (List.mem_reverse.1 hc)
  refine ⟨b, ?_, hbits.canonical, ?_⟩
  · rw [parse, ← List.append_nil digits.toList.reverse, hread, readDigits]
  · rw [hbits.bits_eq]
    apply List.ext_getElem
    · rw [List.length_map, List.length_range, List.length_map, List.length_reverse]
    · intro k _ hk
      rw [List.length_map] at hk
      rw [List.getElem_map, List.getElem_range, List.getElem_map, List.getD_eq_getElem _ _ hk]

/-- A text is refused for the last of its characters that is no digit. -/
theorem parse_eq_error {before after : List Char} {c : Char}
    (hsplit : digits.toList = before ++ c :: after) (hc : ¬IsBinaryDigit c)
    (hafter : ∀ d ∈ after, IsBinaryDigit d) : parse digits = .error (.invalidDigit c) := by
  have hroom : after.reverse.length ≤ digits.toList.length := by
    rw [List.length_reverse, hsplit, List.length_append, List.length_cons]
    omega
  obtain ⟨b, hread, -⟩ := readDigits_zeros after.reverse hroom
    fun d hd => hafter d (List.mem_reverse.1 hd)
  have hreverse : digits.toList.reverse = after.reverse ++ c :: before.reverse := by
    rw [hsplit, List.reverse_append, List.reverse_cons, List.append_assoc, List.singleton_append]
  rw [parse, hreverse, hread, readDigits, if_neg (fun hzero => hc (.inl hzero)),
    if_neg (fun hone => hc (.inr hone))]

/-- A text has digits alone, or a last character that is none. -/
theorem all_isBinaryDigit_or_exists_last (text : List Char) :
    (∀ c ∈ text, IsBinaryDigit c) ∨
      ∃ before c after, text = before ++ c :: after ∧ ¬IsBinaryDigit c ∧
        ∀ d ∈ after, IsBinaryDigit d := by
  induction text with
  | nil => exact .inl nofun
  | cons first rest ih =>
    rcases ih with hdigits | ⟨before, c, after, rfl, hc, hafter⟩
    · by_cases hfirst : IsBinaryDigit first
      · exact .inl (List.forall_mem_cons.2 ⟨hfirst, hdigits⟩)
      · exact .inr ⟨[], first, rest, rfl, hfirst, hdigits⟩
    · exact .inr ⟨first :: before, c, after, rfl, hc, hafter⟩

/-- What is read has digits alone, which are the bits from the highest one on. -/
theorem digits_of_parse (hparse : parse digits = .ok b) :
    (∀ c ∈ digits.toList, IsBinaryDigit c) ∧ b.bits = digits.toList.reverse.map (· == '1') := by
  rcases all_isBinaryDigit_or_exists_last digits.toList with
    hdigits | ⟨before, c, after, hsplit, hc, hafter⟩
  · obtain ⟨read, hread, -, hbits⟩ := parse_eq_ok hdigits
    obtain rfl := Except.ok.inj (hread.symm.trans hparse)
    exact ⟨hdigits, hbits⟩
  · rw [parse_eq_error hsplit hc hafter] at hparse
    contradiction

/-- The refusals of texts, each with the character that it is for. -/
theorem parse_eq_error_iff {refusal : BitStringError} :
    parse digits = .error refusal ↔ ∃ before c after, digits.toList = before ++ c :: after ∧
      ¬IsBinaryDigit c ∧ (∀ d ∈ after, IsBinaryDigit d) ∧ refusal = .invalidDigit c := by
  constructor
  · intro hrefused
    rcases all_isBinaryDigit_or_exists_last digits.toList with
      hdigits | ⟨before, c, after, hsplit, hc, hafter⟩
    · obtain ⟨read, hread, -⟩ := parse_eq_ok hdigits
      rw [hread] at hrefused
      contradiction
    · rw [parse_eq_error hsplit hc hafter] at hrefused
      exact ⟨before, c, after, hsplit, hc, hafter, (Except.error.inj hrefused).symm⟩
  · rintro ⟨before, c, after, hsplit, hc, hafter, rfl⟩
    exact parse_eq_error hsplit hc hafter

theorem toList_display (b : BitString) : b.display.toList = b.bits.reverse.map digitOf :=
  String.toList_ofList

theorem display_eq_of_bits_eq (hdigits : ∀ c ∈ digits.toList, IsBinaryDigit c)
    (hbits : b.bits = digits.toList.reverse.map (· == '1')) : b.display = digits := by
  apply String.toList_inj.1
  rw [toList_display, hbits, ← List.map_reverse, List.reverse_reverse, List.map_map]
  calc
    digits.toList.map (digitOf ∘ (· == '1')) = digits.toList.map id :=
      List.map_congr_left fun c hc => digitOf_of_isBinaryDigit (hdigits c hc)
    _ = digits.toList := List.map_id _

/-- Reading a numeral from its highest digit on gives the number of the bits. -/
theorem foldl_eq_ofDigitChars {text : List Char} (hdigits : ∀ c ∈ text, IsBinaryDigit c)
    (start : Nat) :
    text.foldl (fun number c => 2 * number + (c == '1').toNat) start =
      Nat.ofDigitChars 2 text start := by
  induction text generalizing start with
  | nil => rfl
  | cons c rest ih =>
    have hdigit : (c == '1').toNat = c.toNat - '0'.toNat := by
      rcases hdigits c List.mem_cons_self with rfl | rfl <;> rfl
    rw [List.foldl_cons, Nat.ofDigitChars_cons, ← hdigit]
    exact ih (fun d hd => hdigits d (List.mem_cons_of_mem c hd)) _

theorem value_eq_of_bits_eq (hdigits : ∀ c ∈ digits.toList, IsBinaryDigit c)
    (hbits : b.bits = digits.toList.reverse.map (· == '1')) :
    b.value = Nat.ofDigitChars 2 digits.toList 0 := by
  rw [value, hbits, List.foldr_map, List.foldr_reverse, foldl_eq_ofDigitChars hdigits]

/-- A string is read back from its text. -/
theorem Canonical.parse_display (hb : b.Canonical) : parse b.display = .ok b := by
  have hdigits : ∀ c ∈ b.display.toList, IsBinaryDigit c := by
    intro c hc
    rw [toList_display] at hc
    obtain ⟨bit, -, rfl⟩ := List.mem_map.1 hc
    exact isBinaryDigit_digitOf bit
  obtain ⟨read, hparse, hread, hbits⟩ := parse_eq_ok hdigits
  have hsame : read.bits = b.bits := by
    rw [hbits, toList_display, ← List.map_reverse, List.reverse_reverse, List.map_map]
    exact List.map_id'' digitOf_beq_one _
  rw [hparse, hread.eq_of_bits_eq hb hsame]

/-- Every string in its proper form can be made: it can be read. -/
theorem reachable_iff_canonical : b.Reachable ↔ b.Canonical :=
  ⟨Reachable.canonical, fun hb => .parse hb.parse_display⟩

end Texts

/-- Reading is the inverse of displaying.  A string is read back from its text.  A text is read when
it has digits alone; the string then has as many bits as the text has characters, is displayed as
the text and has the value of the text as a binary numeral.  Any other text is refused for the last
of its characters that is no digit. -/
theorem display_parse_inverse :
    (∀ b : BitString, b.Reachable → parse b.display = .ok b) ∧
    ∀ text : String,
      ((∃ b, parse text = .ok b) ↔ ∀ c ∈ text.toList, c = '0' ∨ c = '1') ∧
      (∀ b, parse text = .ok b → b.width = text.length ∧ b.display = text ∧
        b.value = Nat.ofDigitChars 2 text.toList 0) ∧
      (∀ refusal, parse text = .error refusal ↔ ∃ before c after,
        text.toList = before ++ c :: after ∧ ¬(c = '0' ∨ c = '1') ∧
        (∀ d ∈ after, d = '0' ∨ d = '1') ∧ refusal = .invalidDigit c) := by
  refine ⟨fun b hb => hb.canonical.parse_display, fun text => ⟨⟨?_, ?_⟩, fun b hparse => ?_,
    fun refusal => parse_eq_error_iff⟩⟩
  · rintro ⟨b, hparse⟩
    exact (digits_of_parse hparse).1
  · intro hdigits
    obtain ⟨b, hparse, -⟩ := parse_eq_ok hdigits
    exact ⟨b, hparse⟩
  · obtain ⟨hdigits, hbits⟩ := digits_of_parse hparse
    refine ⟨?_, display_eq_of_bits_eq hdigits hbits, value_eq_of_bits_eq hdigits hbits⟩
    rw [← length_bits, hbits, List.length_map, List.length_reverse, String.length_toList]

/-- A string of more than one word is read back, one text is read and another one refused. -/
theorem display_parse_inverse_texts :
    let wide := (ofDoubleword 70 0x8000000000000005).shiftLeft 6
    wide.Reachable ∧ wide.isInline = false ∧ parse wide.display = .ok wide ∧
    (∃ b, parse "00101" = .ok b ∧ b.width = 5 ∧ b.display = "00101" ∧ b.value = 5) ∧
    parse "10y1x01" = .error (.invalidDigit 'x') := by
  intro wide
  have hwide : wide.Reachable := (Reachable.ofDoubleword 70 0x8000000000000005).shiftLeft 6
  obtain ⟨hread, htexts⟩ := display_parse_inverse
  obtain ⟨hdigits, hsays, -⟩ := htexts "00101"
  obtain ⟨b, hparse⟩ := hdigits.2 (by simp)
  obtain ⟨hwidth, hdisplay, hvalue⟩ := hsays b hparse
  refine ⟨hwide, rfl, hread wide hwide, ⟨b, hparse, hwidth.trans (by decide), hdisplay,
    hvalue.trans (by decide)⟩, ?_⟩
  exact ((htexts "10y1x01").2.2 _).2
    ⟨['1', '0', 'y', '1'], 'x', ['0', '1'], by decide, by decide, by simp, rfl⟩

end BitString

end A64Machine
