import A64Machine.Proofs.BitString.Bits

/-!
The form that bit strings are kept in.  Every operation on strings in that form gives one in that
form, and each bit of the result is said by a rule that does not mention the form of the operands.
-/

namespace A64Machine

namespace BitString

/-- A string in its proper form: one word as long as the width allows it and otherwise as many words
as the width needs, with no set bit at or above the width. -/
structure Canonical (b : BitString) : Prop where
  inline_iff : b.isInline = true ↔ b.width ≤ inlineWidth
  length_eq (words : List (BitVec 64)) (hwide : b.store = .wide words) :
    words.length = wordsFor b.width
  clear (i : Nat) (hpast : b.width ≤ i) : b.bit i = false

/-- A string in its proper form of the given width, the bits of which `f` says. -/
structure HasBits (b : BitString) (width : Nat) (f : Nat → Bool) : Prop where
  canonical : b.Canonical
  width_eq : b.width = width
  bit_eq (i : Nat) : b.bit i = (decide (i < width) && f i)

variable {b : BitString} {width : Nat}

theorem bit_wide (width : Nat) (words : List (BitVec 64)) (i : Nat) :
    bit ⟨width, .wide words⟩ i = bitAt words i := rfl

theorem bit_inline (width : Nat) (bits : BitVec 64) (i : Nat) :
    bit ⟨width, .inline bits⟩ i = bits.getLsbD i := by
  rw [← bitAt_singleton, bitAt, bit, word]
  cases i / 64 <;> rfl

theorem bit_of_lt {i : Nat} (hfirst : i < 64) : b.bit i = (b.word 0).getLsbD i := by
  have hplace : i / 64 = 0 := by omega
  have hwithin : i % 64 = i := by omega
  rw [bit, hplace, hwithin]

/-- The words of a string in its proper form have its bits. -/
theorem Canonical.bit_eq_bitAt (hcanonical : b.Canonical) (i : Nat) :
    b.bit i = bitAt b.words i := by
  obtain ⟨width, bits | words⟩ := b
  · by_cases hempty : width = 0
    · subst hempty
      exact (hcanonical.clear i (Nat.zero_le _)).trans (bitAt_of_le [] (Nat.zero_le _)).symm
    · have hwords : words ⟨width, .inline bits⟩ = [bits] := if_neg hempty
      rw [hwords, bitAt_singleton, bit_inline]
  · rfl

theorem Canonical.wide (hcanonical : b.Canonical) {words : List (BitVec 64)}
    (hwide : b.store = .wide words) : ¬b.width ≤ inlineWidth := by
  intro hnarrow
  have hinline := hcanonical.inline_iff.mpr hnarrow
  rw [isInline, hwide] at hinline
  contradiction

theorem Canonical.hasBits (hcanonical : b.Canonical) : b.HasBits b.width b.bit := by
  refine ⟨hcanonical, rfl, fun i => ?_⟩
  by_cases hin : i < b.width
  · rw [decide_eq_true hin, Bool.true_and]
  · rw [hcanonical.clear i (Nat.le_of_not_lt hin), Bool.and_false]

theorem HasBits.congr {f g : Nat → Bool} (hb : b.HasBits width f)
    (hsame : ∀ i, i < width → f i = g i) : b.HasBits width g := by
  refine ⟨hb.canonical, hb.width_eq, fun i => ?_⟩
  rw [hb.bit_eq]
  by_cases hbelow : i < width
  · rw [hsame i hbelow]
  · rw [decide_eq_false hbelow, Bool.false_and, Bool.false_and]

theorem hasBits_wide {words : List (BitVec 64)} {f : Nat → Bool} (hwide : ¬width ≤ inlineWidth)
    (hlength : words.length = wordsFor width)
    (hbits : ∀ i, bitAt words i = (decide (i < width) && f i)) :
    HasBits ⟨width, .wide words⟩ width f where
  canonical := {
    inline_iff := ⟨nofun, fun hnarrow => absurd hnarrow hwide⟩
    length_eq _ hwords := BitStore.wide.inj hwords ▸ hlength
    clear i hpast := by
      rw [bit_wide, hbits, decide_eq_false (Nat.not_lt.mpr hpast), Bool.false_and] }
  width_eq := rfl
  bit_eq := hbits

theorem hasBits_inlined (hnarrow : width ≤ inlineWidth) (bits : BitVec 64) :
    (inlined width bits).HasBits width bits.getLsbD := by
  have hbits : ∀ i, bit (inlined width bits) i = (decide (i < width) && bits.getLsbD i) := by
    intro i
    have hbelow : i < 64 ∧ i < width ↔ i < width := by
      unfold inlineWidth at hnarrow
      omega
    rw [inlined, bit_inline, BitVec.getLsbD_and, getLsbD_lowOnes, Bool.and_comm,
      decide_eq_decide.mpr hbelow]
  refine ⟨⟨⟨fun _ => hnarrow, fun _ => rfl⟩, nofun, fun i hpast => ?_⟩, rfl, hbits⟩
  have hout : ¬i < width := Nat.not_lt.mpr hpast
  rw [hbits, decide_eq_false hout, Bool.false_and]

theorem length_trimLast (width : Nat) (words : List (BitVec 64)) :
    (trimLast width words).length = words.length := by
  unfold trimLast
  split
  · rfl
  · exact List.length_modify _ _ _

/-- Any words make a string in its proper form. -/
theorem hasBits_ofWords (width : Nat) (words : List (BitVec 64)) :
    (ofWords width words).HasBits width (bitAt words) := by
  unfold ofWords
  split
  next hnarrow =>
    refine (hasBits_inlined hnarrow _).congr fun i hbelow => ?_
    have hplace : i / 64 = 0 := by
      unfold inlineWidth at hnarrow
      omega
    have hwithin : i % 64 = i := by omega
    rw [bitAt, hplace, hwithin]
    cases words <;> rfl
  next hwide =>
    have hlength : ((words.take (wordsFor width)).rightpad (wordsFor width) 0).length =
        wordsFor width := by
      simp only [List.length_rightpad, List.length_take]
      omega
    refine hasBits_wide hwide (by rw [length_trimLast, hlength]) fun i => ?_
    have hin : i < width ∧ i < 64 * wordsFor width ↔ i < width := by
      unfold wordsFor
      omega
    rw [bitAt_trimLast _ hlength, bitAt_resized, ← Bool.and_assoc, ← Bool.decide_and,
      decide_eq_decide.mpr hin]

theorem hasBits_ofDoubleword (width : Nat) (value : BitVec 64) :
    (ofDoubleword width value).HasBits width value.getLsbD := by
  unfold ofDoubleword
  split
  next hnarrow => exact hasBits_inlined hnarrow value
  next hwide => exact (hasBits_ofWords width [value]).congr fun i _ => bitAt_singleton value i

theorem hasBits_zeros (width : Nat) : (zeros width).HasBits width fun _ => false :=
  (hasBits_ofDoubleword width 0).congr fun _ _ => BitVec.getLsbD_zero

theorem hasBits_setAll (b : BitString) : b.setAll.HasBits b.width fun _ => true := by
  unfold setAll
  split
  next hnarrow =>
    refine (hasBits_inlined hnarrow _).congr fun i hbelow => ?_
    unfold inlineWidth at hnarrow
    rw [BitVec.getLsbD_allOnes, decide_eq_true (Nat.lt_of_lt_of_le hbelow hnarrow)]
  next hwide =>
    refine (hasBits_ofWords b.width _).congr fun i hbelow => ?_
    have hin : i < 64 * wordsFor b.width := by
      unfold wordsFor
      omega
    rw [bitAt_replicate, BitVec.getLsbD_allOnes, decide_eq_true hin,
      decide_eq_true (Nat.mod_lt i (by decide)), Bool.and_self]

theorem hasBits_resize (hcanonical : b.Canonical) (width : Nat) :
    (b.resize width).HasBits width b.bit := by
  unfold resize
  split
  next hnarrow =>
    exact (hasBits_inlined hnarrow _).congr fun i hbelow =>
      (bit_of_lt (Nat.lt_of_lt_of_le hbelow hnarrow)).symm
  next hwide =>
    exact (hasBits_ofWords width b.words).congr fun i _ => (hcanonical.bit_eq_bitAt i).symm

/-- Changing a word changes its bits below the width. -/
theorem hasBits_updateWord (hcanonical : b.Canonical) {j : Nat} (hin : 64 * j < b.width)
    (f : BitVec 64 → BitVec 64) :
    (b.updateWord j f).HasBits b.width fun i =>
      if i / 64 = j then (f (b.word j)).getLsbD (i % 64) else b.bit i := by
  obtain ⟨width, bits | words⟩ := b
  · have hnarrow : width ≤ inlineWidth := hcanonical.inline_iff.mp rfl
    refine (hasBits_inlined hnarrow (f bits)).congr fun i hbelow => ?_
    change 64 * j < width at hin
    unfold inlineWidth at hnarrow
    obtain rfl : j = 0 := by omega
    have hplace : i / 64 = 0 := by omega
    have hwithin : i % 64 = i := by omega
    rw [if_pos hplace, hwithin]
    rfl
  · have hlength : words.length = wordsFor width := hcanonical.length_eq words rfl
    have hwide := hcanonical.wide rfl
    change 64 * j < width at hin
    have hplaces : words.length = (width + 63) / 64 := hlength
    have hchanged : (words.modify j f).length = wordsFor width := by
      rw [List.length_modify, hlength]
    have hbits : ∀ i, bitAt (words.modify j f) i = if i / 64 = j then
        (f (words.getD j 0)).getLsbD (i % 64) else bitAt words i := by
      intro i
      have hheld : j < words.length := by omega
      rw [bitAt_modify]
      simp only [hheld, and_true]
    rw [updateWord]
    -- Only the last word can have gained bits past the width, and only then are they cleared.
    refine hasBits_wide hwide ?_ fun i => ?_
    · split
      · rw [length_trimLast, hchanged]
      · exact hchanged
    · split
      next hlast =>
        rw [bitAt_trimLast _ hchanged, hbits]
        rfl
      next hearlier =>
        rw [hbits]
        by_cases hbelow : i < width
        · rw [decide_eq_true hbelow, Bool.true_and]
          rfl
        · have hplace : ¬i / 64 = j := by omega
          rw [decide_eq_false hbelow, Bool.false_and, if_neg hplace]
          exact hcanonical.clear i (Nat.le_of_not_lt hbelow)

/-- Changing a bit through a mask leaves the other bits alone. -/
theorem update_eq_ok (hcanonical : b.Canonical) {i : Nat} (hin : i < b.width)
    {f : BitVec 64 → BitVec 64 → BitVec 64} {g : Bool → Bool}
    (hmask : ∀ (x : BitVec 64) (j k : Nat), j < 64 → k < 64 →
      (f x (BitVec.twoPow 64 j)).getLsbD k = if k = j then g (x.getLsbD j) else x.getLsbD k) :
    ∃ after, b.update i f = .ok after ∧
      after.HasBits b.width fun k => if k = i then g (b.bit i) else b.bit k := by
  have hword : 64 * (i / 64) < b.width := by omega
  refine ⟨_, if_pos hin, (hasBits_updateWord hcanonical hword _).congr fun k hbelow => ?_⟩
  have hwithin : i % 64 < 64 ∧ k % 64 < 64 := ⟨Nat.mod_lt i (by decide), Nat.mod_lt k (by decide)⟩
  by_cases hplace : k / 64 = i / 64
  · have hsame : k % 64 = i % 64 ↔ k = i := by omega
    rw [if_pos hplace, hmask _ _ _ hwithin.1 hwithin.2, ← bit, ← hplace, ← bit]
    simp only [hsame]
  · have hne : ¬k = i := fun hsame => hplace (congrArg (· / 64) hsame)
    rw [if_neg hplace, if_neg hne]

theorem setTo_eq_ok (hcanonical : b.Canonical) {i : Nat} (hin : i < b.width) (value : Bool) :
    ∃ after, b.setTo i value = .ok after ∧
      after.HasBits b.width fun k => if k = i then value else b.bit k := by
  refine update_eq_ok hcanonical hin (g := fun _ => value) fun x j k hj hk => ?_
  by_cases hsame : k = j
  · subst hsame
    cases value <;> simp [hk]
  · cases value <;> simp [hsame, hk]

theorem flip_eq_ok (hcanonical : b.Canonical) {i : Nat} (hin : i < b.width) :
    ∃ after, b.flip i = .ok after ∧
      after.HasBits b.width fun k => if k = i then !b.bit i else b.bit k := by
  refine update_eq_ok hcanonical hin (g := Bool.not) fun x j k hj hk => ?_
  by_cases hsame : k = j
  · subst hsame
    simp [hk]
  · simp [hsame, Ne.symm hsame]

theorem hasBits_not (hcanonical : b.Canonical) : b.not.HasBits b.width fun i => !b.bit i := by
  obtain ⟨width, bits | words⟩ := b
  · have hnarrow : width ≤ inlineWidth := hcanonical.inline_iff.mp rfl
    refine (hasBits_inlined hnarrow (~~~bits)).congr fun i hbelow => ?_
    unfold inlineWidth at hnarrow
    rw [BitVec.getLsbD_not, decide_eq_true (Nat.lt_of_lt_of_le hbelow hnarrow), Bool.true_and,
      bit_inline]
  · have hlength : words.length = wordsFor width := hcanonical.length_eq words rfl
    have hinverted : (words.map (~~~·)).length = wordsFor width := by
      rw [List.length_map, hlength]
    refine hasBits_wide (hcanonical.wide rfl) (by rw [length_trimLast, hinverted]) fun i => ?_
    have hin : i < width ∧ i < 64 * words.length ↔ i < width := by
      rw [hlength]
      unfold wordsFor
      omega
    rw [bitAt_trimLast _ hinverted, bitAt_map_not, ← Bool.and_assoc, ← Bool.decide_and,
      decide_eq_decide.mpr hin]
    rfl

theorem getLsbD_raisedWord (word : BitVec 64) (amount : Nat) {i : Nat} (hin : i < 64) :
    (raisedWord word amount).getLsbD i = (decide (amount ≤ i) && word.getLsbD (i - amount)) := by
  unfold raisedWord
  split
  next hover =>
    have hlow : ¬amount ≤ i := by omega
    rw [decide_eq_false hlow, Bool.false_and]
    exact BitVec.getLsbD_zero
  next hmoved =>
    rw [BitVec.getLsbD_shiftLeft, decide_eq_true hin, Bool.true_and, ← decide_not]
    simp only [Nat.not_lt]

theorem hasBits_shiftLeft (hcanonical : b.Canonical) (amount : Nat) :
    (b.shiftLeft amount).HasBits b.width fun i => decide (amount ≤ i) && b.bit (i - amount) := by
  obtain ⟨width, bits | words⟩ := b
  · have hnarrow : width ≤ inlineWidth := hcanonical.inline_iff.mp rfl
    refine (hasBits_inlined hnarrow (raisedWord bits amount)).congr fun i hbelow => ?_
    rw [bit_inline, getLsbD_raisedWord bits amount (Nat.lt_of_lt_of_le hbelow hnarrow)]
  · refine (hasBits_ofWords width _).congr fun i hbelow => ?_
    have hin : i < 64 * wordsFor width := by
      unfold wordsFor
      omega
    rw [bitAt_shiftedLeft, Bool.decide_and, decide_eq_true hin, Bool.true_and]
    rfl

theorem hasBits_shiftRight (hcanonical : b.Canonical) (amount : Nat) :
    (b.shiftRight amount).HasBits b.width fun i => b.bit (i + amount) := by
  obtain ⟨width, bits | words⟩ := b
  · have hnarrow : width ≤ inlineWidth := hcanonical.inline_iff.mp rfl
    refine (hasBits_inlined hnarrow (loweredWord bits amount)).congr fun i hbelow => ?_
    rw [bit_inline, loweredWord]
    split
    next hover =>
      rw [BitVec.getLsbD_of_ge bits (i + amount) (by omega)]
      exact BitVec.getLsbD_zero
    next hmoved => rw [BitVec.getLsbD_ushiftRight, Nat.add_comm]
  · refine (hasBits_ofWords width _).congr fun i hbelow => ?_
    have hin : i < 64 * wordsFor width := by
      unfold wordsFor
      omega
    rw [bitAt_shiftedRight, decide_eq_true hin, Bool.true_and]
    rfl

theorem Canonical.length_words (hcanonical : b.Canonical) :
    b.words.length ≤ wordsFor b.width := by
  obtain ⟨width, bits | words⟩ := b
  · by_cases hempty : width = 0
    · have hwords : words ⟨width, .inline bits⟩ = [] := if_pos hempty
      rw [hwords]
      exact Nat.zero_le _
    · have hwords : words ⟨width, .inline bits⟩ = [bits] := if_neg hempty
      rw [hwords, List.length_singleton, wordsFor]
      change 1 ≤ (width + 63) / 64
      omega
  · exact Nat.le_of_eq (hcanonical.length_eq words rfl)

/-- The low operand keeps its bits, and those of the high one follow. -/
theorem hasBits_concat {high low : BitString} (hhigh : high.Canonical) (hlow : low.Canonical) :
    (high.concat low).HasBits (high.width + low.width) fun i =>
      (decide (low.width ≤ i) && high.bit (i - low.width)) || low.bit i := by
  simp only [concat]
  split
  next hnarrow =>
    refine (hasBits_inlined hnarrow _).congr fun i hbelow => ?_
    have hin : i < 64 := Nat.lt_of_lt_of_le hbelow hnarrow
    rw [BitVec.getLsbD_or, getLsbD_raisedWord _ _ hin, bit_of_lt hin,
      bit_of_lt (Nat.lt_of_le_of_lt (Nat.sub_le i low.width) hin)]
  next hwide =>
    refine (hasBits_ofWords _ _).congr fun i hbelow => ?_
    have hin : i < 64 * wordsFor (high.width + low.width) := by
      unfold wordsFor
      omega
    have hroom : low.words.length ≤
        (shiftedLeft high.words low.width (wordsFor (high.width + low.width))).length := by
      rw [shiftedLeft, length_addRaised, List.length_replicate]
      exact Nat.le_trans hlow.length_words (by unfold wordsFor; omega)
    rw [bitAt_orWords hroom, bitAt_shiftedLeft, Bool.decide_and, decide_eq_true hin, Bool.true_and,
      hhigh.bit_eq_bitAt, hlow.bit_eq_bitAt]

/-- An operation that works bit by bit on words works bit by bit on strings. -/
theorem hasBits_zipWith {f : BitVec 64 → BitVec 64 → BitVec 64} {g : Bool → Bool → Bool}
    (hbitwise : ∀ (x y : BitVec 64) (i : Nat), (f x y).getLsbD i = g (x.getLsbD i) (y.getLsbD i))
    (a b : BitString) :
    (zipWith f a b).HasBits (max a.width b.width) fun i => g (a.bit i) (b.bit i) := by
  simp only [zipWith]
  split
  next hnarrow =>
    refine (hasBits_inlined hnarrow _).congr fun i hbelow => ?_
    have hin : i < 64 := Nat.lt_of_lt_of_le hbelow hnarrow
    rw [hbitwise, bit_of_lt hin, bit_of_lt hin]
  next hwide =>
    refine (hasBits_ofWords _ _).congr fun i hbelow => ?_
    have hin : i < 64 * wordsFor (max a.width b.width) := by
      unfold wordsFor
      omega
    rw [bitAt_generated, decide_eq_true hin, Bool.true_and, hbitwise]
    rfl

end BitString

end A64Machine
