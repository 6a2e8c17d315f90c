import A64Machine.BitString

/-!
The bits of a sequence of words, and where the loops over words that bit strings are made with put
them.  A bit is numbered across the words, so that the border between two words does not show in
what a loop is proved to do.
-/

namespace A64Machine

def bitAt (words : List (BitVec 64)) (i : Nat) : Bool :=
  (words.getD (i / 64) 0).getLsbD (i % 64)

section Words

variable (words : List (BitVec 64))

theorem bitAt_of_le {i : Nat} (hpast : 64 * words.length ≤ i) : bitAt words i = false := by
  have hplace : words.length ≤ i / 64 := by omega
  rw [bitAt, List.getD_eq_getElem?_getD, List.getElem?_eq_none hplace]
  exact BitVec.getLsbD_zero

theorem bitAt_cons (word : BitVec 64) (i : Nat) :
    bitAt (word :: words) i = (word.getLsbD i || (decide (64 ≤ i) && bitAt words (i - 64))) := by
  by_cases hlow : i < 64
  · have hplace : i / 64 = 0 := by omega
    have hwithin : i % 64 = i := by omega
    simp [bitAt, hplace, hwithin, Nat.not_le.mpr hlow]
  · have hplace : i / 64 = (i - 64) / 64 + 1 := by omega
    have hwithin : i % 64 = (i - 64) % 64 := by omega
    rw [BitVec.getLsbD_of_ge word i (by omega), bitAt, hplace, hwithin]
    simp [bitAt, Nat.le_of_not_lt hlow]

theorem bitAt_singleton (word : BitVec 64) (i : Nat) : bitAt [word] i = word.getLsbD i := by
  rw [bitAt_cons, bitAt_of_le [] (Nat.zero_le _), Bool.and_false, Bool.or_false]

theorem bitAt_replicate (count : Nat) (word : BitVec 64) (i : Nat) :
    bitAt (List.replicate count word) i = (decide (i < 64 * count) && word.getLsbD (i % 64)) := by
  by_cases hin : i / 64 < count
  · have hbelow : i < 64 * count := by omega
    simp [bitAt, hin, hbelow]
  · have hpast : ¬i < 64 * count := by omega
    simp [bitAt, hin, hpast]

theorem bitAt_generated (count : Nat) (f : Nat → BitVec 64) (i : Nat) :
    bitAt ((List.range count).map f) i =
      (decide (i < 64 * count) && (f (i / 64)).getLsbD (i % 64)) := by
  by_cases hin : i / 64 < count
  · have hbelow : i < 64 * count := by omega
    simp [bitAt, hin, hbelow]
  · have hpast : ¬i < 64 * count := by omega
    simp [bitAt, hin, hpast]

theorem bitAt_modify (j : Nat) (f : BitVec 64 → BitVec 64) (i : Nat) :
    bitAt (words.modify j f) i =
      if i / 64 = j ∧ j < words.length then (f (words.getD j 0)).getLsbD (i % 64)
      else bitAt words i := by
  by_cases hplace : i / 64 = j
  · subst hplace
    by_cases hin : i / 64 < words.length
    · simp [bitAt, hin]
    · simp [bitAt, hin]
  · have hne : ¬j = i / 64 := Ne.symm hplace
    simp [bitAt, hplace, hne]

theorem bitAt_modify_or (j : Nat) (word : BitVec 64) (i : Nat) :
    bitAt (words.modify j (· ||| word)) i =
      (bitAt words i || (decide (i / 64 = j ∧ j < words.length) && word.getLsbD (i % 64))) := by
  rw [bitAt_modify]
  split
  next hin => simp [bitAt, hin]
  next hout => simp [hout]

theorem bitAt_map_not (i : Nat) :
    bitAt (words.map (~~~·)) i = (decide (i < 64 * words.length) && !bitAt words i) := by
  by_cases hin : i / 64 < words.length
  · have hbelow : i < 64 * words.length := by omega
    have hwithin : i % 64 < 64 := Nat.mod_lt i (by decide)
    simp [bitAt, hin, hbelow, hwithin]
  · have hpast : ¬i < 64 * words.length := by omega
    simp [bitAt, hin, hpast]

theorem bitAt_resized (count i : Nat) :
    bitAt ((words.take count).rightpad count 0) i =
      (decide (i < 64 * count) && bitAt words i) := by
  by_cases hin : i / 64 < count
  · have hbelow : i < 64 * count := by omega
    by_cases hplace : i / 64 < words.length
    · have hshort : i / 64 < (words.take count).length := by
        rw [List.length_take]
        omega
      rw [bitAt, bitAt, List.rightpad, List.getD_eq_getElem?_getD, List.getD_eq_getElem?_getD,
        List.getElem?_append_left hshort, List.getElem?_take_of_lt hin, decide_eq_true hbelow,
        Bool.true_and]
    · have hlong : (words.take count).length ≤ i / 64 := by
        rw [List.length_take]
        omega
      have hpast : 64 * words.length ≤ i := by omega
      rw [bitAt_of_le _ hpast, Bool.and_false, bitAt, List.rightpad, List.getD_eq_getElem?_getD,
        List.getElem?_append_right hlong, List.getElem?_replicate]
      split <;> exact BitVec.getLsbD_zero
  · have hpast : 64 * ((words.take count).rightpad count 0).length ≤ i := by
      simp only [List.length_rightpad, List.length_take]
      omega
    have hout : ¬i < 64 * count := by omega
    rw [bitAt_of_le _ hpast, decide_eq_false hout, Bool.false_and]

namespace BitString

/-- Clearing bits of the last word is clearing all bits past the width. -/
theorem bitAt_trimLast {width : Nat} (hlength : words.length = wordsFor width) (i : Nat) :
    bitAt (trimLast width words) i = (decide (i < width) && bitAt words i) := by
  by_cases hpast : 64 * words.length ≤ i
  · have hlength' : (trimLast width words).length = words.length := by
      unfold trimLast
      split
      · rfl
      · exact List.length_modify _ _ _
    rw [bitAt_of_le _ hpast, bitAt_of_le _ (by rw [hlength']; exact hpast), Bool.and_false]
  unfold wordsFor at hlength
  unfold trimLast
  split
  next hfull =>
    have hbelow : i < width := by omega
    rw [decide_eq_true hbelow, Bool.true_and]
  next hpart =>
    rw [bitAt_modify]
    split
    next hlast =>
      have hwithin : i % 64 < 64 := Nat.mod_lt i (by decide)
      have hbelow : i % 64 < width % 64 ↔ i < width := by omega
      rw [← hlast.1, BitVec.getLsbD_and, getLsbD_lowOnes, Bool.and_comm, ← bitAt]
      simp [hwithin, hbelow]
    next hearlier =>
      have hbelow : i < width := by omega
      rw [decide_eq_true hbelow, Bool.true_and]

theorem length_addWord (amount : Nat) (word : BitVec 64) (place : Nat) :
    (addWord amount word place words).length = words.length := by
  unfold addWord
  split <;> simp

/-- The part of a raised word that stays in its place. -/
theorem getLsbD_raised_here (word : BitVec 64) (amount : Nat) {place i : Nat}
    (hplace : i / 64 = place) : (word <<< amount).getLsbD (i % 64) =
      (decide (64 * place + amount ≤ i) && word.getLsbD (i - (64 * place + amount))) := by
  have hwithin : i % 64 < 64 := Nat.mod_lt i (by decide)
  have hindex : i % 64 - amount = i - (64 * place + amount) := by omega
  have hlow : (!decide (i % 64 < amount)) = decide (64 * place + amount ≤ i) := by
    rw [← decide_not, decide_eq_decide]
    omega
  rw [BitVec.getLsbD_shiftLeft, hindex, hlow, decide_eq_true hwithin, Bool.true_and]

/-- The part of a raised word that goes over into the next place. -/
theorem getLsbD_raised_over (word : BitVec 64) {amount place i : Nat} (hamount : amount < 64)
    (hnext : i / 64 = place + 1) : (word >>> (64 - amount)).getLsbD (i % 64) =
      word.getLsbD (i - (64 * place + amount)) := by
  have hindex : 64 - amount + i % 64 = i - (64 * place + amount) := by omega
  rw [BitVec.getLsbD_ushiftRight, hindex]

/-- The two places that a word goes to when it is moved up. -/
theorem bitAt_addWord {amount : Nat} (hamount : amount < 64) (word : BitVec 64) (place i : Nat) :
    bitAt (addWord amount word place words) i = (bitAt words i ||
      (decide (i < 64 * words.length ∧ 64 * place + amount ≤ i) &&
        word.getLsbD (i - (64 * place + amount)))) := by
  rw [addWord]
  by_cases hplace : i / 64 = place
  · have hin : place < words.length ↔ i < 64 * words.length := by omega
    have hbit := getLsbD_raised_here word amount hplace
    split <;> simp [bitAt_modify_or, hplace, hbit, hin, Bool.and_assoc]
  by_cases hnext : i / 64 = place + 1
  · split
    next hzero =>
      have hover : 64 ≤ i - (64 * place + amount) := by omega
      simp [bitAt_modify_or, hplace, BitVec.getLsbD_of_ge word _ hover]
    next hpart =>
      have hbit := getLsbD_raised_over word hamount hnext
      have hbase : 64 * place + amount ≤ i := by omega
      have hin : place + 1 < words.length ↔ i < 64 * words.length := by omega
      simp [bitAt_modify_or, hnext, hbit, hin, hbase, -BitVec.getLsbD_ushiftRight]
  -- Everywhere else there is no bit of the word: it is too far up, or too far down.
  · by_cases hbase : 64 * place + amount ≤ i
    · have hover : 64 ≤ i - (64 * place + amount) := by omega
      split <;> simp [bitAt_modify_or, hplace, hnext, BitVec.getLsbD_of_ge word _ hover]
    · split <;> simp [bitAt_modify_or, hplace, hnext, hbase]

theorem length_addRaised (amount : Nat) (added : List (BitVec 64)) (place : Nat) :
    (addRaised amount added place words).length = words.length := by
  induction added generalizing place words with
  | nil => rfl
  | cons word rest ih => rw [addRaised, ih, length_addWord]

theorem bitAt_addRaised {amount : Nat} (hamount : amount < 64) (added : List (BitVec 64))
    (place i : Nat) :
    bitAt (addRaised amount added place words) i = (bitAt words i ||
      (decide (i < 64 * words.length ∧ 64 * place + amount ≤ i) &&
        bitAt added (i - (64 * place + amount)))) := by
  induction added generalizing place words with
  | nil => rw [addRaised, bitAt_of_le [] (Nat.zero_le _), Bool.and_false, Bool.or_false]
  | cons word rest ih =>
    rw [addRaised, ih, length_addWord, bitAt_addWord words hamount, bitAt_cons]
    have hindex : i - (64 * (place + 1) + amount) = i - (64 * place + amount) - 64 := by omega
    have hnext : decide (i < 64 * words.length ∧ 64 * (place + 1) + amount ≤ i) =
        (decide (i < 64 * words.length ∧ 64 * place + amount ≤ i) &&
          decide (64 ≤ i - (64 * place + amount))) := by
      rw [← Bool.decide_and, decide_eq_decide]
      omega
    rw [hindex, hnext, Bool.and_or_distrib_left, Bool.or_assoc, Bool.and_assoc]

/-- Every bit moves up by `amount`, as far as there are words for it. -/
theorem bitAt_shiftedLeft (amount count i : Nat) :
    bitAt (shiftedLeft words amount count) i =
      (decide (i < 64 * count ∧ amount ≤ i) && bitAt words (i - amount)) := by
  have hsplit : 64 * (amount / 64) + amount % 64 = amount := by omega
  rw [shiftedLeft, bitAt_addRaised _ (Nat.mod_lt amount (by decide)), bitAt_replicate, hsplit,
    List.length_replicate]
  simp

/-- Every bit moves down by `amount`. -/
theorem bitAt_shiftedRight (amount count i : Nat) :
    bitAt (shiftedRight words amount count) i =
      (decide (i < 64 * count) && bitAt words (i + amount)) := by
  rw [shiftedRight, bitAt_generated]
  have hwithin : i % 64 < 64 := Nat.mod_lt i (by decide)
  congr 1
  rw [BitVec.getLsbD_or, BitVec.getLsbD_ushiftRight, bitAt]
  by_cases hsame : amount % 64 + i % 64 < 64
  · have hplace : (i + amount) / 64 = i / 64 + amount / 64 := by omega
    have hindex : (i + amount) % 64 = amount % 64 + i % 64 := by omega
    rw [hplace, hindex]
    split
    · simp
    · have hlow : i % 64 < 64 - amount % 64 := by omega
      simp [hlow]
  · have hplace : (i + amount) / 64 = i / 64 + amount / 64 + 1 := by omega
    have hindex : (i + amount) % 64 = i % 64 - (64 - amount % 64) := by omega
    have hpart : ¬amount % 64 = 0 := by omega
    have hhigh : ¬i % 64 < 64 - amount % 64 := by omega
    rw [if_neg hpart, hplace, hindex, BitVec.getLsbD_of_ge _ _ (Nat.le_of_not_lt hsame),
      BitVec.getLsbD_shiftLeft, decide_eq_true hwithin, decide_eq_false hhigh]
    simp

theorem bitAt_orWords {words added : List (BitVec 64)} (hroom : added.length ≤ words.length)
    (i : Nat) : bitAt (orWords words added) i = (bitAt words i || bitAt added i) := by
  induction added generalizing words i with
  | nil =>
    rw [bitAt_of_le [] (Nat.zero_le _), Bool.or_false]
    cases words <;> rfl
  | cons word rest ih =>
    cases words with
    | nil => contradiction
    | cons first others =>
      rw [orWords, bitAt_cons, bitAt_cons, bitAt_cons, ih (Nat.le_of_succ_le_succ hroom),
        BitVec.getLsbD_or, Bool.and_or_distrib_left]
      ac_rfl

end BitString

end Words

end A64Machine
