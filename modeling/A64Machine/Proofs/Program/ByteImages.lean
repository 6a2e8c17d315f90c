import A64Machine.Program

/-!
Program images as bytes.  Words are written to bytes and read back from them without a loss in both
directions.  So bytes that are an image hold exactly the program that is made of them, and a program
comes out the same whether it is given as words or as bytes; what is no image is refused for the
first thing that is wrong with it.
-/

namespace A64Machine

section Bytes

/-- The bytes of a word that was put together from bytes. -/
theorem bytesOfWord_append (b0 b1 b2 b3 : Byte) :
    bytesOfWord (b3 ++ b2 ++ b1 ++ b0) = [b0, b1, b2, b3] := by
  have hbyte (start : Nat) (b : Byte)
      (hbits : ∀ i < 8, (b3 ++ b2 ++ b1 ++ b0).getLsbD (start + i) = b.getLsbD i) :
      (b3 ++ b2 ++ b1 ++ b0).extractLsb' start 8 = b := by
    apply BitVec.eq_of_getLsbD_eq
    intro i hi
    rw [BitVec.getLsbD_extractLsb', hbits i hi, decide_eq_true hi, Bool.true_and]
  rw [bytesOfWord, hbyte 0 b0, hbyte 8 b1, hbyte 16 b2, hbyte 24 b3]
  all_goals
    intro i hi
    simp only [BitVec.getLsbD_append]
    grind

/-- A word is read from its own bytes, whatever comes after them. -/
theorem wordsOfBytes_bytesOfWord (word : Word) (rest : List Byte) :
    wordsOfBytes (bytesOfWord word ++ rest) = word :: wordsOfBytes rest := by
  change (word.extractLsb' 24 8 ++ word.extractLsb' 16 8 ++ word.extractLsb' 8 8 ++
    word.extractLsb' 0 8 : Word) :: wordsOfBytes rest = _
  congr 1
  apply BitVec.eq_of_getLsbD_eq
  intro i hi
  simp only [BitVec.getLsbD_append, BitVec.getLsbD_extractLsb']
  grind

/-- Words that were written to bytes are read back. -/
theorem wordsOfBytes_flatMap (words : List Word) :
    wordsOfBytes (words.flatMap bytesOfWord) = words := by
  induction words with
  | nil => rfl
  | cons word rest ih => rw [List.flatMap_cons, wordsOfBytes_bytesOfWord, ih]

theorem length_flatMap_bytesOfWord (words : List Word) :
    (words.flatMap bytesOfWord).length = words.length * wordBytes := by
  induction words with
  | nil => rfl
  | cons word rest ih =>
    rw [List.flatMap_cons, List.length_append, ih, List.length_cons, Nat.succ_mul, Nat.add_comm]
    rfl

/-- Bytes that fill whole words are written back as they were read. -/
theorem flatMap_wordsOfBytes {bytes : List Byte} (hwhole : bytes.length % wordBytes = 0) :
    (wordsOfBytes bytes).flatMap bytesOfWord = bytes := by
  fun_induction wordsOfBytes bytes with
  | case1 b0 b1 b2 b3 rest ih =>
    have hrest : rest.length % wordBytes = 0 := by
      simp only [List.length_cons, wordBytes] at hwhole ⊢
      omega
    rw [List.flatMap_cons, bytesOfWord_append, ih hrest]
    rfl
  | case2 bytes hshort =>
    match bytes with
    | [] => rfl
    | [_] | [_, _] | [_, _, _] => contradiction
    | b0 :: b1 :: b2 :: b3 :: rest => exact absurd rfl (hshort b0 b1 b2 b3 rest)

theorem length_wordsOfBytes {bytes : List Byte} (hwhole : bytes.length % wordBytes = 0) :
    (wordsOfBytes bytes).length = bytes.length / wordBytes := by
  have hbytes := length_flatMap_bytesOfWord (wordsOfBytes bytes)
  rw [flatMap_wordsOfBytes hwhole] at hbytes
  rw [hbytes, Nat.mul_div_cancel _ (by decide)]

end Bytes

/-- Whether bytes are an image, with its entry at an offset: they fill whole words, and the entry is
one of these words. -/
structure IsImage (bytes : List Byte) (offset : Nat) : Prop where
  nonempty : bytes ≠ []
  whole : bytes.length % wordBytes = 0
  aligned : offset % wordBytes = 0
  inside : offset < bytes.length

instance (bytes : List Byte) (offset : Nat) : Decidable (IsImage bytes offset) :=
  decidable_of_decidable_of_iff (p := bytes ≠ [] ∧ bytes.length % wordBytes = 0 ∧
    offset % wordBytes = 0 ∧ offset < bytes.length)
    ⟨fun ⟨hnonempty, hwhole, haligned, hinside⟩ => ⟨hnonempty, hwhole, haligned, hinside⟩,
      fun ⟨hnonempty, hwhole, haligned, hinside⟩ => ⟨hnonempty, hwhole, haligned, hinside⟩⟩

namespace LoadError

/-- Whether this is wrong with the bytes of an image or with the offset of its entry. -/
def Applies (bytes : List Byte) (offset : Nat) : LoadError → Prop
  | .empty => bytes = []
  | .misalignedLength length => length = bytes.length ∧ bytes.length % wordBytes ≠ 0
  | .misalignedEntry entryOffset => entryOffset = offset ∧ offset % wordBytes ≠ 0
  | .entryOutOfRange entry length =>
    entry = offset / wordBytes ∧ length = bytes.length / wordBytes ∧ bytes.length ≤ offset

/-- Place of an error in the order in which they are looked for. -/
def rank : LoadError → Nat
  | .empty => 0
  | .misalignedLength _ => 1
  | .misalignedEntry _ => 2
  | .entryOutOfRange _ _ => 3

/-- Whether an error is the first one that applies. -/
structure IsFirst (bytes : List Byte) (offset : Nat) (error : LoadError) : Prop where
  applies : error.Applies bytes offset
  first : ∀ other : LoadError, other.Applies bytes offset → error.rank ≤ other.rank

variable {bytes : List Byte} {offset : Nat} {error other : LoadError}

/-- Two errors of one rank that apply are one error. -/
theorem IsFirst.unique (herror : error.IsFirst bytes offset) (hother : other.IsFirst bytes offset) :
    error = other := by
  have hrank : error.rank = other.rank :=
    Nat.le_antisymm (herror.first other hother.applies) (hother.first error herror.applies)
  have happlies := herror.applies
  have happlies' := hother.applies
  cases error <;> cases other <;> simp_all [rank, Applies]

/-- Nothing is wrong with an image. -/
theorem not_applies (himage : IsImage bytes offset) : ¬ error.Applies bytes offset := by
  intro happlies
  cases error with
  | empty => exact himage.nonempty happlies
  | misalignedLength length => exact happlies.2 himage.whole
  | misalignedEntry entryOffset => exact happlies.2 himage.aligned
  | entryOutOfRange entry length => exact Nat.not_le_of_lt himage.inside happlies.2.2

end LoadError

namespace Program

variable {bytes : List Byte} {offset : Nat}

/-- What becomes of whole words with an aligned entry. -/
theorem ofBytes_of_whole (hnonempty : bytes ≠ []) (hwhole : bytes.length % wordBytes = 0)
    (haligned : offset % wordBytes = 0) :
    ofBytes bytes offset =
      if bytes.length ≤ offset then
        .error (.entryOutOfRange (offset / wordBytes) (bytes.length / wordBytes))
      else .ok ⟨(wordsOfBytes bytes).toArray, offset / wordBytes⟩ := by
  have hentry : bytes.length / wordBytes ≤ offset / wordBytes ↔ bytes.length ≤ offset := by
    unfold wordBytes at *
    omega
  have hwords : ¬ (wordsOfBytes bytes).toArray.isEmpty = true := by
    rw [List.isEmpty_toArray, List.isEmpty_iff]
    intro hnone
    rw [← flatMap_wordsOfBytes hwhole, hnone] at hnonempty
    exact hnonempty rfl
  rw [ofBytes, if_neg (mt List.isEmpty_iff.1 hnonempty), if_neg (not_not_intro hwhole),
    if_neg (not_not_intro haligned), ofWords, if_neg hwords, List.size_toArray,
    length_wordsOfBytes hwhole]
  simp only [hentry]

/-- The program that an image is. -/
theorem ofBytes_of_isImage (himage : IsImage bytes offset) :
    ofBytes bytes offset = .ok ⟨(wordsOfBytes bytes).toArray, offset / wordBytes⟩ := by
  rw [ofBytes_of_whole himage.nonempty himage.whole himage.aligned,
    if_neg (Nat.not_le_of_lt himage.inside)]

/-- What is no image is refused, with the first error that applies.  The cases are the checks in
their order; when one fails, those before it have passed, so no error before it applies. -/
theorem exists_error_of_not_isImage (himage : ¬ IsImage bytes offset) :
    ∃ error, ofBytes bytes offset = .error error ∧ error.IsFirst bytes offset := by
  by_cases hempty : bytes = []
  · exact ⟨.empty, by rw [hempty]; rfl, hempty, fun _ _ => Nat.zero_le _⟩
  have hsome : ¬ bytes.isEmpty = true := mt List.isEmpty_iff.1 hempty
  by_cases hwhole : bytes.length % wordBytes = 0
  case neg =>
    refine ⟨.misalignedLength bytes.length, ?_, ⟨rfl, hwhole⟩, fun other hother => ?_⟩
    · rw [ofBytes, if_neg hsome, if_pos hwhole]
    · cases other with
      | empty => exact absurd hother hempty
      | _ => exact Nat.succ_le_succ (Nat.zero_le _)
  by_cases haligned : offset % wordBytes = 0
  case neg =>
    refine ⟨.misalignedEntry offset, ?_, ⟨rfl, haligned⟩, fun other hother => ?_⟩
    · rw [ofBytes, if_neg hsome, if_neg (not_not_intro hwhole), if_pos haligned]
    · cases other with
      | empty => exact absurd hother hempty
      | misalignedLength length => exact absurd hwhole hother.2
      | _ => exact Nat.le_add_left 2 _
  have houtside : bytes.length ≤ offset :=
    Nat.le_of_not_lt fun hinside => himage ⟨hempty, hwhole, haligned, hinside⟩
  refine ⟨.entryOutOfRange (offset / wordBytes) (bytes.length / wordBytes), ?_,
    ⟨rfl, rfl, houtside⟩, fun other hother => ?_⟩
  · rw [ofBytes_of_whole hempty hwhole haligned, if_pos houtside]
  · cases other with
    | empty => exact absurd hother hempty
    | misalignedLength length => exact absurd hwhole hother.2
    | misalignedEntry entryOffset => exact absurd haligned hother.2
    | entryOutOfRange entry length => exact Nat.le_refl _

/-- A program is the same from its words and from the bytes of its words. -/
theorem ofBytes_flatMap (words : Array Word) (entry : Nat) :
    ofBytes (words.toList.flatMap bytesOfWord) (entry * wordBytes) = ofWords words entry := by
  by_cases hempty : words = #[]
  · rw [hempty]
    rfl
  have hpositive : 0 < words.toList.length := Array.size_pos_iff.2 hempty
  have hlength := length_flatMap_bytesOfWord words.toList
  have hsome : ¬ (words.toList.flatMap bytesOfWord).isEmpty = true := by
    rw [List.isEmpty_iff_length_eq_zero, hlength]
    exact Nat.ne_of_gt (Nat.mul_pos hpositive (by decide))
  have hwhole : (words.toList.flatMap bytesOfWord).length % wordBytes = 0 := by
    rw [hlength, Nat.mul_mod_left]
  rw [ofBytes, if_neg hsome, if_neg (not_not_intro hwhole),
    if_neg (not_not_intro (Nat.mul_mod_left entry wordBytes)), wordsOfBytes_flatMap,
    Array.toArray_toList, Nat.mul_div_cancel entry (by decide)]

/-- What success says: the bytes are an image, and the program is the one that it is. -/
theorem ofBytes_eq_ok {program : Program} (hload : ofBytes bytes offset = .ok program) :
    IsImage bytes offset ∧ program = ⟨(wordsOfBytes bytes).toArray, offset / wordBytes⟩ := by
  by_cases himage : IsImage bytes offset
  · exact ⟨himage, Except.ok.inj (hload.symm.trans (ofBytes_of_isImage himage))⟩
  · obtain ⟨error, herror, -⟩ := exists_error_of_not_isImage himage
    exact absurd (hload.symm.trans herror) nofun

theorem ofBytes_eq_error_iff {error : LoadError} :
    ofBytes bytes offset = .error error ↔ error.IsFirst bytes offset := by
  by_cases himage : IsImage bytes offset
  · refine iff_of_false (fun hload => ?_) (fun hfirst => LoadError.not_applies himage hfirst.applies)
    exact absurd ((ofBytes_of_isImage himage).symm.trans hload) nofun
  · obtain ⟨found, hfound, hfirst⟩ := exists_error_of_not_isImage himage
    rw [hfound, Except.error.injEq]
    exact ⟨fun hsame => hsame ▸ hfirst, hfirst.unique⟩

/-- Bytes and programs.  Bytes make a program exactly when they are an image: the program has one
word for every four bytes, starts where the image does, and its words are written as the same bytes
again.  Otherwise they are refused with the first error that applies.  And words with an entry come
to the same, a program or an error, when they are given as bytes. -/
theorem images_roundtrip (bytes : List Byte) (offset : Nat) (words : Array Word) (entry : Nat) :
    ((∃ program, ofBytes bytes offset = .ok program) ↔ IsImage bytes offset) ∧
      (∀ program, ofBytes bytes offset = .ok program →
        program.length = bytes.length / wordBytes ∧ program.entry = offset / wordBytes ∧
          program.bytes = bytes) ∧
      (∀ error, ofBytes bytes offset = .error error ↔ error.IsFirst bytes offset) ∧
      ofBytes (words.toList.flatMap bytesOfWord) (entry * wordBytes) = ofWords words entry := by
  refine ⟨⟨?loads, ?loaded⟩, ?same, fun _ => ofBytes_eq_error_iff, ofBytes_flatMap words entry⟩
  case loads =>
    rintro ⟨program, hload⟩
    exact (ofBytes_eq_ok hload).1
  case loaded => exact fun himage => ⟨_, ofBytes_of_isImage himage⟩
  case same =>
    intro program hload
    obtain ⟨himage, rfl⟩ := ofBytes_eq_ok hload
    exact ⟨length_wordsOfBytes himage.whole, rfl, flatMap_wordsOfBytes himage.whole⟩

/-- Two words, with the entry at the second one. -/
theorem images_roundtrip_two_words :
    let bytes : List Byte := [0x1F, 0x20, 0x03, 0xD5, 0xC0, 0x03, 0x5F, 0xD6]
    ∃ program, ofBytes bytes 4 = .ok program ∧ program.words = #[0xD503201F, 0xD65F03C0] ∧
      program.length = 2 ∧ program.entry = 1 ∧ program.bytes = bytes := by
  intro bytes
  obtain ⟨hloads, hsame, -⟩ := images_roundtrip bytes 4 #[] 0
  obtain ⟨program, hload⟩ := hloads.2 (by decide)
  obtain ⟨hlength, hentry, hbytes⟩ := hsame program hload
  have hwords : (ofBytes bytes 4).toOption.map Program.words = some #[0xD503201F, 0xD65F03C0] := by
    decide
  rw [hload] at hwords
  exact ⟨program, hload, Option.some.inj hwords, hlength.trans (by decide), hentry,
    hbytes⟩

end Program

end A64Machine
