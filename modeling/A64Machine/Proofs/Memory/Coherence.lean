import A64Machine.Memory.Cache
import A64Machine.Proofs.Memory.Splice

/-!
When a cache agrees with the words behind it: every word of a resident line that lies inside the
memory behind is clean and equal to the word there, and the rest of the line is empty.  Installing
a line and pushing a changed line through keep the agreement of the whole cache, because a slot
with a segment stands for one line of addresses and no other.
-/

namespace A64Machine

namespace CacheLine

/-- The line shows the words from `base` on: clean copies inside the memory, nothing past its end. -/
structure Mirrors (line : CacheLine) (words : Array Word) (base : Nat) : Prop where
  inside : ∀ (i : Nat) (hi : i < 64), base + i < words.size →
    line.states[i] = .clean ∧ words[base + i]? = some line.data[i]
  outside : ∀ (i : Nat) (hi : i < 64), words.size ≤ base + i → line.states[i] = .empty

theorem filled_mirrors {words : Array Word} {base : Nat} (segment : Nat)
    (hbase : base < words.size) :
    (filled segment (slice words base (Cache.lengthAt words.size base))).Mirrors words base := by
  have hlen : (slice words base (Cache.lengthAt words.size base)).length =
      min (words.size - base) 64 := by
    have hlength : Cache.lengthAt words.size base = min (words.size - base) 64 := rfl
    rw [hlength]
    exact length_slice (by omega)
  constructor
  · intro i hi hin
    have hplace : i < min (words.size - base) 64 := by omega
    have hslice : (slice words base (Cache.lengthAt words.size base))[i]? = words[base + i]? := by
      rw [getElem?_slice, if_pos]
      simpa only [Cache.lengthAt, lineSize] using hplace
    simp only [filled, getElem_overwrite, Nat.zero_le, ↓reduceIte, Nat.sub_zero,
      List.getElem?_replicate, hlen, hplace, Option.getD_some, hslice, true_and]
    rw [Array.getElem?_eq_getElem hin, Option.getD_some]
  · intro i hi hout
    have hplace : ¬ i < min (words.size - base) 64 := by omega
    simp [filled, getElem_overwrite, hlen, hplace]

theorem length_wordsAt (line : CacheLine) {offset count : Nat} (hline : offset + count ≤ 64) :
    (line.wordsAt offset count).length = count := by
  simp [wordsAt]
  omega

theorem getElem?_wordsAt (line : CacheLine) {offset count i : Nat} (hline : offset + count ≤ 64)
    (hi : i < count) : (line.wordsAt offset count)[i]? = some line.data[offset + i] := by
  have hplace : offset + i < 64 := by omega
  rw [wordsAt, Array.getElem?_toList, Array.getElem?_extract, if_pos (by simp; omega)]
  simp [hplace]

/-- The words of a line that shows its memory are the words of that memory. -/
theorem Mirrors.wordsAt_eq {line : CacheLine} {words : Array Word} {base offset count : Nat}
    (hline : line.Mirrors words base) (hcount : offset + count ≤ 64)
    (hin : base + offset + count ≤ words.size) :
    line.wordsAt offset count = slice words (base + offset) count := by
  apply List.ext_getElem?
  intro i
  by_cases hi : i < count
  · rw [getElem?_wordsAt line hcount hi, getElem?_slice, if_pos hi]
    have hword := (hline.inside (offset + i) (by omega) (by omega)).2
    rw [← hword, Nat.add_assoc]
  · have hlen := length_wordsAt line hcount
    rw [List.getElem?_eq_none (by omega), getElem?_slice, if_neg hi]

/-- A line still shows its memory after a block of another line was written there. -/
theorem Mirrors.splice_of_ne {line : CacheLine} {words : Array Word} {base start : Nat}
    {data : List Word} (hline : line.Mirrors words base) (haligned : 64 ∣ base)
    (hblock : start % 64 + data.length ≤ 64) (hother : base ≠ start / 64 * 64) :
    line.Mirrors (splice words start data) base := by
  obtain ⟨k, rfl⟩ := haligned
  have hdisjoint : ∀ i < 64, 64 * k + i < start ∨ start + data.length ≤ 64 * k + i := by
    intro i hi
    omega
  constructor
  · intro i hi hin
    rw [getElem?_splice_of_disjoint (hdisjoint i hi)]
    exact hline.inside i hi (by simpa using hin)
  · intro i hi hout
    exact hline.outside i hi (by simpa using hout)

theorem data_modifyWords (line : CacheLine) (offset : Nat) (data : List Word) (i : Nat)
    (hi : i < 64) : (line.modifyWords offset data).data[i] =
      if offset ≤ i then data[i - offset]?.getD line.data[i] else line.data[i] :=
  getElem_overwrite line.data offset data i hi

/-- Pushing a changed line to the memory behind has the effect of the change alone. -/
theorem Mirrors.splice_push {line : CacheLine} {words : Array Word} {base offset : Nat}
    {data : List Word} (hline : line.Mirrors words base) (hblock : offset + data.length ≤ 64)
    (_hin : base + offset + data.length ≤ words.size) :
    splice words base
        ((line.modifyWords offset data).wordsAt 0 (Cache.lengthAt words.size base)) =
      splice words (base + offset) data := by
  have hlength : 0 + Cache.lengthAt words.size base ≤ 64 := by
    simp only [Cache.lengthAt, lineSize]
    omega
  apply Array.ext_getElem?
  intro i
  rw [getElem?_splice, length_wordsAt _ hlength, getElem?_splice]
  by_cases hpushed : base ≤ i ∧ i < base + Cache.lengthAt words.size base ∧ i < words.size
  · have hi : i - base < Cache.lengthAt words.size base := by omega
    have hplace : i - base < 64 := by omega
    have hold := (hline.inside (i - base) hplace (by omega)).2
    have haddress : base + (i - base) = i := by omega
    rw [haddress] at hold
    rw [if_pos hpushed, getElem?_wordsAt _ hlength hi]
    simp only [Nat.zero_add, data_modifyWords]
    by_cases hstart : offset ≤ i - base
    · rw [if_pos hstart]
      by_cases hend : i < base + offset + data.length
      · have hoffset : i - (base + offset) = i - base - offset := by omega
        have hmem : i - base - offset < data.length := by omega
        rw [if_pos ⟨by omega, hend, by omega⟩, hoffset]
        simp [hmem]
      · have hmem : data.length ≤ i - base - offset := by omega
        rw [if_neg (by omega), hold]
        simp [hmem]
    · rw [if_neg hstart, if_neg (by omega), hold]
  · have hlen : Cache.lengthAt words.size base = min (words.size - base) 64 := rfl
    rw [if_neg hpushed]
    by_cases hmem : base + offset ≤ i ∧ i < base + offset + data.length ∧ i < words.size
    · omega
    · rw [if_neg hmem]

theorem states_modifyWords (line : CacheLine) (offset : Nat) (data : List Word) (i : Nat)
    (hi : i < 64) : (line.modifyWords offset data).states[i] =
      if offset ≤ i ∧ i < offset + data.length then .modified else line.states[i] := by
  refine (getElem_overwrite line.states offset _ i hi).trans ?_
  by_cases hstart : offset ≤ i
  · by_cases hend : i < offset + data.length
    · have hplace : i - offset < data.length := by omega
      simp [hstart, hend, hplace]
    · have hplace : ¬ i - offset < data.length := by omega
      simp [hstart, hend, hplace]
  · simp [hstart]

theorem states_settle (line : CacheLine) (count i : Nat) (hi : i < 64) :
    (line.settle count).states[i] =
      if i < count ∧ line.states[i] = .modified then .clean else line.states[i] := by
  simp [settle]

/-- After the push the line shows the memory behind again. -/
theorem Mirrors.push {line : CacheLine} {words : Array Word} {base offset : Nat}
    {data : List Word} (hline : line.Mirrors words base) (_hblock : offset + data.length ≤ 64)
    (hin : base + offset + data.length ≤ words.size) :
    ((line.modifyWords offset data).settle (Cache.lengthAt words.size base)).Mirrors
      (splice words (base + offset) data) base := by
  have hlength : Cache.lengthAt words.size base = min (words.size - base) 64 := rfl
  constructor
  · intro i hi hsize
    rw [size_splice] at hsize
    obtain ⟨hclean, hword⟩ := hline.inside i hi hsize
    rw [states_settle, states_modifyWords, hclean, getElem?_splice]
    refine ⟨by by_cases hmem : offset ≤ i ∧ i < offset + data.length <;> simp [hmem]; omega, ?_⟩
    change _ = some (line.modifyWords offset data).data[i]
    rw [data_modifyWords]
    by_cases hmem : offset ≤ i ∧ i < offset + data.length
    · have hplace : base + i - (base + offset) = i - offset := by omega
      have hin' : i - offset < data.length := by omega
      rw [if_pos ⟨by omega, by omega, hsize⟩, if_pos hmem.1, hplace]
      simp [hin']
    · rw [if_neg (by omega), hword]
      by_cases hstart : offset ≤ i
      · have hout : data.length ≤ i - offset := by omega
        simp [hstart, hout]
      · simp [hstart]
  · intro i hi hsize
    rw [size_splice] at hsize
    have hempty := hline.outside i hi hsize
    have hmem : ¬ (offset ≤ i ∧ i < offset + data.length) := by omega
    rw [states_settle, states_modifyWords, if_neg hmem, hempty]
    simp

end CacheLine

namespace Cache

/-- The capacity is one that a memory of `size` words accepts. -/
structure Fits (cache : Cache) (size : Nat) : Prop where
  positive : 0 < cache.capacity
  aligned : 64 ∣ cache.capacity
  bounded : cache.capacity ≤ maxCacheSize
  le_size : cache.capacity ≤ size

/-- The line in a slot; there is an empty one past the last slot. -/
def slot (cache : Cache) (number : Nat) : CacheLine :=
  cache.lines[number]?.getD {}

/-- Every slot with a segment shows its line of the words behind the cache; the others are empty. -/
structure Mirrors (cache : Cache) (words : Array Word) : Prop where
  vacant : ∀ number, (cache.slot number).segment = none → ∀ (i : Nat) (hi : i < 64),
    (cache.slot number).states[i] = .empty
  occupied : ∀ number segment, (cache.slot number).segment = some segment →
    segment * cache.capacity + number * 64 < words.size ∧
      (cache.slot number).Mirrors words (segment * cache.capacity + number * 64)

/-- The words that a write to a resident address pushes to the memory behind: its whole line. -/
def pushedWords (cache : Cache) (size address : Nat) (data : List Word) : List Word :=
  ((cache.modifyLine address (·.modifyWords (offsetOf address) data)).lineOf address).wordsAt 0
    (lengthAt size (cache.baseOf address))

/-- The cache after the write and the push. -/
def written (cache : Cache) (size address : Nat) (data : List Word) : Cache :=
  (cache.modifyLine address (·.modifyWords (offsetOf address) data)).modifyLine address
    (·.settle (lengthAt size (cache.baseOf address)))

theorem length_pushedWords (cache : Cache) (size address : Nat) (data : List Word) :
    (cache.pushedWords size address data).length = lengthAt size (cache.baseOf address) := by
  apply CacheLine.length_wordsAt
  simp only [lengthAt, lineSize]
  omega

/-- A new cache fits the memory it was built for, and every slot of it is empty. -/
theorem build_eq_ok {name : String} {policy : CachePolicy} {size backing : Nat} {cache : Cache}
    (hbuild : build name policy size backing = .ok cache) :
    cache.Fits backing ∧ cache.lines = Vector.replicate (cache.capacity / 64) {} := by
  unfold build at hbuild
  split at hbuild
  · contradiction
  split at hbuild
  · contradiction
  split at hbuild
  · contradiction
  split at hbuild
  · contradiction
  split at hbuild
  · contradiction
  rename_i hpositive haligned hbounded hsize
  obtain rfl := Except.ok.inj hbuild
  exact ⟨⟨Nat.pos_of_ne_zero hpositive,
    Nat.dvd_of_mod_eq_zero (Decidable.not_not.1 haligned), Nat.le_of_not_lt hbounded, Nat.le_of_not_lt hsize⟩, rfl⟩

/-- Only the slots of the cache have a segment. -/
theorem lt_of_segment_eq_some {cache : Cache} {number segment : Nat}
    (hsegment : (cache.slot number).segment = some segment) : number < cache.capacity / 64 := by
  by_cases hlt : number < cache.capacity / 64
  · exact hlt
  · simp [slot, hlt] at hsegment

theorem mirrors_of_empty {cache : Cache} (words : Array Word)
    (hempty : cache.lines = Vector.replicate (cache.capacity / 64) {}) : cache.Mirrors words := by
  have hslot : ∀ number, cache.slot number = {} := by
    intro number
    by_cases hlt : number < cache.capacity / 64 <;> simp [slot, hempty, hlt]
  constructor
  · intro number _ i hi
    simp [hslot]
  · intro number segment hsegment
    simp [hslot] at hsegment

section Geometry

variable {cache : Cache} {size : Nat}

theorem slotOf_lt (hfits : cache.Fits size) (address : Nat) :
    cache.slotOf address < cache.capacity / 64 := by
  obtain ⟨k, hk⟩ := hfits.aligned
  have hpositive := hfits.positive
  have hmod := Nat.mod_lt address hpositive
  simp only [slotOf, lineSize]
  omega

theorem baseOf_eq (hfits : cache.Fits size) (address : Nat) :
    cache.baseOf address = address / 64 * 64 := by
  obtain ⟨k, hk⟩ := hfits.aligned
  have hdiv := Nat.div_add_mod address cache.capacity
  rw [Nat.mul_comm] at hdiv
  simp only [baseOf, segmentOf, slotOf, lineSize]
  have hsplit : address / cache.capacity * cache.capacity =
      64 * (address / cache.capacity * k) := by
    conv => lhs; rhs; rw [hk]
    rw [Nat.mul_left_comm]
  omega

/-- A line of addresses belongs to one segment and one slot. -/
theorem eq_of_base_eq (hfits : cache.Fits size) {segment number address : Nat}
    (hnumber : number < cache.capacity / 64)
    (hbase : segment * cache.capacity + number * 64 = address / 64 * 64) :
    segment = cache.segmentOf address ∧ number = cache.slotOf address := by
  have hwithin : number * 64 < cache.capacity := by omega
  have haddress : segment * cache.capacity + number * 64 =
      cache.segmentOf address * cache.capacity + cache.slotOf address * 64 := by
    rw [hbase, ← baseOf_eq hfits]
    rfl
  have hother : cache.slotOf address * 64 < cache.capacity := by
    have hlt := slotOf_lt hfits address
    omega
  have hsegment : segment = cache.segmentOf address := by
    have hdiv := congrArg (· / cache.capacity) haddress
    simpa [Nat.mul_add_div hfits.positive, Nat.mul_comm _ cache.capacity,
      Nat.div_eq_of_lt hwithin, Nat.div_eq_of_lt hother] using hdiv
  subst hsegment
  exact ⟨rfl, by omega⟩

theorem slot_modifyLine (hfits : cache.Fits size) (address : Nat) (f : CacheLine → CacheLine)
    (number : Nat) : (cache.modifyLine address f).slot number =
      if cache.slotOf address = number then f (cache.lineOf address) else cache.slot number := by
  have hlt := slotOf_lt hfits address
  change ((cache.lines.setIfInBounds (cache.slotOf address) (f (cache.lineOf address)))[number]?).getD
    {} = _
  rw [Vector.getElem?_setIfInBounds]
  by_cases hsame : cache.slotOf address = number
  · subst hsame
    simp [hlt]
  · simp [hsame, slot]

theorem lineOf_modifyLine (hfits : cache.Fits size) (address : Nat) (f : CacheLine → CacheLine) :
    (cache.modifyLine address f).lineOf address = f (cache.lineOf address) := by
  have hslot := slot_modifyLine hfits address f (cache.slotOf address)
  rwa [if_pos rfl] at hslot

/-- Two changes of one line are one change. -/
theorem modifyLine_modifyLine (hfits : cache.Fits size) (address : Nat)
    (f g : CacheLine → CacheLine) : (cache.modifyLine address f).modifyLine address g =
      cache.modifyLine address fun line => g (f line) := by
  have hline := lineOf_modifyLine hfits address f
  unfold modifyLine at hline ⊢
  rw [hline]
  congr 1
  exact Vector.setIfInBounds_setIfInBounds ..

theorem Fits.record (hfits : cache.Fits size) (kind : AccessKind) (result : AccessResult) :
    (cache.record kind result).Fits size :=
  ⟨hfits.positive, hfits.aligned, hfits.bounded, hfits.le_size⟩

theorem Fits.modifyLine (hfits : cache.Fits size) (address : Nat) (f : CacheLine → CacheLine) :
    (cache.modifyLine address f).Fits size :=
  ⟨hfits.positive, hfits.aligned, hfits.bounded, hfits.le_size⟩

theorem Fits.clear (hfits : cache.Fits size) : cache.clear.Fits size :=
  ⟨hfits.positive, hfits.aligned, hfits.bounded, hfits.le_size⟩

theorem Fits.written (hfits : cache.Fits size) (address : Nat) (data : List Word) :
    (cache.written size address data).Fits size :=
  (hfits.modifyLine _ _).modifyLine _ _

theorem Fits.install (hfits : cache.Fits size) (address : Nat) (words : List Word) :
    (cache.install address words).Fits size :=
  hfits.modifyLine address _

theorem isResident_iff {address : Nat} :
    cache.isResident address ↔
      (cache.lineOf address).segment = some (cache.segmentOf address) := by
  simp [isResident]

theorem isResident_install (hfits : cache.Fits size) (address : Nat) (words : List Word) :
    (cache.install address words).isResident address := by
  rw [isResident_iff, install, lineOf_modifyLine hfits]
  rfl

end Geometry

namespace Mirrors

variable {cache : Cache} {words : Array Word} {address : Nat}

theorem record (hmirrors : cache.Mirrors words) (kind : AccessKind) (result : AccessResult) :
    (cache.record kind result).Mirrors words :=
  ⟨hmirrors.vacant, hmirrors.occupied⟩

/-- The line of a resident address. -/
theorem lineOf (hmirrors : cache.Mirrors words) (hfits : cache.Fits words.size)
    (hresident : cache.isResident address) :
    (cache.lineOf address).Mirrors words (address / 64 * 64) := by
  rw [isResident_iff] at hresident
  rw [← baseOf_eq hfits]
  exact (hmirrors.occupied _ _ hresident).2

/-- Filling a slot from the words behind. -/
theorem install (hmirrors : cache.Mirrors words) (hfits : cache.Fits words.size)
    (hin : address < words.size) :
    (cache.install address (slice words (cache.baseOf address)
      (lengthAt words.size (cache.baseOf address)))).Mirrors words := by
  have hbase : cache.baseOf address < words.size := by
    rw [baseOf_eq hfits]
    omega
  constructor
  · intro number hnone
    rw [Cache.install, slot_modifyLine hfits] at hnone ⊢
    by_cases hsame : cache.slotOf address = number
    · rw [if_pos hsame] at hnone
      contradiction
    · rw [if_neg hsame] at hnone ⊢
      exact hmirrors.vacant number hnone
  · intro number segment hsome
    rw [Cache.install, slot_modifyLine hfits] at hsome ⊢
    by_cases hsame : cache.slotOf address = number
    · rw [if_pos hsame] at hsome ⊢
      obtain rfl := Option.some.inj hsome
      subst hsame
      exact ⟨hbase, CacheLine.filled_mirrors _ hbase⟩
    · rw [if_neg hsame] at hsome ⊢
      exact hmirrors.occupied number segment hsome

/-- The words of a resident line are the words behind. -/
theorem wordsAt (hmirrors : cache.Mirrors words) (hfits : cache.Fits words.size)
    (hresident : cache.isResident address) {count : Nat} (hblock : address % 64 + count ≤ 64)
    (hin : address + count ≤ words.size) :
    cache.wordsAt address count = slice words address count := by
  have hline := hmirrors.lineOf hfits hresident
  have haddress : address / 64 * 64 + address % 64 = address := by omega
  rw [Cache.wordsAt, offsetOf, lineSize, hline.wordsAt_eq hblock (by omega), haddress]

theorem data (hmirrors : cache.Mirrors words) (hfits : cache.Fits words.size)
    (hresident : cache.isResident address) (hin : address < words.size) :
    (cache.lineOf address).data[offsetOf address]? = words[address]? := by
  have hplace : address % 64 < 64 := Nat.mod_lt _ (by omega)
  have haddress : address / 64 * 64 + address % 64 = address := by omega
  have hline := (hmirrors.lineOf hfits hresident).inside (address % 64) hplace (by omega)
  rw [haddress] at hline
  rw [offsetOf, lineSize, Vector.getElem?_eq_getElem hplace, hline.2]

/-- A block written behind the cache leaves every line alone but the one of its addresses. -/
theorem occupied_splice (hmirrors : cache.Mirrors words) (hfits : cache.Fits words.size)
    {data : List Word} (hblock : address % 64 + data.length ≤ 64) {number segment : Nat}
    (hsome : (cache.slot number).segment = some segment)
    (hother : ¬ (segment = cache.segmentOf address ∧ number = cache.slotOf address)) :
    segment * cache.capacity + number * 64 < (splice words address data).size ∧
      (cache.slot number).Mirrors (splice words address data)
        (segment * cache.capacity + number * 64) := by
  obtain ⟨hbase, hline⟩ := hmirrors.occupied number segment hsome
  have hne : segment * cache.capacity + number * 64 ≠ address / 64 * 64 := by
    intro hsame
    exact hother (eq_of_base_eq hfits (lt_of_segment_eq_some hsome) hsame)
  have haligned : 64 ∣ segment * cache.capacity + number * 64 :=
    Nat.dvd_add (Nat.dvd_trans hfits.aligned (Nat.dvd_mul_left _ _)) (Nat.dvd_mul_left _ _)
  rw [size_splice]
  exact ⟨hbase, hline.splice_of_ne haligned hblock hne⟩

/-- A write that passes the cache by leaves its lines in agreement with the words behind. -/
theorem bypass (hmirrors : cache.Mirrors words) (hfits : cache.Fits words.size)
    (hresident : ¬ cache.isResident address) {data : List Word}
    (hblock : address % 64 + data.length ≤ 64) :
    cache.Mirrors (splice words address data) := by
  refine ⟨hmirrors.vacant, ?_⟩
  intro number segment hsome
  apply hmirrors.occupied_splice hfits hblock hsome
  rintro ⟨rfl, rfl⟩
  exact hresident (isResident_iff.2 hsome)

/-- Pushing the line of a resident address has the effect of the write alone. -/
theorem splice_pushedWords (hmirrors : cache.Mirrors words) (hfits : cache.Fits words.size)
    (hresident : cache.isResident address) {data : List Word}
    (hblock : address % 64 + data.length ≤ 64) (hin : address + data.length ≤ words.size) :
    splice words (cache.baseOf address) (cache.pushedWords words.size address data) =
      splice words address data := by
  have haddress : address / 64 * 64 + address % 64 = address := by omega
  rw [pushedWords, lineOf_modifyLine hfits, baseOf_eq hfits, offsetOf, lineSize,
    (hmirrors.lineOf hfits hresident).splice_push hblock (by omega), haddress]

/-- A write to a resident line that is pushed through leaves the lines in agreement too. -/
theorem written (hmirrors : cache.Mirrors words) (hfits : cache.Fits words.size)
    (hresident : cache.isResident address) {data : List Word}
    (hblock : address % 64 + data.length ≤ 64) (hin : address + data.length ≤ words.size) :
    (cache.written words.size address data).Mirrors (splice words address data) := by
  rw [Cache.written, modifyLine_modifyLine hfits]
  have haddress : address / 64 * 64 + address % 64 = address := by omega
  have hline := (hmirrors.lineOf hfits hresident).push hblock (by omega)
  rw [haddress, ← baseOf_eq hfits] at hline
  rw [isResident_iff] at hresident
  have hbase := (hmirrors.occupied _ _ hresident).1
  constructor
  · intro number hnone
    rw [slot_modifyLine hfits] at hnone ⊢
    by_cases hsame : cache.slotOf address = number
    · rw [if_pos hsame] at hnone
      exact absurd (hresident.symm.trans hnone) (by simp)
    · rw [if_neg hsame] at hnone ⊢
      exact hmirrors.vacant number hnone
  · intro number segment hsome
    rw [slot_modifyLine hfits] at hsome ⊢
    by_cases hsame : cache.slotOf address = number
    · rw [if_pos hsame] at hsome ⊢
      obtain rfl := Option.some.inj (hresident.symm.trans hsome)
      subst hsame
      rw [size_splice]
      exact ⟨hbase, hline⟩
    · rw [if_neg hsame] at hsome ⊢
      exact hmirrors.occupied_splice hfits hblock hsome fun hplace => hsame hplace.2.symm

end Mirrors

end Cache

end A64Machine
