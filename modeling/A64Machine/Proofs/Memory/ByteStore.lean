import Mathlib.Algebra.Group.Nat.Defs
import A64Machine.Proofs.Execution.StepFrame

/-!
The memory of a unit as a store of bytes over two regions.  A store is seen by the loads of its range
and by no other, a doubleword is its two words with the low one first, and what happens in one of the
regions is not noticed in the other.
-/

namespace A64Machine

def lowBytes (value : Doubleword) (bytes : Nat) : Doubleword :=
  BitVec.ofNat 64 (value.toNat % 2 ^ (8 * bytes))

/-- Whether two ranges of bytes have no byte in common. -/
def Access.Apart (access other : Access) : Prop :=
  access.address.toNat + access.bytes ≤ other.address.toNat ∨
    other.address.toNat + other.bytes ≤ access.address.toNat

/-- A doubleword from its words. -/
def joinWords (low high : Doubleword) : Doubleword := high <<< 32 ||| low

/-- The answer for a doubleword from those for its words; a fault of the low word comes first. -/
def joinAnswers (low high : Except FaultCode Doubleword) : Except FaultCode Doubleword := do
  let low ← low
  let high ← high
  pure (joinWords low high)

theorem lowBytes_four (value : Doubleword) :
    (value.setWidth 32).setWidth 64 = lowBytes value 4 := by
  apply BitVec.eq_of_toNat_eq
  have hlow : value.toNat % 2 ^ 32 < 2 ^ 64 := by omega
  rw [BitVec.toNat_setWidth, BitVec.toNat_setWidth, Nat.mod_eq_of_lt hlow, lowBytes,
    BitVec.toNat_ofNat, Nat.mod_eq_of_lt hlow]

theorem lowBytes_whole (value : Doubleword) : lowBytes value 8 = value := by
  rw [lowBytes, Nat.mod_eq_of_lt value.isLt, BitVec.ofNat_toNat, BitVec.setWidth_eq]

theorem lowBytes_eight (value : Doubleword) :
    (value >>> 32).setWidth 32 ++ value.setWidth 32 = lowBytes value 8 := by
  rw [lowBytes_whole]
  apply BitVec.eq_of_getLsbD_eq
  intro i hi
  rw [BitVec.getLsbD_append, BitVec.getLsbD_setWidth, BitVec.getLsbD_setWidth,
    BitVec.getLsbD_ushiftRight]
  split
  case isTrue hlow => simp [hlow]
  case isFalse hhigh =>
    have hplace : 32 + (i - 32) = i := by omega
    simp [hplace, show i - 32 < 32 by omega]

theorem append_eq_joinWords (high low : Word) :
    high ++ low = joinWords (low.setWidth 64) (high.setWidth 64) := by
  unfold joinWords
  apply BitVec.eq_of_getLsbD_eq
  intro i hi
  simp only [BitVec.getLsbD_append, BitVec.getLsbD_or, BitVec.getLsbD_shiftLeft,
    BitVec.getLsbD_setWidth]
  by_cases hlow : i < 32
  · simp [hlow, show i < 64 by omega]
  · simp [hlow, BitVec.getLsbD_of_ge low i (by omega), show i - 32 < 64 by omega, hi]

namespace AddressMap

variable {map : AddressMap} {address : Doubleword} {bytes : Nat} {location : Location}

/-- What it means that an access is mapped. -/
theorem resolve_eq_ok_iff : map.resolve address bytes = .ok location ↔
    address.toNat % wordBytes = 0 ∧ map.Mapped address.toNat bytes ∧
      location = map.locate address := by
  rw [resolve_eq]
  split
  case isTrue hmisaligned => simp [hmisaligned]
  case isFalse haligned =>
    rw [Decidable.not_not] at haligned
    split
    case isTrue hmapped => simp [haligned, hmapped, eq_comm]
    case isFalse hmapped => simp [hmapped]

theorem fault?_eq_none_iff : map.fault? address bytes = none ↔
    ∃ location, map.resolve address bytes = .ok location := by
  unfold fault?
  cases map.resolve address bytes with
  | error cause => simp [faultOf]
  | ok location => simp [faultOf]

theorem region_locate (map : AddressMap) (address : Doubleword) :
    (map.locate address).region = if map.InWindow address then .stack else .hierarchy := by
  unfold locate
  split <;> rfl

theorem locate_of_inWindow (hwindow : map.InWindow address) :
    map.locate address = ⟨.stack, (address.toNat - stackBase) / wordBytes⟩ := if_pos hwindow

/-- The place of a word in bytes. -/
theorem locate_word (map : AddressMap) (haligned : address.toNat % wordBytes = 0) :
    (map.locate address).word * wordBytes =
      address.toNat - if map.InWindow address then stackBase else 0 := by
  unfold locate
  split
  case isTrue hwindow =>
    have hbase : stackBase ≤ address.toNat := hwindow.1
    simp only [wordBytes, stackBase] at *
    omega
  case isFalse => simp only [wordBytes] at *; omega

/-- A location that is not one of the words of an access: the words of a range apart from it. -/
theorem not_covers_of_apart {access other : Access}
    (hother : map.resolve other.address other.bytes = .ok location) (hapart : access.Apart other)
    {place : Nat} (hplace : place * wordBytes < other.bytes) :
    ¬ access.Covers map ⟨location.region, location.word + place⟩ := by
  rintro ⟨first, hfirst, hregion, hstart, hend⟩
  obtain ⟨haligned, -, rfl⟩ := resolve_eq_ok_iff.1 hfirst
  obtain ⟨haligned', -, rfl⟩ := resolve_eq_ok_iff.1 hother
  have hword := locate_word map haligned
  have hword' := locate_word map haligned'
  simp only [region_locate] at hregion
  simp only [wordBytes, Access.Apart] at *
  by_cases hwindow : map.InWindow access.address <;>
    by_cases hwindow' : map.InWindow other.address <;>
    simp only [hwindow, hwindow', if_true, if_false, reduceCtorEq] at hregion hword hword'
  · have hbase : stackBase ≤ access.address.toNat := hwindow.1
    have hbase' : stackBase ≤ other.address.toNat := hwindow'.1
    omega
  · omega

theorem toNat_add_four (address : Doubleword) :
    (address + 4).toNat = (address.toNat + 4) % 2 ^ 64 := BitVec.toNat_add ..

/-- Whether the words of a doubleword are the last of the hierarchy and the first of the stack, when
nothing lies between the two. -/
def Straddles (map : AddressMap) (address : Doubleword) : Prop :=
  map.hierarchyWords * wordBytes = stackBase ∧ address.toNat + 4 = stackBase

instance (map : AddressMap) (address : Doubleword) : Decidable (map.Straddles address) :=
  inferInstanceAs (Decidable (_ ∧ _))

/-- A doubleword in one region is mapped when both its words are. -/
theorem mapped_eight_iff (hends : map.hierarchyWords * wordBytes ≤ stackBase)
    (haligned : address.toNat % wordBytes = 0) (hregion : ¬ map.Straddles address) :
    map.Mapped address.toNat 8 ↔ map.Mapped address.toNat 4 ∧ map.Mapped (address + 4).toNat 4 := by
  have hbits : byteAddresses = 2 ^ 64 := rfl
  have hlt := address.isLt
  simp only [Straddles, Mapped, toNat_add_four, hbits, stackTop, stackBase, wordBytes] at *
  omega

theorem not_mapped_of_straddles (hstraddles : map.Straddles address) :
    ¬ map.Mapped address.toNat 8 := by
  simp only [Straddles, Mapped, stackTop, stackBase, wordBytes] at *
  omega

/-- A word in the region of the word before it has the next place there. -/
theorem locate_add_four_of_sameRegion (hnext : (address + 4).toNat = address.toNat + 4)
    (hsame : map.InWindow (address + 4) ↔ map.InWindow address) :
    map.locate (address + 4) = UnitWords.next (map.locate address) := by
  unfold locate UnitWords.next
  by_cases hwindow : map.InWindow address
  · have hbase : stackBase ≤ address.toNat := hwindow.1
    rw [if_pos hwindow, if_pos (hsame.2 hwindow), hnext, Location.mk.injEq]
    refine ⟨rfl, ?_⟩
    simp only [wordBytes]
    omega
  · rw [if_neg hwindow, if_neg (mt hsame.1 hwindow), hnext, Location.mk.injEq]
    refine ⟨rfl, ?_⟩
    simp only [wordBytes]
    omega

/-- The high word of a mapped doubleword comes after its low word. -/
theorem locate_add_four (hends : map.hierarchyWords * wordBytes ≤ stackBase)
    (haligned : address.toNat % wordBytes = 0) (hmapped : map.Mapped address.toNat 8) :
    map.locate (address + 4) = UnitWords.next (map.locate address) := by
  have hbits : byteAddresses = 2 ^ 64 := rfl
  have hnext : (address + 4).toNat = address.toNat + 4 := by
    rw [toNat_add_four, Nat.mod_eq_of_lt (by have := hmapped.1; omega)]
  refine locate_add_four_of_sameRegion hnext ?_
  simp only [Mapped, InWindow, hnext, stackTop, stackBase, wordBytes] at *
  omega

end AddressMap

namespace UnitWords

variable {words : UnitWords} {address : Doubleword}

/-- A word that was written is there afterwards. -/
theorem wordAt_setWord_self {location : Location} (value : Word)
    (hin : location.word < words.map.regionWords location.region) :
    (words.setWord location value).wordAt location = value := by
  obtain ⟨region, word⟩ := location
  have hplace : [value][word - word]? = some value := by rw [Nat.sub_self]; rfl
  cases region with
  | stack =>
    have hsize : word < words.stack.size := hin
    simp only [setWord, wordAt, getElem?_splice, hplace, List.length_singleton]
    rw [if_pos ⟨Nat.le_refl _, Nat.lt_succ_self _, hsize⟩, Option.getD_some]
  | hierarchy =>
    have hsize : word < words.ram.size := hin
    simp only [setWord, wordAt, getElem?_splice, hplace, List.length_singleton]
    rw [if_pos ⟨Nat.le_refl _, Nat.lt_succ_self _, hsize⟩, Option.getD_some]

theorem load_four (words : UnitWords) (address : Doubleword) :
    words.load address 4 =
      (words.map.resolve address 4).map fun location => (words.wordAt location).setWidth 64 := by
  unfold load
  cases words.map.resolve address 4 <;> rfl

theorem load_eight (words : UnitWords) (address : Doubleword) :
    words.load address 8 = (words.map.resolve address 8).map fun location =>
      words.wordAt (next location) ++ words.wordAt location := by
  unfold load
  cases words.map.resolve address 8 <;> rfl

/-- A load of the range of a store answers what was stored. -/
theorem load_store_self {bytes : Nat} (hbytes : bytes = 4 ∨ bytes = 8) (value : Doubleword)
    (hmapped : words.map.fault? address bytes = none) :
    (words.store address bytes value).load address bytes = .ok (lowBytes value bytes) := by
  obtain ⟨location, hresolve⟩ := AddressMap.fault?_eq_none_iff.1 hmapped
  have hmap : (words.store address bytes value).map = words.map := map_store ⟨address, bytes⟩ value
  rcases hbytes with rfl | rfl
  · obtain ⟨hlow, -⟩ := AddressMap.resolve_in_range hresolve (by decide)
    rw [load_four, hmap, hresolve, store, hresolve]
    simp only [wordBytes, Nat.le_refl, if_true, Except.map, wordAt_setWord_self _ hlow,
      lowBytes_four]
  · obtain ⟨hlow, hhigh⟩ := AddressMap.resolve_in_range hresolve (by decide)
    have hnext : next location ≠ location := by
      intro hsame
      exact absurd (congrArg Location.word hsame) (Nat.succ_ne_self _)
    have hin : (next location).word <
        (words.setWord location (value.setWidth 32)).map.regionWords (next location).region := by
      rw [map_setWord]
      exact hhigh (by decide)
    rw [load_eight, hmap, hresolve, store, hresolve]
    simp only [wordBytes, show ¬ 8 ≤ 4 by decide, if_false, Except.map,
      wordAt_setWord_self _ hin, wordAt_setWord _ hnext.symm, wordAt_setWord_self _ hlow,
      lowBytes_eight]

/-- A store is not seen by the loads of ranges apart from it. -/
theorem load_store_of_apart {access other : Access} (hbytes : 0 < access.bytes)
    (hother : other.bytes = 4 ∨ other.bytes = 8) (hapart : access.Apart other) (value : Doubleword) :
    (words.store access.address access.bytes value).load other.address other.bytes =
      words.load other.address other.bytes := by
  obtain ⟨address, bytes⟩ := other
  have hmap : (words.store access.address access.bytes value).map = words.map :=
    map_store access value
  generalize hstored : words.store access.address access.bytes value = stored at hmap ⊢
  have hword {location : Location} (hresolve : words.map.resolve address bytes = .ok location)
      (place : Nat) (hplace : place * wordBytes < bytes) :
      stored.wordAt ⟨location.region, location.word + place⟩ =
        words.wordAt ⟨location.region, location.word + place⟩ := by
    rw [← hstored]
    exact wordAt_store hbytes value (AddressMap.not_covers_of_apart hresolve hapart hplace)
  rcases hother with rfl | rfl
  · rw [load_four, load_four, hmap]
    cases hresolve : words.map.resolve address 4 with
    | error cause => simp only [Except.map]
    | ok location =>
      have hlow : stored.wordAt location = words.wordAt location := hword hresolve 0 (by decide)
      simp only [Except.map, hlow]
  · rw [load_eight, load_eight, hmap]
    cases hresolve : words.map.resolve address 8 with
    | error cause => simp only [Except.map]
    | ok location =>
      have hlow : stored.wordAt location = words.wordAt location := hword hresolve 0 (by decide)
      have hhigh : stored.wordAt (next location) = words.wordAt (next location) :=
        hword hresolve 1 (by decide)
      simp only [Except.map, hlow, hhigh]

/-- A doubleword is its two words. -/
theorem load_eight_eq_join (hends : words.map.hierarchyWords * wordBytes ≤ stackBase) :
    words.load address 8 =
      if words.map.Straddles address then .error .dataAbort
      else joinAnswers (words.load address 4) (words.load (address + 4) 4) := by
  rw [load_eight, load_four, load_four]
  simp only [AddressMap.resolve_eq]
  by_cases haligned : address.toNat % wordBytes = 0
  case neg =>
    have hregion : ¬ words.map.Straddles address := by
      simp only [AddressMap.Straddles, wordBytes, stackBase] at *
      omega
    rw [if_pos haligned, if_neg hregion, if_pos haligned]
    rfl
  have hnext : (address + 4).toNat % wordBytes = 0 := by
    rw [AddressMap.toNat_add_four]
    simp only [wordBytes] at *
    omega
  rw [if_neg (Decidable.not_not.2 haligned), if_neg (Decidable.not_not.2 haligned),
    if_neg (Decidable.not_not.2 hnext)]
  by_cases hstraddles : words.map.Straddles address
  · rw [if_pos hstraddles, if_neg (AddressMap.not_mapped_of_straddles hstraddles)]
    rfl
  have hboth := AddressMap.mapped_eight_iff hends haligned hstraddles
  rw [if_neg hstraddles]
  by_cases hmapped : words.map.Mapped address.toNat 8
  · obtain ⟨hlow, hhigh⟩ := hboth.1 hmapped
    rw [if_pos hmapped, if_pos hlow, if_pos hhigh,
      AddressMap.locate_add_four hends haligned hmapped]
    exact congrArg Except.ok (append_eq_joinWords _ _)
  · rw [if_neg hmapped]
    by_cases hlow : words.map.Mapped address.toNat 4
    · rw [if_pos hlow, if_neg fun hhigh => hmapped (hboth.2 ⟨hlow, hhigh⟩)]
      rfl
    · rw [if_neg hlow]
      rfl

/-- Below the stack window a fetch is the load of a word. -/
theorem fetch_eq_load (hends : words.map.hierarchyWords * wordBytes ≤ stackBase)
    (hbelow : ¬ words.map.InWindow address) :
    (words.fetch address).map (fun word => word.setWidth 64) = words.load address 4 := by
  rw [load_four, AddressMap.resolve_eq, fetch]
  by_cases haligned : address.toNat % wordBytes ≠ 0
  · rw [if_pos haligned, if_pos haligned]
    rfl
  rw [if_neg haligned, if_neg haligned]
  have hmapped : words.map.Mapped address.toNat 4 ↔
      ¬ words.ram.size ≤ address.toNat / wordBytes := by
    have hbits : byteAddresses = 2 ^ 64 := rfl
    simp only [AddressMap.Mapped, AddressMap.InWindow, UnitWords.map, hbits,
      AddressMap.stackTop, stackBase, wordBytes] at *
    omega
  by_cases hout : words.ram.size ≤ address.toNat / wordBytes
  · rw [if_pos hout, if_neg (mt hmapped.1 (Decidable.not_not.2 hout))]
    rfl
  · rw [if_neg hout, if_pos (hmapped.2 hout), AddressMap.locate, if_neg hbelow]
    rfl

end UnitWords

namespace UnitMemory

def loaded (memory : UnitMemory) (address : Doubleword) (bytes : Nat) :
    Except Violation (Except FaultCode Doubleword) :=
  (memory.load address bytes).map Prod.fst

def fetched (memory : UnitMemory) (pc : Doubleword) : Except Violation (Except FaultCode Word) :=
  (memory.fetch pc).map Prod.fst

/-- Nothing is different in the other region. -/
def KeepsBeyond (memory : UnitMemory) (region : Region) (after : UnitMemory) : Prop :=
  match region with
  | .stack => after.hierarchy = memory.hierarchy
  | .hierarchy => after.stack = memory.stack

section Regions

variable {memory middle after : UnitMemory} {region : Region} {address : Doubleword} {bytes : Nat}

theorem KeepsBeyond.refl (memory : UnitMemory) (region : Region) :
    memory.KeepsBeyond region memory := by
  cases region <;> rfl

theorem KeepsBeyond.trans (hfirst : memory.KeepsBeyond region middle)
    (hsecond : middle.KeepsBeyond region after) : memory.KeepsBeyond region after := by
  cases region with
  | stack => exact Eq.trans hsecond hfirst
  | hierarchy => exact Eq.trans hsecond hfirst

theorem onStack_keepsBeyond {α : Type} {call : Ram → Except Violation (Reply Ram α)} {value : α}
    (hcall : memory.onStack call = .ok (value, after)) : memory.KeepsBeyond .stack after := by
  obtain ⟨reply, -, hreply⟩ := bind_eq_ok hcall
  obtain ⟨-, rfl⟩ := Prod.mk.inj (Except.ok.inj hreply)
  rfl

theorem onHierarchy_keepsBeyond {α : Type} {call : Memory → Except Violation (Reply Memory α)}
    {value : α} (hcall : memory.onHierarchy call = .ok (value, after)) :
    memory.KeepsBeyond .hierarchy after := by
  obtain ⟨reply, -, hreply⟩ := bind_eq_ok hcall
  obtain ⟨-, rfl⟩ := Prod.mk.inj (Except.ok.inj hreply)
  rfl

theorem readWord_keepsBeyond {location : Location} {word : Word}
    (hread : memory.readWord location = .ok (word, after)) :
    memory.KeepsBeyond location.region after := by
  unfold readWord at hread
  cases hregion : location.region with
  | stack => exact onStack_keepsBeyond (by simpa only [hregion] using hread)
  | hierarchy => exact onHierarchy_keepsBeyond (by simpa only [hregion] using hread)

theorem writeWord_keepsBeyond {location : Location} {value : Word} {answer : Unit}
    (hwrite : memory.writeWord location value = .ok (answer, after)) :
    memory.KeepsBeyond location.region after := by
  unfold writeWord at hwrite
  cases hregion : location.region with
  | stack => exact onStack_keepsBeyond (by simpa only [hregion] using hwrite)
  | hierarchy => exact onHierarchy_keepsBeyond (by simpa only [hregion] using hwrite)

theorem keepsBeyond_locate_iff :
    memory.KeepsBeyond (memory.map.locate address).region after ↔
      if memory.map.InWindow address then after.hierarchy = memory.hierarchy
      else after.stack = memory.stack := by
  rw [AddressMap.region_locate]
  split <;> rfl

/-- A load leaves the region alone that it does not belong to. -/
theorem load_keepsBeyond {answer : Except FaultCode Doubleword}
    (hload : memory.load address bytes = .ok (answer, after)) :
    memory.KeepsBeyond (memory.map.locate address).region after := by
  unfold load at hload
  cases hresolve : memory.map.resolve address bytes with
  | error cause =>
    rw [hresolve] at hload
    obtain ⟨-, rfl⟩ := Prod.mk.inj (Except.ok.inj hload)
    exact .refl memory _
  | ok location =>
    rw [hresolve] at hload
    obtain ⟨-, -, hlocation⟩ := AddressMap.resolve_eq_ok_iff.1 hresolve
    rw [← hlocation]
    obtain ⟨⟨low, middle⟩, hlow, hrest⟩ := bind_eq_ok hload
    have hfirst := readWord_keepsBeyond hlow
    simp only at hrest
    split at hrest
    · obtain ⟨-, rfl⟩ := Prod.mk.inj (Except.ok.inj hrest)
      exact hfirst
    · obtain ⟨⟨high, final⟩, hhigh, hend⟩ := bind_eq_ok hrest
      obtain ⟨-, rfl⟩ := Prod.mk.inj (Except.ok.inj hend)
      have hsecond := readWord_keepsBeyond hhigh
      exact hfirst.trans hsecond

/-- A store leaves the region alone that it does not belong to. -/
theorem store_keepsBeyond {value : Doubleword}
    (hstore : memory.store address bytes value = .ok after) :
    memory.KeepsBeyond (memory.map.locate address).region after := by
  unfold store at hstore
  cases hresolve : memory.map.resolve address bytes with
  | error cause =>
    rw [hresolve] at hstore
    cases hstore
  | ok location =>
    rw [hresolve] at hstore
    obtain ⟨-, -, hlocation⟩ := AddressMap.resolve_eq_ok_iff.1 hresolve
    rw [← hlocation]
    obtain ⟨⟨_, middle⟩, hlow, hrest⟩ := bind_eq_ok hstore
    have hfirst := writeWord_keepsBeyond hlow
    simp only at hrest
    split at hrest
    · obtain rfl := Except.ok.inj hrest
      exact hfirst
    · obtain ⟨⟨_, final⟩, hhigh, hend⟩ := bind_eq_ok hrest
      obtain rfl := Except.ok.inj hend
      have hsecond := writeWord_keepsBeyond hhigh
      exact hfirst.trans hsecond

/-- A fetch leaves the stack alone. -/
theorem fetch_keepsBeyond {answer : Except FaultCode Word}
    (hfetch : memory.fetch address = .ok (answer, after)) : memory.KeepsBeyond .hierarchy after := by
  unfold fetch at hfetch
  split at hfetch
  · obtain ⟨-, rfl⟩ := Prod.mk.inj (Except.ok.inj hfetch)
    rfl
  split at hfetch
  · obtain ⟨-, rfl⟩ := Prod.mk.inj (Except.ok.inj hfetch)
    rfl
  obtain ⟨⟨word, final⟩, hread, hend⟩ := bind_eq_ok hfetch
  obtain ⟨-, rfl⟩ := Prod.mk.inj (Except.ok.inj hend)
  exact onHierarchy_keepsBeyond hread

/-- A fetch in the stack window leaves the hierarchy alone too: there is nothing to fetch. -/
theorem fetch_keepsBeyond_window {answer : Except FaultCode Word}
    (hends : memory.map.hierarchyWords * wordBytes ≤ stackBase)
    (hwindow : memory.map.InWindow address) (hfetch : memory.fetch address = .ok (answer, after)) :
    memory.KeepsBeyond .stack after := by
  unfold fetch at hfetch
  split at hfetch
  · obtain ⟨-, rfl⟩ := Prod.mk.inj (Except.ok.inj hfetch)
    rfl
  have hout : memory.hierarchy.size ≤ address.toNat / wordBytes := by
    have hbase : stackBase ≤ address.toNat := hwindow.1
    have hsize : memory.map.hierarchyWords = memory.hierarchy.size := rfl
    simp only [wordBytes] at *
    omega
  rw [if_pos hout] at hfetch
  obtain ⟨-, rfl⟩ := Prod.mk.inj (Except.ok.inj hfetch)
  rfl

end Regions

section Answers

variable {memory after : UnitMemory} {address : Doubleword} {bytes : Nat}

theorem loaded_eq (hformed : memory.WellFormed) (hcoherent : memory.Coherent)
    (address : Doubleword) (hbytes : 0 < bytes) :
    memory.loaded address bytes = .ok (memory.words.load address bytes) := by
  obtain ⟨answer, after, hload, -, hserves⟩ := memory.load_serves hformed address hbytes
  rw [loaded, hload, ← hserves.value_eq hcoherent]
  rfl

theorem fetched_eq (hformed : memory.WellFormed) (hcoherent : memory.Coherent)
    (pc : Doubleword) : memory.fetched pc = .ok (memory.words.fetch pc) := by
  obtain ⟨answer, after, hfetch, hserves⟩ := memory.fetch_serves hformed pc
  rw [fetched, hfetch, ← hserves.value_eq hcoherent]
  rfl

theorem pos_of_sized (hbytes : bytes = 4 ∨ bytes = 8) : 0 < bytes := by omega

end Answers

/-- What makes the memory of a unit a store of bytes over two regions, for accesses of a word or a
doubleword. -/
structure StoresBytes (memory : UnitMemory) : Prop where
  /-- A load always answers, and a probe says beforehand whether with a fault, and with which. -/
  probe_eq : ∀ address bytes, bytes = 4 ∨ bytes = 8 → ∃ answer,
    memory.loaded address bytes = .ok answer ∧
      memory.probe address bytes = answer.map fun _ => ()
  /-- What a store leaves is loaded from its range, and every range apart from it is as it was. -/
  store : ∀ address bytes value, bytes = 4 ∨ bytes = 8 → memory.probe address bytes = .ok () →
    ∃ after, memory.store address bytes value = .ok after ∧
      after.loaded address bytes = .ok (.ok (lowBytes value bytes)) ∧
      ∀ other : Access, other.bytes = 4 ∨ other.bytes = 8 → Access.Apart ⟨address, bytes⟩ other →
        after.loaded other.address other.bytes = memory.loaded other.address other.bytes
  /-- A load does not change what is loaded. -/
  load : ∀ address bytes answer after, bytes = 4 ∨ bytes = 8 →
    memory.load address bytes = .ok (answer, after) → ∀ other : Access,
      other.bytes = 4 ∨ other.bytes = 8 →
        after.loaded other.address other.bytes = memory.loaded other.address other.bytes
  /-- A doubleword is its two words.  There is none that begins in the hierarchy and ends in the stack,
  even where nothing lies between the two. -/
  doubleword : ∀ address, ∃ low high, memory.loaded address 4 = .ok low ∧
    memory.loaded (address + 4) 4 = .ok high ∧ memory.loaded address 8 =
      .ok (if memory.map.Straddles address then .error .dataAbort else joinAnswers low high)
  fetch : ∀ pc, ¬ memory.map.InWindow pc → ∃ answer, memory.fetched pc = .ok answer ∧
    memory.loaded pc 4 = .ok (answer.map fun word => word.setWidth 64)
  /-- An access in the stack window leaves the caches and what is behind them as they are, with their
  words, residency and counters, and every other access the stack. -/
  load_private : ∀ address bytes answer after, memory.load address bytes = .ok (answer, after) →
    if memory.map.InWindow address then after.hierarchy = memory.hierarchy
    else after.stack = memory.stack
  store_private : ∀ address bytes value after, memory.store address bytes value = .ok after →
    if memory.map.InWindow address then after.hierarchy = memory.hierarchy
    else after.stack = memory.stack
  fetch_private : ∀ pc answer after, memory.fetch pc = .ok (answer, after) →
    after.stack = memory.stack ∧
      (memory.map.InWindow pc → after.hierarchy = memory.hierarchy)

theorem fault?_eq_none_of_probe {memory : UnitMemory} {address : Doubleword} {bytes : Nat}
    (hprobe : memory.probe address bytes = .ok ()) : memory.map.fault? address bytes = none := by
  rw [AddressMap.fault?_eq_none_iff]
  unfold probe at hprobe
  cases hresolve : memory.map.resolve address bytes with
  | error cause =>
    rw [hresolve] at hprobe
    cases hprobe
  | ok location => exact ⟨location, rfl⟩

/-- The memory of a unit that uses its caches alone is a store of bytes over two regions, when its
hierarchy ends where the stack window begins or before. -/
theorem Reachable.storesBytes {memory : UnitMemory} (hmemory : memory.Reachable)
    (hends : memory.map.hierarchyWords * wordBytes ≤ stackBase) : memory.StoresBytes := by
  obtain ⟨hformed, hcoherent⟩ := hmemory.coherent
  have hmap : memory.words.map = memory.map := map_words memory
  refine ⟨?probe, ?store, ?load, ?doubleword, ?fetch, ?loadPrivate, ?storePrivate, ?fetchPrivate⟩
  case probe =>
    intro address bytes hbytes
    refine ⟨_, loaded_eq hformed hcoherent address (pos_of_sized hbytes), ?_⟩
    rw [probe, UnitWords.load, hmap]
    cases memory.map.resolve address bytes with
    | error cause => rfl
    | ok location =>
      simp only
      split <;> rfl
  case store =>
    intro address bytes value hbytes hprobe
    have hmapped := fault?_eq_none_of_probe hprobe
    obtain ⟨after, hstore, hserves⟩ :=
      store_serves hformed (pos_of_sized hbytes) value hmapped
    have hafter (other : Doubleword) {size : Nat} (hsize : size = 4 ∨ size = 8) :
        after.loaded other size =
          .ok ((memory.words.store address bytes value).load other size) := by
      rw [loaded_eq hserves.wellFormed (hserves.coherent hcoherent) other (pos_of_sized hsize),
        hserves.words_eq hcoherent]
    refine ⟨after, hstore, ?_, ?_⟩
    · rw [hafter address hbytes, UnitWords.load_store_self hbytes value (by rwa [hmap])]
    · intro other hother hapart
      rw [hafter other.address hother, loaded_eq hformed hcoherent _ (pos_of_sized hother)]
      exact congrArg Except.ok
        (UnitWords.load_store_of_apart (pos_of_sized hbytes) hother hapart value)
  case load =>
    intro address bytes answer after hbytes hload other hother
    obtain ⟨answer', after', hload', -, hserves⟩ :=
      memory.load_serves hformed address (pos_of_sized hbytes)
    obtain ⟨-, rfl⟩ := Prod.mk.inj (Except.ok.inj (hload'.symm.trans hload))
    rw [loaded_eq hserves.wellFormed (hserves.coherent hcoherent) _ (pos_of_sized hother),
      hserves.words_eq hcoherent, loaded_eq hformed hcoherent _ (pos_of_sized hother)]
  case doubleword =>
    intro address
    refine ⟨_, _, loaded_eq hformed hcoherent address (by decide),
      loaded_eq hformed hcoherent (address + 4) (by decide), ?_⟩
    rw [loaded_eq hformed hcoherent address (by decide),
      UnitWords.load_eight_eq_join (by rwa [hmap]), hmap]
  case fetch =>
    intro pc hbelow
    refine ⟨_, fetched_eq hformed hcoherent pc, ?_⟩
    rw [loaded_eq hformed hcoherent pc (by decide), UnitWords.fetch_eq_load (by rwa [hmap])]
    rwa [hmap]
  case loadPrivate =>
    intro address bytes answer after hload
    exact keepsBeyond_locate_iff.1 (load_keepsBeyond hload)
  case storePrivate =>
    intro address bytes value after hstore
    exact keepsBeyond_locate_iff.1 (store_keepsBeyond hstore)
  case fetchPrivate =>
    intro pc answer after hfetch
    exact ⟨fetch_keepsBeyond hfetch, fun hwindow => fetch_keepsBeyond_window hends hwindow hfetch⟩

/-- A doubleword stored into the hierarchy, by words and whole, with its neighbour untouched. -/
theorem Reachable.storesBytes_doubleword :
    ∃ memory : UnitMemory, memory.Reachable ∧ memory.map.hierarchyWords * wordBytes ≤ stackBase ∧
      memory.StoresBytes ∧ memory.probe 64 8 = .ok () ∧
      ∃ after, memory.store 64 8 0x1111222233334444 = .ok after ∧
        after.loaded 64 8 = .ok (.ok 0x1111222233334444) ∧
        after.loaded 72 4 = memory.loaded 72 4 := by
  let store : Ram := .zeroed "RAM" 64
  have hbuild : (Memory.ram store).withCache "L1" {} 64 =
      .ok (.cache { name := "L1", capacity := 64, lines := Vector.replicate 1 {} } (.ram store)) :=
    rfl
  let memory : UnitMemory :=
    { hierarchy := .cache { name := "L1", capacity := 64, lines := Vector.replicate 1 {} }
        (.ram store)
      stack := .zeroed "STACK" 8 }
  have hmemory : memory.Reachable := .start (.cache (.ram store) hbuild) _ _
  have hends : memory.map.hierarchyWords * wordBytes ≤ stackBase := by decide +kernel
  have hprobe : memory.probe 64 8 = .ok () := rfl
  have hbytes := hmemory.storesBytes hends
  obtain ⟨after, hstore, hsame, hother⟩ := hbytes.store 64 8 0x1111222233334444 (.inr rfl) hprobe
  exact ⟨memory, hmemory, hends, hbytes, hprobe, after, hstore, hsame,
    hother ⟨72, 4⟩ (.inl rfl) (.inl (by decide))⟩

/-- The words on both sides of the border of the regions can be loaded one by one when the hierarchy ends
where the stack window begins, and not as a doubleword. -/
theorem doubleword_across_regions :
    let memory : UnitMemory :=
      { hierarchy := .cache { name := "L1", capacity := 64, lines := Vector.replicate 1 {} }
          (.ram (.zeroed "RAM" 0x1FFFC0000000))
        stack := .zeroed "STACK" 8 }
    memory.Reachable ∧ memory.map.hierarchyWords * wordBytes = stackBase ∧
      ∃ low high, memory.loaded 0x7FFEFFFFFFFC 4 = .ok (.ok low) ∧
        memory.loaded 0x7FFF00000000 4 = .ok (.ok high) ∧
        memory.loaded 0x7FFEFFFFFFFC 8 = .ok (.error .dataAbort) := by
  intro memory
  have hsize : (Ram.zeroed "RAM" 0x1FFFC0000000).size = 0x1FFFC0000000 := Array.size_replicate
  have hmap : memory.map = ⟨8, 0x1FFFC0000000⟩ := congrArg (AddressMap.mk 8) hsize
  have hbuild : (Memory.ram (.zeroed "RAM" 0x1FFFC0000000)).withCache "L1" {} 64 =
      .ok memory.hierarchy := by
    change (Cache.build "L1" {} 64 (Ram.zeroed "RAM" 0x1FFFC0000000).size).map _ = _
    rw [hsize]
    rfl
  have hmemory : memory.Reachable := .start (.cache (.ram _) hbuild) _ _
  obtain ⟨hformed, hcoherent⟩ := hmemory.coherent
  have hwords : memory.words.map = ⟨8, 0x1FFFC0000000⟩ := memory.map_words.trans hmap
  refine ⟨hmemory, by rw [hmap]; rfl, memory.words.wordAt ⟨.hierarchy, 0x1FFFBFFFFFFF⟩ |>.setWidth 64,
    memory.words.wordAt ⟨.stack, 0⟩ |>.setWidth 64, ?_, ?_, ?_⟩
  · rw [loaded_eq hformed hcoherent _ (by decide), UnitWords.load_four, hwords]
    rfl
  · rw [loaded_eq hformed hcoherent _ (by decide), UnitWords.load_four, hwords]
    rfl
  · rw [loaded_eq hformed hcoherent _ (by decide), UnitWords.load_eight, hwords]
    rfl

end UnitMemory

end A64Machine
