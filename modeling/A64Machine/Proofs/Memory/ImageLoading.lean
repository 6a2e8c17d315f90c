import A64Machine.Proofs.Execution.CheckedMachine
import A64Machine.Proofs.Memory.Accounting
import A64Machine.Proofs.Memory.ByteStore

/-!
Loading an image.  An image that fits is written line by line through the first-level cache, from
the first word of the hierarchy on.  Whatever lines are resident at any level, RAM and everything
that the unit can ask for have the image afterwards, and nothing else has changed: no other word of
the hierarchy, no word of the stack, and no line is brought into the cache or dropped from it.
-/

namespace A64Machine

namespace Checked

def loadLines (image : List Word) : List Nat → UnitMemory → Except Stop UnitMemory
  | [], memory => pure memory
  | line :: rest, memory => do
    let start ← product UInt64.size line lineSize
    let (_, memory) ← onHierarchy memory
      (writeBlock · start ((image.drop start).take lineSize))
    loadLines image rest memory

def loadImage (memory : UnitMemory) (image : List Word) : Except Stop UnitMemory :=
  loadLines image (List.range ((image.length + lineSize - 1) / lineSize)) memory

end Checked

namespace UnitMemory

/-- What it means that `after` is `memory` with an image at the start of the hierarchy. -/
structure WithImage (memory : UnitMemory) (image : List Word) (after : UnitMemory) : Prop where
  stored {i : Nat} {word : Word} (hword : image[i]? = some word) :
    after.hierarchy.ramWords[i]? = some word
  fetched {i : Nat} {word : Word} (hword : image[i]? = some word) {address : Doubleword}
    (haddress : address.toNat = i * wordBytes) : after.fetched address = .ok (.ok word)
  /-- A load reads the image as well, except where the stack window hides the hierarchy. -/
  loaded {i : Nat} {word : Word} (hword : image[i]? = some word) {address : Doubleword}
    (haddress : address.toNat = i * wordBytes) :
    after.loaded address 4 =
      if memory.map.InWindow address then memory.loaded address 4
      else .ok (.ok (word.setWidth 64))
  stored_beyond {i : Nat} (hi : image.length ≤ i) :
    after.hierarchy.ramWords[i]? = memory.hierarchy.ramWords[i]?
  fetched_beyond {address : Doubleword} (haddress : image.length * wordBytes ≤ address.toNat) :
    after.fetched address = memory.fetched address
  loaded_beyond {address : Doubleword} (haddress : image.length * wordBytes ≤ address.toNat)
    {bytes : Nat} (hbytes : bytes = 4 ∨ bytes = 8) :
    after.loaded address bytes = memory.loaded address bytes
  stack : after.stack = memory.stack
  /-- The slots of the first-level cache hold the lines that they held, and a word is resident
  exactly when it was. -/
  residency {front : Cache} {backing : Memory} (hcache : memory.hierarchy = .cache front backing) :
    ∃ front' behind, after.hierarchy = .cache front' behind ∧ front'.capacity = front.capacity ∧
      front'.residency = front.residency ∧
      ∀ address, (front'.resident behind.size address).isSome =
        (front.resident backing.size address).isSome

/-- What writing a part of an image through the hierarchy leaves as it was. -/
structure KeptByWrite (memory after : UnitMemory) : Prop where
  wellFormed : after.WellFormed
  size_eq : after.hierarchy.size = memory.hierarchy.size
  stack_eq : after.stack = memory.stack
  holds {capacity : Nat} {held : Residency} (hholds : memory.hierarchy.Holds capacity held) :
    after.hierarchy.Holds capacity held

section Writing

variable {memory middle after : UnitMemory}

theorem KeptByWrite.refl (hformed : memory.WellFormed) : memory.KeptByWrite memory :=
  ⟨hformed, rfl, rfl, id⟩

theorem KeptByWrite.trans (hfirst : memory.KeptByWrite middle)
    (hsecond : middle.KeptByWrite after) : memory.KeptByWrite after where
  wellFormed := hsecond.wellFormed
  size_eq := hsecond.size_eq.trans hfirst.size_eq
  stack_eq := hsecond.stack_eq.trans hfirst.stack_eq
  holds hholds := hsecond.holds (hfirst.holds hholds)

/-- One block inside a line. -/
theorem writeBlock_kept (hformed : memory.WellFormed) (hsize : memory.hierarchy.size < UInt64.size)
    {start : Nat} {data : List Word} (hin : start + data.length ≤ memory.hierarchy.size)
    (hline : start % 64 + data.length ≤ 64) :
    ∃ after, memory.onHierarchy (·.writeBlock start data) = .ok ((), after) ∧
      Checked.onHierarchy memory (Checked.writeBlock · start data) = .ok ((), after) ∧
      memory.KeptByWrite after := by
  obtain ⟨reply, hreply, hserves⟩ := memory.hierarchy.writeBlock_serves hformed hin hline
  refine ⟨{ memory with
      hierarchy := reply.state, events := memory.events.appendList reply.events },
    ?_, ?_, hserves.wellFormed, hserves.size_eq, rfl, ?_⟩
  · simp only [onHierarchy, hreply]
    rfl
  · simp only [Checked.onHierarchy, Checked.writeBlock_eq _ hformed hsize hin hline, hreply]
    rfl
  · rintro capacity held ⟨front, backing, hcache, rfl, rfl⟩
    rw [hcache] at hin hreply
    have hfront : (Memory.cache front backing).WellFormed := by
      rw [← hcache]
      exact hformed
    obtain ⟨reply', hreply', hholds⟩ := Memory.writeBlock_holds hfront hin hline
    obtain rfl := Except.ok.inj (hreply'.symm.trans hreply)
    exact hholds

/-- The lines from line `first` on, by induction on their number. -/
theorem loadLines_kept (image : List Word) (count first : Nat) (hformed : memory.WellFormed)
    (hsize : memory.hierarchy.size < UInt64.size) (hfits : image.length ≤ memory.hierarchy.size)
    (hcount : (first + count) * 64 < image.length + 64) :
    ∃ after, loadLines image (List.range' first count) memory = (.ok (), after) ∧
      Checked.loadLines image (List.range' first count) memory = .ok after ∧
      memory.KeptByWrite after := by
  induction count generalizing first memory with
  | zero => exact ⟨memory, rfl, rfl, .refl hformed⟩
  | succ count ih =>
    have hlength : ((image.drop (first * 64)).take 64).length =
        min 64 (image.length - first * 64) := by
      rw [List.length_take, List.length_drop]
    have hin : first * 64 + ((image.drop (first * 64)).take 64).length ≤ memory.hierarchy.size := by
      omega
    have hline : first * 64 % 64 + ((image.drop (first * 64)).take 64).length ≤ 64 := by omega
    obtain ⟨middle, hwrite, hchecked, hkept⟩ := writeBlock_kept hformed hsize hin hline
    obtain ⟨after, hrest, hcheckedRest, hkeptRest⟩ := ih (first + 1) hkept.wellFormed
      (by rwa [hkept.size_eq]) (by rwa [hkept.size_eq]) (by omega)
    refine ⟨after, ?_, ?_, hkept.trans hkeptRest⟩
    · simp only [List.range'_succ, loadLines, lineSize, hwrite, hrest]
    · rw [List.range'_succ, Checked.loadLines, lineSize, Checked.product_eq (by omega), pure_bind,
        hchecked]
      exact hcheckedRest

theorem loadImage_kept {image : List Word} (hformed : memory.WellFormed)
    (hsize : memory.hierarchy.size < UInt64.size) (hfits : image.length ≤ memory.hierarchy.size) :
    ∃ after, memory.loadImage image = (.ok (), after) ∧
      Checked.loadImage memory image = .ok after ∧ memory.KeptByWrite after := by
  have hlines := loadLines_kept image ((image.length + 63) / 64) 0 hformed hsize hfits (by omega)
  rwa [← List.range_eq_range'] at hlines

end Writing

end UnitMemory

namespace UnitWords

variable {words words' : UnitWords} {image : List Word} {address : Doubleword} {bytes i : Nat}

theorem map_loadImage (words : UnitWords) (image : List Word) :
    (words.loadImage image).map = words.map := by
  simp only [map, loadImage, size_splice]

theorem ram_loadImage (hfits : image.length ≤ words.ram.size) {word : Word}
    (hword : image[i]? = some word) : (words.loadImage image).ram[i]? = some word := by
  obtain ⟨hi, -⟩ := List.getElem?_eq_some_iff.1 hword
  rw [loadImage, getElem?_splice, if_pos (by omega), Nat.sub_zero, hword]

theorem ram_loadImage_beyond (words : UnitWords) (hi : image.length ≤ i) :
    (words.loadImage image).ram[i]? = words.ram[i]? :=
  getElem?_splice_of_disjoint (.inr (by omega))

/-- A load depends on the words from its location on. -/
theorem load_congr (hmap : words'.map = words.map)
    (hwords : ∀ place, words'.wordAt ⟨(words.map.locate address).region,
        (words.map.locate address).word + place⟩ =
      words.wordAt ⟨(words.map.locate address).region, (words.map.locate address).word + place⟩) :
    words'.load address bytes = words.load address bytes := by
  unfold load
  rw [hmap]
  cases hresolve : words.map.resolve address bytes with
  | error cause => rfl
  | ok location =>
    obtain ⟨-, -, rfl⟩ := AddressMap.resolve_eq_ok_iff.1 hresolve
    have hlow := hwords 0
    have hhigh : words'.wordAt (next _) = words.wordAt (next _) := hwords 1
    simp only [Nat.add_zero] at hlow
    simp only [hlow, hhigh]

/-- A load in the stack window does not notice an image. -/
theorem load_loadImage_window (hwindow : words.map.InWindow address) :
    (words.loadImage image).load address bytes = words.load address bytes := by
  refine load_congr (map_loadImage words image) fun place => ?_
  rw [AddressMap.locate_of_inWindow hwindow]
  rfl

/-- Nor does one past the image. -/
theorem load_loadImage_beyond (haddress : image.length * wordBytes ≤ address.toNat) :
    (words.loadImage image).load address bytes = words.load address bytes := by
  by_cases hwindow : words.map.InWindow address
  · exact load_loadImage_window hwindow
  refine load_congr (map_loadImage words image) fun place => ?_
  have hplace : image.length ≤ address.toNat / wordBytes + place := by
    simp only [wordBytes] at *
    omega
  rw [AddressMap.locate, if_neg hwindow]
  simp only [wordAt, ram_loadImage_beyond words hplace]

theorem fetch_loadImage (hfits : image.length ≤ words.ram.size) {word : Word}
    (hword : image[i]? = some word) (haddress : address.toNat = i * wordBytes) :
    (words.loadImage image).fetch address = .ok word := by
  obtain ⟨hi, -⟩ := List.getElem?_eq_some_iff.1 hword
  have hplace : address.toNat / wordBytes = i := by
    rw [haddress]
    exact Nat.mul_div_cancel i (by decide)
  have hsize : (words.loadImage image).ram.size = words.ram.size := size_splice _ _ _
  have haligned : ¬ address.toNat % wordBytes ≠ 0 := by
    rw [haddress, Nat.mul_mod_left]
    exact fun hne => hne rfl
  rw [fetch, if_neg haligned, hplace, hsize, if_neg (by omega), ram_loadImage hfits hword]
  rfl

theorem fetch_loadImage_beyond (haddress : image.length * wordBytes ≤ address.toNat) :
    (words.loadImage image).fetch address = words.fetch address := by
  have hplace : image.length ≤ address.toNat / wordBytes := by
    simp only [wordBytes] at *
    omega
  have hsize : (words.loadImage image).ram.size = words.ram.size := size_splice _ _ _
  rw [fetch, fetch, hsize, ram_loadImage_beyond words hplace]

/-- Outside the stack window a load reads the image. -/
theorem load_loadImage (hsize : words.ram.size ≤ Ram.maxWords)
    (hfits : image.length ≤ words.ram.size) {word : Word} (hword : image[i]? = some word)
    (haddress : address.toNat = i * wordBytes) (hwindow : ¬ words.map.InWindow address) :
    (words.loadImage image).load address 4 = .ok (word.setWidth 64) := by
  obtain ⟨hi, -⟩ := List.getElem?_eq_some_iff.1 hword
  have hplace : address.toNat / wordBytes = i := by
    rw [haddress]
    exact Nat.mul_div_cancel i (by decide)
  have hresolve : words.map.resolve address 4 = .ok ⟨.hierarchy, i⟩ := by
    have hwords : words.map.hierarchyWords = words.ram.size := rfl
    have hlimit : Ram.maxWords * wordBytes < byteAddresses := by decide
    refine AddressMap.resolve_eq_ok_iff.2 ⟨?_, ⟨?_, .inr ⟨hwindow, ?_⟩⟩, ?_⟩
    · rw [haddress, Nat.mul_mod_left]
    · simp only [wordBytes] at *
      omega
    · simp only [wordBytes] at *
      omega
    · rw [AddressMap.locate, if_neg hwindow, hplace]
  rw [load_four, map_loadImage, hresolve]
  simp only [Except.map, wordAt, ram_loadImage hfits hword, Option.getD_some]

end UnitWords

/-- Which words of a cache that shows some words are resident depends on the lines that it holds. -/
theorem Cache.ShowsSome.isSome_resident {cache : Cache} {size : Nat} (hshows : cache.ShowsSome size)
    (hfits : cache.Fits size) (address : Nat) :
    (cache.resident size address).isSome =
      decide (address < size ∧ cache.residency.Has cache.capacity address) := by
  have hplace : Cache.offsetOf address < 64 := Nat.mod_lt _ (by decide)
  by_cases hin : address < size
  · have hhit := hshows.isHit_iff hfits (show address + 1 ≤ size from hin) (by omega)
    simp only [Cache.resident, hin, hhit, true_and]
    split
    next hheld => simp [hheld, hplace]
    next hother => simp [hother]
  · have hnone : cache.resident size address = none := if_neg fun hheld => hin hheld.1
    simp [hnone, hin]

namespace UnitMemory

variable {memory after : UnitMemory} {image : List Word}

/-- The first-level cache holds the lines that it held, so the same words are resident. -/
theorem KeptByWrite.residency (hkept : memory.KeptByWrite after) (hformed : memory.WellFormed)
    (hcoherent : memory.Coherent) (hsound : after.Coherent) {front : Cache} {backing : Memory}
    (hcache : memory.hierarchy = .cache front backing) :
    ∃ front' behind, after.hierarchy = .cache front' behind ∧ front'.capacity = front.capacity ∧
      front'.residency = front.residency ∧
      ∀ address, (front'.resident behind.size address).isSome =
        (front.resident backing.size address).isSome := by
  obtain ⟨front', behind, hcache', hcapacity, hheld⟩ :=
    hkept.holds ⟨front, backing, hcache, rfl, rfl⟩
  refine ⟨front', behind, hcache', hcapacity, hheld, fun address => ?_⟩
  have hformed' : after.hierarchy.WellFormed := hkept.wellFormed
  have hsize' := hkept.size_eq
  unfold WellFormed at hformed
  unfold Coherent at hcoherent hsound
  rw [hcache'] at hformed' hsound hsize'
  rw [hcache] at hformed hcoherent hsize'
  have hshows : front.ShowsSome backing.size :=
    ⟨backing.ramWords, Memory.size_ramWords backing, hcoherent.1⟩
  have hshows' : front'.ShowsSome behind.size :=
    ⟨behind.ramWords, Memory.size_ramWords behind, hsound.1⟩
  have hsame : behind.size = backing.size := hsize'
  rw [hshows'.isSome_resident hformed'.1, hshows.isSome_resident hformed.1, hheld, hcapacity, hsame]

/-- Loading an image that fits: nothing stops it, and the memory has the image afterwards and is
otherwise as it was. -/
theorem Reachable.loadsImage (hmemory : memory.Reachable)
    (hsize : memory.hierarchy.size ≤ Ram.maxWords)
    (hfits : image.length ≤ memory.hierarchy.size) :
    ∃ after, memory.loadImage image = (.ok (), after) ∧
      Checked.loadImage memory image = .ok after ∧ memory.WithImage image after := by
  obtain ⟨hformed, hcoherent⟩ := hmemory.coherent
  have hlimit : memory.hierarchy.size < UInt64.size := Nat.lt_of_le_of_lt hsize Checked.maxWords_lt
  obtain ⟨after, hload, hchecked, hkept⟩ := loadImage_kept hformed hlimit hfits
  obtain ⟨after', hload', hserves⟩ := loadImage_serves hformed hfits
  obtain ⟨-, rfl⟩ := Prod.mk.inj (hload'.symm.trans hload)
  have hwords := hserves.words_eq hcoherent
  have hsound := hserves.coherent hcoherent
  have hram : memory.words.ram.size = memory.hierarchy.size := Memory.size_ramWords _
  have hmap : memory.words.map = memory.map := map_words memory
  have hloaded (address : Doubleword) {bytes : Nat} (hbytes : 0 < bytes) :
      after'.loaded address bytes = .ok ((memory.words.loadImage image).load address bytes) := by
    rw [loaded_eq hserves.wellFormed hsound address hbytes, hwords]
  have hfetched (address : Doubleword) :
      after'.fetched address = .ok ((memory.words.loadImage image).fetch address) := by
    rw [fetched_eq hserves.wellFormed hsound address, hwords]
  refine ⟨after', hload, hchecked, ?stored, ?fetched, ?loaded, ?storedBeyond, ?fetchedBeyond,
    ?loadedBeyond, hkept.stack_eq, ?residency⟩
  case stored =>
    intro i word hword
    have hplace := UnitWords.ram_loadImage (hram ▸ hfits) hword
    rwa [← hwords] at hplace
  case fetched =>
    intro i word hword address haddress
    rw [hfetched, UnitWords.fetch_loadImage (hram ▸ hfits) hword haddress]
  case loaded =>
    intro i word hword address haddress
    rw [hloaded address (by decide)]
    split
    next hwindow =>
      rw [loaded_eq hformed hcoherent address (by decide),
        UnitWords.load_loadImage_window (hmap ▸ hwindow)]
    next hwindow =>
      rw [UnitWords.load_loadImage (hram ▸ hsize) (hram ▸ hfits) hword haddress (hmap ▸ hwindow)]
  case storedBeyond =>
    intro i hi
    have hplace := UnitWords.ram_loadImage_beyond memory.words hi
    rwa [← hwords] at hplace
  case fetchedBeyond =>
    intro address haddress
    rw [hfetched, UnitWords.fetch_loadImage_beyond haddress, fetched_eq hformed hcoherent]
  case loadedBeyond =>
    intro address haddress bytes hbytes
    rw [hloaded address (pos_of_sized hbytes), UnitWords.load_loadImage_beyond haddress,
      loaded_eq hformed hcoherent address (pos_of_sized hbytes)]
  case residency => exact hkept.residency hformed hcoherent hsound

/-- An image that ends in the middle of a line, over a line of the RAM that is short itself and is
resident when the image is loaded. -/
theorem Reachable.loadsImage_short_line :
    ∃ memory after : UnitMemory, memory.Reachable ∧ memory.hierarchy.size ≤ Ram.maxWords ∧
      (List.replicate 70 7).length ≤ memory.hierarchy.size ∧
      memory.loadImage (List.replicate 70 7) = (.ok (), after) ∧
      memory.WithImage (List.replicate 70 7) after ∧ after.fetched 276 = .ok (.ok 7) := by
  let front : Cache := { name := "L1", capacity := 64, lines := Vector.replicate 1 {} }
  let store : Ram := { name := "RAM", words := Array.replicate 100 9 }
  have hbuild : (Memory.ram store).withCache "L1" {} 64 = .ok (.cache front (.ram store)) := rfl
  have hfresh : Reachable { hierarchy := .cache front (.ram store), stack := .zeroed "STACK" 8 } :=
    .start (.cache (.ram store) hbuild) _ _
  have hallowed (map : AddressMap) : (UnitCall.fetch 256).Allowed map := trivial
  obtain ⟨answer, memory, hfetch, hserves⟩ := UnitCall.run_serves hfresh.coherent.1 (hallowed _)
  have hmemory : memory.Reachable := .call hfresh (hallowed _) hfetch
  have hsize : memory.hierarchy.size = 100 := congrArg AddressMap.hierarchyWords hserves.map_eq
  have hlimit : memory.hierarchy.size ≤ Ram.maxWords := by
    rw [hsize]
    decide
  have hfits : (List.replicate 70 (7 : Word)).length ≤ memory.hierarchy.size := by
    rw [hsize]
    decide
  obtain ⟨after, hload, -, himage⟩ := hmemory.loadsImage hlimit hfits
  exact ⟨memory, after, hmemory, hlimit, hfits, hload, himage,
    himage.fetched (i := 69) (by decide) (by decide)⟩

/-- The stack window hides the words of an image that reaches so far: the unit fetches the word, and
loads the one of the stack. -/
theorem loaded_image_hidden :
    let memory : UnitMemory :=
      { hierarchy := .cache { name := "L1", capacity := 64, lines := Vector.replicate 1 {} }
          (.ram (.zeroed "RAM" 0x200000000000))
        stack := .zeroed "STACK" 8 }
    let image : List Word := List.replicate 0x1FFFC0000001 1
    memory.Reachable ∧ memory.hierarchy.size ≤ Ram.maxWords ∧
      image.length ≤ memory.hierarchy.size ∧ image[0x1FFFC0000000]? = some 1 ∧
      ∃ after, memory.loadImage image = (.ok (), after) ∧
        after.fetched (0x1FFFC0000000 * 4) = .ok (.ok 1) ∧
        after.loaded (0x1FFFC0000000 * 4) 4 = .ok (.ok 0) := by
  intro memory image
  have hsize : (Ram.zeroed "RAM" 0x200000000000).size = 0x200000000000 := Array.size_replicate
  have hmap : memory.map = ⟨8, 0x200000000000⟩ := congrArg (AddressMap.mk 8) hsize
  have hbuild : (Memory.ram (.zeroed "RAM" 0x200000000000)).withCache "L1" {} 64 =
      .ok memory.hierarchy := by
    change (Cache.build "L1" {} 64 (Ram.zeroed "RAM" 0x200000000000).size).map _ = _
    rw [hsize]
    rfl
  have hmemory : memory.Reachable := .start (.cache (.ram _) hbuild) _ _
  have hhierarchy : memory.hierarchy.size = 0x200000000000 := hsize
  have hlength : image.length = 0x1FFFC0000001 := List.length_replicate
  have hfits : image.length ≤ memory.hierarchy.size := by
    rw [hlength, hhierarchy]
    decide
  have hlimit : memory.hierarchy.size ≤ Ram.maxWords := by
    rw [hhierarchy]
    decide
  have hword : image[0x1FFFC0000000]? = some 1 := by
    rw [List.getElem?_replicate, if_pos (by decide)]
  obtain ⟨hformed, hcoherent⟩ := hmemory.coherent
  obtain ⟨after, hload, hserves⟩ := loadImage_serves hformed hfits
  have hram : memory.words.ram.size = memory.hierarchy.size := Memory.size_ramWords _
  have hwords : memory.words.map = ⟨8, 0x200000000000⟩ := memory.map_words.trans hmap
  have hwindow : memory.words.map.InWindow (0x1FFFC0000000 * 4) := by
    rw [hwords]
    decide
  refine ⟨hmemory, hlimit, hfits, hword, after, hload, ?_, ?_⟩
  · rw [fetched_eq hserves.wellFormed (hserves.coherent hcoherent), hserves.words_eq hcoherent,
      UnitWords.fetch_loadImage (hram ▸ hfits) hword (by decide)]
  · rw [loaded_eq hserves.wellFormed (hserves.coherent hcoherent) _ (by decide),
      hserves.words_eq hcoherent, UnitWords.load_loadImage_window hwindow, UnitWords.load_four,
      hwords]
    rfl

end UnitMemory

end A64Machine
