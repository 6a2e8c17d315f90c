import A64Machine.Proofs.Memory.Coherence
import A64Machine.Proofs.Memory.Replies

/-!
What each call on a chain of caches in front of RAM does, by induction on the chain: it keeps the
form of the chain, it is answered whenever it keeps the contract, and when every cache agrees with
the RAM words, the answer is theirs and every cache still agrees with them afterwards.
-/

namespace A64Machine

namespace Memory

/-- Every cache of the chain has a capacity that the memory behind it accepts. -/
def WellFormed : Memory → Prop
  | .ram _ => True
  | .cache front backing => front.Fits backing.size ∧ backing.WellFormed

/-- Every cache of the chain agrees with the RAM words. -/
def Coherent : Memory → Prop
  | .ram _ => True
  | .cache front backing => front.Mirrors backing.ramWords ∧ backing.Coherent

theorem size_ramWords (memory : Memory) : memory.ramWords.size = memory.size := by
  induction memory with
  | ram store => rfl
  | cache front backing ih => exact ih

/-- What a call that answers `value` and leaves the RAM words `after` amounts to.  The chain keeps
its form in any case; the rest holds when its caches agree with RAM. -/
structure Serves {α : Type} (memory : Memory) (reply : Reply Memory α) (value : α)
    (after : Array Word) : Prop where
  wellFormed : reply.state.WellFormed
  size_eq : reply.state.size = memory.size
  value_eq : memory.Coherent → reply.value = value
  coherent : memory.Coherent → reply.state.Coherent
  ramWords_eq : memory.Coherent → reply.state.ramWords = after

/-- The words of the line of an address form a block inside the memory and inside one line. -/
theorem line_in_range {size start : Nat} (hin : start < size) :
    start / 64 * 64 + Cache.lengthAt size (start / 64 * 64) ≤ size ∧
      start / 64 * 64 % 64 + Cache.lengthAt size (start / 64 * 64) ≤ 64 := by
  simp only [Cache.lengthAt, lineSize]
  omega

/-- A reply of a cache serves its caller when its front and what is behind do their parts. -/
theorem serves_cache {α : Type} {front front' : Cache} {backing backing' : Memory} {answer value : α}
    {after : Array Word} {events : List Event} (hfits : front'.Fits backing'.size)
    (hformed : backing'.WellFormed) (hsize : backing'.size = backing.size)
    (hserves : front.Mirrors backing.ramWords → backing.Coherent →
      answer = value ∧ front'.Mirrors backing'.ramWords ∧ backing'.Coherent ∧
        backing'.ramWords = after) :
    (cache front backing).Serves ⟨answer, .cache front' backing', events⟩ value after where
  wellFormed := ⟨hfits, hformed⟩
  size_eq := hsize
  value_eq hcoherent := (hserves hcoherent.1 hcoherent.2).1
  coherent hcoherent :=
    ⟨(hserves hcoherent.1 hcoherent.2).2.1, (hserves hcoherent.1 hcoherent.2).2.2.1⟩
  ramWords_eq hcoherent := (hserves hcoherent.1 hcoherent.2).2.2.2

/-- Reading a block inside one line answers the RAM words of the block. -/
theorem readBlock_serves (memory : Memory) (hformed : memory.WellFormed) {start count : Nat}
    (hin : start + count ≤ memory.size) (hline : start % 64 + count ≤ 64) :
    ∃ reply, memory.readBlock start count = .ok reply ∧
      memory.Serves reply (slice memory.ramWords start count) memory.ramWords := by
  induction memory generalizing start count with
  | ram store =>
    exact ⟨_, readBlock_ram hin, trivial, rfl, fun _ => rfl, fun _ => trivial, fun _ => rfl⟩
  | cache front backing ih =>
    obtain ⟨hfits, hbacking⟩ := hformed
    change start + count ≤ backing.size at hin
    have hwords : front.Fits backing.ramWords.size := by rwa [size_ramWords]
    by_cases hhit : count = 0 ∨ front.isHit start count
    · refine ⟨_, readBlock_of_hit hin hline hhit, serves_cache (hfits.record _ _) hbacking rfl ?_⟩
      intro hmirrors hcoherent
      refine ⟨?_, hmirrors.record _ _, hcoherent, rfl⟩
      rcases hhit with rfl | hhit
      · simp [Cache.wordsAt, CacheLine.wordsAt, slice]
      · have hresident : front.isResident start := by
          simp only [Cache.isHit, Bool.and_eq_true] at hhit
          exact hhit.1
        exact hmirrors.wordsAt hwords hresident hline (by rwa [size_ramWords])
    · have hstart : start < backing.size := by omega
      have hrange := line_in_range hstart
      rw [← Cache.baseOf_eq hfits] at hrange
      obtain ⟨fill, hfill, hserves⟩ := ih hbacking hrange.1 hrange.2
      have hcounted := (hfits.record .readBlock .miss).record .backingReadBlock .miss
      refine ⟨_, readBlock_of_miss hin hline hhit hfill,
        serves_cache ?_ hserves.wellFormed hserves.size_eq ?_⟩
      · rw [hserves.size_eq]
        exact hcounted.install _ _
      · intro hmirrors hcoherent
        rw [hserves.value_eq hcoherent, hserves.ramWords_eq hcoherent, ← size_ramWords backing]
        rw [← size_ramWords backing] at hcounted hstart hin
        have hfilled := ((hmirrors.record .readBlock .miss).record .backingReadBlock .miss).install
          hcounted hstart
        exact ⟨hfilled.wordsAt (hcounted.install _ _) (Cache.isResident_install hcounted _ _)
          hline hin, hfilled, hserves.coherent hcoherent, rfl⟩

/-- Reading one word answers the RAM word. -/
theorem read_serves (memory : Memory) (hformed : memory.WellFormed) {address : Nat}
    (hin : address < memory.size) :
    ∃ reply, memory.read address = .ok reply ∧
      memory.Serves reply (memory.ramWords[address]?.getD 0) memory.ramWords := by
  cases memory with
  | ram store =>
    exact ⟨_, read_ram hin, trivial, rfl, fun _ => rfl, fun _ => trivial, fun _ => rfl⟩
  | cache front backing =>
    obtain ⟨hfits, hbacking⟩ := hformed
    change address < backing.size at hin
    have hwords : front.Fits backing.ramWords.size := by rwa [size_ramWords]
    by_cases hhit : front.isHit address 1
    · refine ⟨_, read_of_hit hin hhit, serves_cache (hfits.record _ _) hbacking rfl ?_⟩
      intro hmirrors hcoherent
      simp only [Cache.isHit, Bool.and_eq_true] at hhit
      rw [hmirrors.data hwords hhit.1 (by rwa [size_ramWords])]
      exact ⟨rfl, hmirrors.record _ _, hcoherent, rfl⟩
    · have hrange := line_in_range hin
      rw [← Cache.baseOf_eq hfits] at hrange
      obtain ⟨fill, hfill, hserves⟩ := readBlock_serves backing hbacking hrange.1 hrange.2
      have hcounted := (hfits.record .read .miss).record .backingReadBlock .miss
      refine ⟨_, read_of_miss hin hhit hfill,
        serves_cache ?_ hserves.wellFormed hserves.size_eq ?_⟩
      · rw [hserves.size_eq]
        exact hcounted.install _ _
      · intro hmirrors hcoherent
        rw [hserves.value_eq hcoherent, hserves.ramWords_eq hcoherent, ← size_ramWords backing]
        rw [← size_ramWords backing] at hcounted hin
        have hfilled := ((hmirrors.record .read .miss).record .backingReadBlock .miss).install
          hcounted hin
        have hdata := hfilled.data (hcounted.install _ _) (Cache.isResident_install hcounted _ _) hin
        exact ⟨congrArg (·.getD 0) hdata, hfilled, hserves.coherent hcoherent, rfl⟩

/-- A write to a resident address, of a block or a word, serves its caller when its push is served. -/
theorem push_serves {front : Cache} {backing : Memory} (hfits : front.Fits backing.size)
    {address : Nat} {data : List Word} (hresident : front.isResident address)
    (hin : address + data.length ≤ backing.size) (hline : address % 64 + data.length ≤ 64)
    {kind kind' : AccessKind} {result result' : AccessResult} {pushed : Reply Memory Unit}
    (hserves : backing.Serves pushed () (splice backing.ramWords (front.baseOf address)
      (front.pushedWords backing.size address data))) (events : List Event) :
    (cache front backing).Serves ⟨(), .cache (((front.record kind result).record kind'
      result').written backing.size address data) pushed.state, events⟩ ()
      (splice backing.ramWords address data) := by
  have hcounted := (hfits.record kind result).record kind' result'
  refine serves_cache ?_ hserves.wellFormed hserves.size_eq ?_
  · rw [hserves.size_eq]
    exact hcounted.written _ _
  · intro hmirrors hcoherent
    rw [hserves.ramWords_eq hcoherent, ← size_ramWords backing]
    rw [← size_ramWords backing] at hfits hcounted hin
    rw [hmirrors.splice_pushedWords hfits hresident hline hin]
    have hcounts := (hmirrors.record kind result).record kind' result'
    exact ⟨rfl, hcounts.written hcounted hresident hline hin, hserves.coherent hcoherent, rfl⟩

/-- Writing a block inside one line writes it into the RAM words. -/
theorem writeBlock_serves (memory : Memory) (hformed : memory.WellFormed) {start : Nat}
    {data : List Word} (hin : start + data.length ≤ memory.size)
    (hline : start % 64 + data.length ≤ 64) :
    ∃ reply, memory.writeBlock start data = .ok reply ∧
      memory.Serves reply () (splice memory.ramWords start data) := by
  induction memory generalizing start data with
  | ram store =>
    exact ⟨_, writeBlock_ram hin, trivial, size_splice _ _ _, fun _ => rfl, fun _ => trivial,
      fun _ => rfl⟩
  | cache front backing ih =>
    obtain ⟨hfits, hbacking⟩ := hformed
    change start + data.length ≤ backing.size at hin
    have hwords : front.Fits backing.ramWords.size := by rwa [size_ramWords]
    by_cases hempty : data = []
    · subst hempty
      refine ⟨_, writeBlock_nil hin, serves_cache (hfits.record _ _) hbacking rfl ?_⟩
      intro hmirrors hcoherent
      exact ⟨rfl, hmirrors.record _ _, hcoherent, rfl⟩
    · by_cases hresident : front.isResident start
      · have hpositive := List.length_pos_iff.2 hempty
        have hrange := line_in_range (show start < backing.size by omega)
        rw [← Cache.baseOf_eq hfits, ← front.length_pushedWords _ _ data] at hrange
        obtain ⟨pushed, hpushed, hserves⟩ := ih hbacking hrange.1 hrange.2
        exact ⟨_, writeBlock_of_resident hin hline hempty hresident hpushed,
          push_serves hfits hresident hin hline hserves _⟩
      · obtain ⟨passed, hpassed, hserves⟩ := ih hbacking hin hline
        refine ⟨_, writeBlock_of_not_resident hin hline hempty hresident hpassed,
          serves_cache ?_ hserves.wellFormed hserves.size_eq ?_⟩
        · rw [hserves.size_eq]
          exact (hfits.record _ _).record _ _
        · intro hmirrors hcoherent
          rw [hserves.ramWords_eq hcoherent]
          exact ⟨rfl, ((hmirrors.bypass hwords hresident hline).record _ _).record _ _,
            hserves.coherent hcoherent, rfl⟩

/-- Writing one word writes it into the RAM words. -/
theorem write_serves (memory : Memory) (hformed : memory.WellFormed) {address : Nat}
    (value : Word) (hin : address < memory.size) :
    ∃ reply, memory.write address value = .ok reply ∧
      memory.Serves reply () (splice memory.ramWords address [value]) := by
  induction memory with
  | ram store =>
    exact ⟨_, write_ram hin, trivial, size_splice _ _ _, fun _ => rfl, fun _ => trivial,
      fun _ => rfl⟩
  | cache front backing ih =>
    obtain ⟨hfits, hbacking⟩ := hformed
    change address < backing.size at hin
    have hwords : front.Fits backing.ramWords.size := by rwa [size_ramWords]
    have hblock : address + [value].length ≤ backing.size := hin
    have hline : address % 64 + [value].length ≤ 64 := by
      simp only [List.length_singleton]
      omega
    by_cases hresident : front.isResident address
    · have hrange := line_in_range hin
      rw [← Cache.baseOf_eq hfits, ← front.length_pushedWords _ _ [value]] at hrange
      obtain ⟨pushed, hpushed, hserves⟩ := writeBlock_serves backing hbacking hrange.1 hrange.2
      exact ⟨_, write_of_resident hin hresident hpushed,
        push_serves hfits hresident hblock hline hserves _⟩
    · obtain ⟨passed, hpassed, hserves⟩ := ih hbacking hin
      refine ⟨_, write_of_not_resident hin hresident hpassed,
        serves_cache ?_ hserves.wellFormed hserves.size_eq ?_⟩
      · rw [hserves.size_eq]
        exact (hfits.record _ _).record _ _
      · intro hmirrors hcoherent
        rw [hserves.ramWords_eq hcoherent]
        exact ⟨rfl, ((hmirrors.bypass hwords hresident hline).record _ _).record _ _,
          hserves.coherent hcoherent, rfl⟩

/-- Clearing one level of the chain changes no word. -/
theorem clear_serves (memory : Memory) (hformed : memory.WellFormed) (depth : Nat) :
    ∃ reply, atDepth (fun level => .ok ⟨(), level.clear, []⟩) memory depth = .ok reply ∧
      memory.Serves reply () memory.ramWords := by
  induction memory generalizing depth with
  | ram store =>
    have hram : (ram store).Serves ⟨(), ram store, []⟩ () (ram store).ramWords :=
      ⟨trivial, rfl, fun _ => rfl, fun _ => trivial, fun _ => rfl⟩
    cases depth with
    | zero => exact ⟨_, rfl, hram⟩
    | succ depth => exact ⟨_, rfl, hram⟩
  | cache front backing ih =>
    obtain ⟨hfits, hbacking⟩ := hformed
    cases depth with
    | zero =>
      refine ⟨_, rfl, serves_cache (hfits.clear) hbacking rfl ?_⟩
      intro _ hcoherent
      exact ⟨rfl, Cache.mirrors_of_empty _ rfl, hcoherent, rfl⟩
    | succ depth =>
      obtain ⟨reply, hreply, hserves⟩ := ih hbacking depth
      refine ⟨reply.lift (.cache front), ?_,
        serves_cache ?_ hserves.wellFormed hserves.size_eq ?_⟩
      · simp only [atDepth, hreply]
        rfl
      · rw [hserves.size_eq]
        exact hfits
      · intro hmirrors hcoherent
        rw [hserves.ramWords_eq hcoherent]
        exact ⟨rfl, hmirrors, hserves.coherent hcoherent, rfl⟩

end Memory

end A64Machine
