import A64Machine.Proofs.Memory.Residency

/-!
What the counters of a cache say.  Whether a call hits depends on the lines that the slots hold and
on nothing else, so the counters of a cache are what a reference that follows the slots alone makes
of the calls, whoever else uses the memory behind the cache.
-/

namespace A64Machine

/-- An access as it is counted. -/
structure CountedAccess where
  kind : AccessKind
  result : AccessResult
  deriving Repr, DecidableEq

/-- Whether the slot of an address holds the segment of that address. -/
def Residency.Has (held : Residency) (capacity address : Nat) : Prop :=
  held (address % capacity / lineSize) = some (address / capacity)

instance (held : Residency) (capacity address : Nat) : Decidable (held.Has capacity address) :=
  inferInstanceAs (Decidable (_ = _))

namespace MemoryCall

/-- The kind under which a call is counted; a clear is not. -/
def kind? : MemoryCall → Option AccessKind
  | .read _ => some .read
  | .write _ _ => some .write
  | .readBlock _ _ => some .readBlock
  | .writeBlock _ _ => some .writeBlock
  | .clear _ => none

/-- What a call on a cache of `capacity` words is counted as, when its slots hold the given lines.
A read misses unless the slot of its address holds the line, and then asks for the line.  A write
is passed on in any case: with its whole line when the slot holds it, alone when not.  An empty
block hits and asks for nothing. -/
def counted (capacity : Nat) (held : Residency) : MemoryCall → List CountedAccess
  | .read address =>
    if held.Has capacity address then [⟨.read, .hit⟩]
    else [⟨.read, .miss⟩, ⟨.backingReadBlock, .miss⟩]
  | .readBlock start count =>
    if count = 0 ∨ held.Has capacity start then [⟨.readBlock, .hit⟩]
    else [⟨.readBlock, .miss⟩, ⟨.backingReadBlock, .miss⟩]
  | .write address _ =>
    if held.Has capacity address then [⟨.write, .hit⟩, ⟨.backingWriteBlock, .miss⟩]
    else [⟨.write, .miss⟩, ⟨.backingWrite, .miss⟩]
  | .writeBlock start data =>
    if data = [] then [⟨.writeBlock, .hit⟩]
    else if held.Has capacity start then [⟨.writeBlock, .hit⟩, ⟨.backingWriteBlock, .miss⟩]
    else [⟨.writeBlock, .miss⟩, ⟨.backingWriteBlock, .miss⟩]
  | .clear _ => []

/-- What calls on a cache of `capacity` words are counted as, one after the other. -/
def countedAll (capacity : Nat) : Residency → List MemoryCall → List CountedAccess
  | _, [] => []
  | held, call :: rest =>
    call.counted capacity held ++ countedAll capacity (held.after capacity call) rest

/-- A call is one access of its own kind, and causes at most one more. -/
theorem counted_shape (capacity : Nat) (held : Residency) (call : MemoryCall) :
    call.counted capacity held = [] ∧ call.kind? = none ∨
      ∃ kind result, call.kind? = some kind ∧ kind.isBacking = false ∧
        (call.counted capacity held = [⟨kind, result⟩] ∨
          ∃ behind, AccessKind.isBacking behind = true ∧
            call.counted capacity held = [⟨kind, result⟩, ⟨behind, .miss⟩]) := by
  cases call with
  | clear depth => exact .inl ⟨rfl, rfl⟩
  | read address =>
    refine .inr ?_
    rw [counted]
    split
    · exact ⟨_, _, rfl, rfl, .inl rfl⟩
    · exact ⟨_, _, rfl, rfl, .inr ⟨_, rfl, rfl⟩⟩
  | readBlock start count =>
    refine .inr ?_
    rw [counted]
    split
    · exact ⟨_, _, rfl, rfl, .inl rfl⟩
    · exact ⟨_, _, rfl, rfl, .inr ⟨_, rfl, rfl⟩⟩
  | write address value =>
    refine .inr ?_
    rw [counted]
    split
    · exact ⟨_, _, rfl, rfl, .inr ⟨_, rfl, rfl⟩⟩
    · exact ⟨_, _, rfl, rfl, .inr ⟨_, rfl, rfl⟩⟩
  | writeBlock start data =>
    refine .inr ?_
    rw [counted]
    split
    · exact ⟨_, _, rfl, rfl, .inl rfl⟩
    split
    · exact ⟨_, _, rfl, rfl, .inr ⟨_, rfl, rfl⟩⟩
    · exact ⟨_, _, rfl, rfl, .inr ⟨_, rfl, rfl⟩⟩

/-- A call adds at most one to each counter. -/
theorem count_counted_le (capacity : Nat) (held : Residency) (call : MemoryCall)
    (access : CountedAccess) : (call.counted capacity held).count access ≤ 1 := by
  rcases counted_shape capacity held call with ⟨hnone, -⟩ | ⟨kind, result, -, hkind, hone | htwo⟩
  · rw [hnone]
    exact Nat.zero_le 1
  · rw [hone]
    exact List.count_le_length
  · rcases htwo with ⟨behind, hbehind, htwo⟩
    have hne : kind ≠ behind := by
      rintro rfl
      rw [hkind] at hbehind
      contradiction
    rw [htwo, List.count_cons, List.count_singleton]
    by_cases hfirst : access = ⟨kind, result⟩
    · simp [hfirst, Ne.symm hne]
    · simp [Ne.symm hfirst]
      split <;> decide

theorem count_countedAll_le (capacity : Nat) (held : Residency) (calls : List MemoryCall)
    (access : CountedAccess) : (countedAll capacity held calls).count access ≤ calls.length := by
  induction calls generalizing held with
  | nil => exact Nat.le_refl _
  | cons call rest ih =>
    have hcall := count_counted_le capacity held call access
    have hrest := ih (held.after capacity call)
    rw [countedAll, List.count_append, List.length_cons]
    omega

/-- The hits and misses of a kind that callers cause are the calls of that kind. -/
theorem count_countedAll (capacity : Nat) (held : Residency) (calls : List MemoryCall)
    {kind : AccessKind} (hkind : kind.isBacking = false) :
    (countedAll capacity held calls).count ⟨kind, .hit⟩ +
        (countedAll capacity held calls).count ⟨kind, .miss⟩ =
      calls.countP fun call => call.kind? = some kind := by
  induction calls generalizing held with
  | nil => rfl
  | cons call rest ih =>
    have hrest := ih (held.after capacity call)
    have hcall : (call.counted capacity held).count ⟨kind, .hit⟩ +
        (call.counted capacity held).count ⟨kind, .miss⟩ =
          if call.kind? = some kind then 1 else 0 := by
      rcases counted_shape capacity held call with
        ⟨hnone, hquiet⟩ | ⟨own, result, hown, -, hone | ⟨behind, hbehind, htwo⟩⟩
      · simp [hnone, hquiet]
      · rw [hone, hown]
        by_cases hsame : own = kind <;> cases result <;> simp [hsame]
      · have hne : behind ≠ kind := by
          rintro rfl
          rw [hkind] at hbehind
          contradiction
        rw [htwo, hown]
        by_cases hsame : own = kind <;> cases result <;> simp [hsame, hne]
    rw [countedAll, List.count_append, List.count_append, List.countP_cons]
    simp only [decide_eq_true_eq]
    omega

end MemoryCall

namespace AccessStats

/-- The counter of the accesses that ended in a given way. -/
def counter (stats : AccessStats) (access : CountedAccess) : Nat :=
  match access.result with
  | .hit => stats.hits access.kind
  | .miss => stats.misses access.kind

def recordAll (stats : AccessStats) (accesses : List CountedAccess) : AccessStats :=
  accesses.foldl (fun stats access => stats.record access.kind access.result) stats

theorem counter_record (stats : AccessStats) (access counted : CountedAccess) :
    (stats.record counted.kind counted.result).counter access =
      if counted = access then increment (stats.counter access) else stats.counter access := by
  have hindex : ∀ kind kind' : AccessKind, kind.index = kind'.index ↔ kind = kind' := by
    intro kind kind'
    cases kind <;> cases kind' <;> decide
  rcases access with ⟨kind, result⟩
  rcases counted with ⟨kind', result'⟩
  cases result' <;> cases result <;>
    simp only [counter, record, hits, misses, Fin.getElem_fin, Vector.getElem_set, Fin.val_inj,
      hindex, CountedAccess.mk.injEq, and_true, and_false, reduceCtorEq, if_false]
  all_goals
    split
    next hsame => rw [hsame]
    next => rfl

/-- Every counter ends at the number of its accesses, or at the limit. -/
theorem counter_recordAll (stats : AccessStats) (accesses : List CountedAccess)
    (access : CountedAccess) (hlimit : stats.counter access + accesses.count access ≤ countLimit) :
    (stats.recordAll accesses).counter access = stats.counter access + accesses.count access := by
  induction accesses generalizing stats with
  | nil => rfl
  | cons first rest ih =>
    rw [List.count_cons] at hlimit ⊢
    have hfirst : (stats.record first.kind first.result).counter access =
        stats.counter access + if first == access then 1 else 0 := by
      rw [counter_record]
      by_cases hsame : first = access
      · have hroom : stats.counter access < countLimit := by
          simp only [hsame, beq_self_eq_true, if_true] at hlimit
          omega
        simp [hsame, increment_of_lt hroom]
      · simp [hsame]
    rw [recordAll, List.foldl_cons, ← recordAll, ih _ (by omega), hfirst]
    omega

end AccessStats

/-- What is written at a place is what is read there. -/
theorem slice_splice {words : Array Word} {start : Nat} {data : List Word}
    (hin : start + data.length ≤ words.size) :
    slice (splice words start data) start data.length = data := by
  apply List.ext_getElem?
  intro i
  rw [getElem?_slice, getElem?_splice, Nat.add_sub_cancel_left]
  split
  next hi => exact if_pos ⟨Nat.le_add_right _ _, by omega, by omega⟩
  next hi => exact (List.getElem?_eq_none (Nat.le_of_not_lt hi)).symm

namespace Cache

/-- A cache that may stand in front of `size` words: it shows some words or other, which need not be
those that are behind it now. -/
def ShowsSome (cache : Cache) (size : Nat) : Prop :=
  ∃ words : Array Word, words.size = size ∧ cache.Mirrors words

variable {cache : Cache} {size : Nat}

theorem isResident_iff_has {address : Nat} :
    cache.isResident address ↔ cache.residency.Has cache.capacity address :=
  isResident_iff

/-- Where a cache shows words, every access that lies in a resident line hits. -/
theorem ShowsSome.isHit_iff (hshows : cache.ShowsSome size) (hfits : cache.Fits size)
    {address count : Nat} (hin : address + count ≤ size) (hline : address % 64 + count ≤ 64) :
    cache.isHit address count ↔ cache.residency.Has cache.capacity address := by
  rw [isHit, Bool.and_eq_true, isResident_iff_has, and_iff_left_iff_imp]
  intro hheld
  rcases hshows with ⟨words, rfl, hmirrors⟩
  have hshown := hmirrors.lineOf hfits (isResident_iff_has.2 hheld)
  rw [CacheLine.isClean, List.all_eq_true]
  intro i hi
  rw [List.mem_range] at hi
  have hplace : address % 64 + i < 64 := by omega
  have hclean := (hshown.inside (address % 64 + i) hplace (by omega)).1
  rw [offsetOf, lineSize, Vector.getElem?_eq_getElem hplace, hclean]
  rfl

theorem ShowsSome.record (hshows : cache.ShowsSome size) (kind : AccessKind)
    (result : AccessResult) : (cache.record kind result).ShowsSome size := by
  rcases hshows with ⟨words, hsize, hmirrors⟩
  exact ⟨words, hsize, hmirrors.record kind result⟩

/-- The first address of a line is resident when the others are. -/
theorem isResident_baseOf (hfits : cache.Fits size) (address : Nat) :
    cache.isResident (cache.baseOf address) = cache.isResident address := by
  have hbase : cache.segmentOf address * cache.capacity + cache.slotOf address * 64 =
      cache.baseOf address / 64 * 64 := by
    have heq := baseOf_eq hfits address
    have hsame : cache.baseOf address / 64 * 64 = cache.baseOf address := by omega
    rw [hsame]
    rfl
  rcases eq_of_base_eq hfits (slotOf_lt hfits address) hbase with ⟨hsegment, hslot⟩
  rw [isResident, isResident, lineOf, lineOf, ← hsegment, ← hslot]

/-- A slot that is filled from whatever is behind shows words again. -/
theorem ShowsSome.install (hshows : cache.ShowsSome size) (hfits : cache.Fits size) {address : Nat}
    (hin : address < size) (hmiss : ¬cache.isResident address) {words : List Word}
    (hlength : words.length = lengthAt size (cache.baseOf address)) :
    (cache.install address words).ShowsSome size := by
  rcases hshows with ⟨old, rfl, hmirrors⟩
  have hrange := Memory.line_in_range hin
  rw [← baseOf_eq hfits, ← hlength] at hrange
  rw [← isResident_baseOf hfits] at hmiss
  have hbehind := hmirrors.bypass hfits hmiss hrange.2
  have hsize : (splice old (cache.baseOf address) words).size = old.size := size_splice _ _ _
  refine ⟨_, hsize, ?_⟩
  have hfilled := hbehind.install (by rwa [hsize]) (by rwa [hsize])
  rw [hsize, ← hlength, slice_splice hrange.1] at hfilled
  exact hfilled

theorem ShowsSome.written (hshows : cache.ShowsSome size) (hfits : cache.Fits size) {address : Nat}
    (hresident : cache.isResident address) {data : List Word}
    (hline : address % 64 + data.length ≤ 64) (hin : address + data.length ≤ size) :
    (cache.written size address data).ShowsSome size := by
  rcases hshows with ⟨old, rfl, hmirrors⟩
  exact ⟨_, size_splice _ _ _, hmirrors.written hfits hresident hline hin⟩

end Cache

/-- A block that is read is as long as was asked for, also from caches that have fallen behind. -/
theorem Memory.length_readBlock {memory : Memory} {start count : Nat}
    (hline : start % 64 + count ≤ 64) {reply : Reply Memory (List Word)}
    (hreply : memory.readBlock start count = .ok reply) : reply.value.length = count := by
  cases memory with
  | ram store =>
    rcases bind_eq_ok hreply with ⟨answer, hanswer, hlast⟩
    obtain rfl := Except.ok.inj hlast
    rcases bind_eq_ok hanswer with ⟨_, hrange, hread⟩
    obtain rfl := Except.ok.inj hread
    unfold checkRange at hrange
    split at hrange
    next hin => exact length_slice hin
    next => contradiction
  | cache front backing =>
    rcases bind_eq_ok hreply with ⟨_, -, hchecked⟩
    split at hchecked
    · obtain rfl := Except.ok.inj hchecked
      exact CacheLine.length_wordsAt _ hline
    · rcases bind_eq_ok hchecked with ⟨fill, -, hfilled⟩
      obtain rfl := Except.ok.inj hfilled
      exact CacheLine.length_wordsAt _ hline

/-- What a call makes of a cache in front of `size` words. -/
structure Cache.Turned (front front' : Cache) (size : Nat) (call : MemoryCall) : Prop where
  fits : front'.Fits size
  shows : front'.ShowsSome size
  stats_eq : front'.stats = front.stats.recordAll (call.counted front.capacity front.residency)

namespace Memory

section Calls

variable {front : Cache} {backing : Memory} (hformed : (cache front backing).WellFormed)
  (hshows : front.ShowsSome backing.size)

include hformed hshows

/-- The line of an address that is not held is brought in. -/
theorem refill_turned {address : Nat} (hin : address < backing.size)
    (hmiss : ¬front.residency.Has front.capacity address) :
    ∃ fill, backing.readBlock (front.baseOf address)
        (Cache.lengthAt backing.size (front.baseOf address)) = .ok fill ∧
      ∀ kind, (((front.record kind .miss).record .backingReadBlock .miss).install address
        fill.value).ShowsSome backing.size := by
  rcases hformed with ⟨hfits, hbacking⟩
  have hrange := line_in_range hin
  rw [← Cache.baseOf_eq hfits] at hrange
  rcases readBlock_serves backing hbacking hrange.1 hrange.2 with ⟨fill, hfill, -⟩
  refine ⟨fill, hfill, ?_⟩
  intro kind
  have hcounted := (hfits.record kind .miss).record .backingReadBlock .miss
  rw [← Cache.isResident_iff_has] at hmiss
  exact ((hshows.record kind .miss).record .backingReadBlock .miss).install hcounted hin hmiss
    (length_readBlock hrange.2 hfill)

/-- The line of an address that is held is passed on with what is written. -/
theorem push_turned {address : Nat} {data : List Word} (hdata : data ≠ [])
    (hin : address + data.length ≤ backing.size) (hline : address % 64 + data.length ≤ 64)
    (hheld : front.residency.Has front.capacity address) :
    ∃ pushed, backing.writeBlock (front.baseOf address)
        (front.pushedWords backing.size address data) = .ok pushed ∧
      ∀ kind, (((front.record kind .hit).record .backingWriteBlock .miss).written backing.size
        address data).ShowsSome backing.size := by
  rcases hformed with ⟨hfits, hbacking⟩
  have hpositive := List.length_pos_iff.2 hdata
  have hrange := line_in_range (show address < backing.size by omega)
  rw [← Cache.baseOf_eq hfits, ← front.length_pushedWords _ _ data] at hrange
  rcases writeBlock_serves backing hbacking hrange.1 hrange.2 with ⟨pushed, hpushed, -⟩
  refine ⟨pushed, hpushed, ?_⟩
  intro kind
  have hcounted := (hfits.record kind .hit).record .backingWriteBlock .miss
  rw [← Cache.isResident_iff_has] at hheld
  exact ((hshows.record kind .hit).record .backingWriteBlock .miss).written hcounted hheld hline hin

theorem read_turned {address : Nat} (hin : address < backing.size) :
    ∃ reply front' behind, (cache front backing).read address = .ok reply ∧
      reply.state = .cache front' behind ∧ front.Turned front' backing.size (.read address) := by
  have hhit := hshows.isHit_iff hformed.1 (show address + 1 ≤ backing.size from hin) (by omega)
  by_cases hheld : front.residency.Has front.capacity address
  · refine ⟨_, _, _, read_of_hit hin (hhit.2 hheld), rfl, hformed.1.record _ _,
      hshows.record _ _, ?_⟩
    rw [MemoryCall.counted, if_pos hheld]
    rfl
  · rcases refill_turned hformed hshows hin hheld with ⟨fill, hfill, hfilled⟩
    refine ⟨_, _, _, read_of_miss hin (fun hclean => hheld (hhit.1 hclean)) hfill, rfl,
      ((hformed.1.record _ _).record _ _).install _ _, hfilled .read, ?_⟩
    rw [MemoryCall.counted, if_neg hheld]
    rfl

theorem readBlock_turned {start count : Nat} (hin : start + count ≤ backing.size)
    (hline : start % 64 + count ≤ 64) :
    ∃ reply front' behind, (cache front backing).readBlock start count = .ok reply ∧
      reply.state = .cache front' behind ∧
      front.Turned front' backing.size (.readBlock start count) := by
  have hhit : (count = 0 ∨ front.isHit start count) ↔
      (count = 0 ∨ front.residency.Has front.capacity start) :=
    or_congr_right (hshows.isHit_iff hformed.1 hin hline)
  by_cases hheld : count = 0 ∨ front.residency.Has front.capacity start
  · refine ⟨_, _, _, readBlock_of_hit hin hline (hhit.2 hheld), rfl, hformed.1.record _ _,
      hshows.record _ _, ?_⟩
    rw [MemoryCall.counted, if_pos hheld]
    rfl
  · rcases refill_turned hformed hshows (show start < backing.size by omega)
      (fun hhas => hheld (.inr hhas)) with ⟨fill, hfill, hfilled⟩
    refine ⟨_, _, _, readBlock_of_miss hin hline (fun hclean => hheld (hhit.1 hclean)) hfill, rfl,
      ((hformed.1.record _ _).record _ _).install _ _, hfilled .readBlock, ?_⟩
    rw [MemoryCall.counted, if_neg hheld]
    rfl

theorem write_turned {address : Nat} (value : Word) (hin : address < backing.size) :
    ∃ reply front' behind, (cache front backing).write address value = .ok reply ∧
      reply.state = .cache front' behind ∧
      front.Turned front' backing.size (.write address value) := by
  by_cases hheld : front.residency.Has front.capacity address
  · have hline : address % 64 + [value].length ≤ 64 := by
      simp only [List.length_singleton]
      omega
    rcases push_turned hformed hshows (List.cons_ne_nil value []) hin hline hheld with
      ⟨pushed, hpushed, hwritten⟩
    refine ⟨_, _, _, write_of_resident hin (Cache.isResident_iff_has.2 hheld) hpushed, rfl,
      ((hformed.1.record _ _).record _ _).written _ _, hwritten .write, ?_⟩
    rw [MemoryCall.counted, if_pos hheld]
    rfl
  · rcases write_serves backing hformed.2 value hin with ⟨passed, hpassed, -⟩
    refine ⟨_, _, _, write_of_not_resident hin
      (fun hresident => hheld (Cache.isResident_iff_has.1 hresident)) hpassed, rfl,
      (hformed.1.record _ _).record _ _, (hshows.record _ _).record _ _, ?_⟩
    rw [MemoryCall.counted, if_neg hheld]
    rfl

theorem writeBlock_turned {start : Nat} {data : List Word}
    (hin : start + data.length ≤ backing.size) (hline : start % 64 + data.length ≤ 64) :
    ∃ reply front' behind, (cache front backing).writeBlock start data = .ok reply ∧
      reply.state = .cache front' behind ∧
      front.Turned front' backing.size (.writeBlock start data) := by
  by_cases hempty : data = []
  · subst hempty
    refine ⟨_, _, _, writeBlock_nil hin, rfl, hformed.1.record _ _, hshows.record _ _, ?_⟩
    rw [MemoryCall.counted, if_pos rfl]
    rfl
  by_cases hheld : front.residency.Has front.capacity start
  · rcases push_turned hformed hshows hempty hin hline hheld with ⟨pushed, hpushed, hwritten⟩
    refine ⟨_, _, _, writeBlock_of_resident hin hline hempty (Cache.isResident_iff_has.2 hheld)
      hpushed, rfl, ((hformed.1.record _ _).record _ _).written _ _, hwritten .writeBlock, ?_⟩
    rw [MemoryCall.counted, if_neg hempty, if_pos hheld]
    rfl
  · rcases writeBlock_serves backing hformed.2 hin hline with ⟨passed, hpassed, -⟩
    refine ⟨_, _, _, writeBlock_of_not_resident hin hline hempty
      (fun hresident => hheld (Cache.isResident_iff_has.1 hresident)) hpassed, rfl,
      (hformed.1.record _ _).record _ _, (hshows.record _ _).record _ _, ?_⟩
    rw [MemoryCall.counted, if_neg hempty, if_neg hheld]
    rfl

theorem clear_turned (depth : Nat) :
    ∃ reply front' behind, atDepth (fun level => .ok ⟨(), level.clear, []⟩) (cache front backing)
        depth = .ok reply ∧
      reply.state = .cache front' behind ∧ front.Turned front' backing.size (.clear depth) := by
  cases depth with
  | zero =>
    have hempty : front.clear.Mirrors backing.ramWords := Cache.mirrors_of_empty _ rfl
    exact ⟨_, _, _, rfl, rfl, hformed.1.clear, ⟨_, size_ramWords backing, hempty⟩, rfl⟩
  | succ depth =>
    rcases clear_serves backing hformed.2 depth with ⟨reply, hreply, -⟩
    refine ⟨reply.lift (.cache front), _, _, ?_, rfl, hformed.1, hshows, rfl⟩
    simp only [atDepth, hreply]
    rfl

end Calls

end Memory

/-- A call on a cache is answered, and what it is counted as depends on the lines that are held. -/
theorem MemoryCall.run_turned {front : Cache} {backing : Memory}
    (hformed : (Memory.cache front backing).WellFormed) (hshows : front.ShowsSome backing.size)
    {call : MemoryCall} (hallowed : call.Allowed backing.size) :
    ∃ reply front' behind, call.run (.cache front backing) = .ok reply ∧
      reply.state = .cache front' behind ∧ front.Turned front' backing.size call := by
  cases call with
  | read address =>
    rcases Memory.read_turned hformed hshows hallowed with ⟨reply, front', behind, hreply, hturned⟩
    refine ⟨⟨[reply.value], reply.state, reply.events⟩, front', behind, ?_, hturned⟩
    simp only [run, hreply]
    rfl
  | write address value =>
    rcases Memory.write_turned hformed hshows value hallowed with
      ⟨reply, front', behind, hreply, hturned⟩
    refine ⟨⟨[], reply.state, reply.events⟩, front', behind, ?_, hturned⟩
    simp only [run, hreply]
    rfl
  | readBlock start count => exact Memory.readBlock_turned hformed hshows hallowed.1 hallowed.2
  | writeBlock start data =>
    rcases Memory.writeBlock_turned hformed hshows hallowed.1 hallowed.2 with
      ⟨reply, front', behind, hreply, hturned⟩
    refine ⟨⟨[], reply.state, reply.events⟩, front', behind, ?_, hturned⟩
    simp only [run, hreply]
    rfl
  | clear depth =>
    rcases Memory.clear_turned hformed hshows depth with ⟨reply, front', behind, hreply, hturned⟩
    refine ⟨⟨[], reply.state, reply.events⟩, front', behind, ?_, hturned⟩
    simp only [run, hreply]
    rfl

/-- A call on a cache, and the memory that is behind the cache at that moment: between two calls
others may have used it. -/
structure CacheCall where
  behind : Memory
  call : MemoryCall

namespace Cache

def afterCalls : List CacheCall → Cache → Except Violation Cache
  | [], front => pure front
  | made :: rest, front => do
    let reply ← made.call.run (.cache front made.behind)
    match reply.state with
    | .cache front _ => afterCalls rest front
    | .ram _ => pure front

/-- What calls count and leave in the slots. -/
theorem afterCalls_eq {front : Cache} {size : Nat} (hfits : front.Fits size)
    (hshows : front.ShowsSome size) (calls : List CacheCall)
    (hcalls : ∀ made ∈ calls, made.behind.WellFormed ∧ made.behind.size = size ∧
      made.call.Allowed size) :
    ∃ last, afterCalls calls front = .ok last ∧
      last.stats = front.stats.recordAll
        (MemoryCall.countedAll front.capacity front.residency (calls.map CacheCall.call)) ∧
      last.residency =
        (calls.map CacheCall.call).foldl (Residency.after front.capacity) front.residency := by
  induction calls generalizing front with
  | nil => exact ⟨front, rfl, rfl, rfl⟩
  | cons made rest ih =>
    rcases hcalls made List.mem_cons_self with ⟨hbehind, rfl, hallowed⟩
    have hformed : (Memory.cache front made.behind).WellFormed := ⟨hfits, hbehind⟩
    rcases MemoryCall.run_turned hformed hshows hallowed with
      ⟨reply, front', behind, hreply, hstate, hturned⟩
    rcases MemoryCall.run_holds hformed hallowed with
      ⟨reply', hreply', held, behind', hstate', hcapacity, hresidency⟩
    obtain rfl := Except.ok.inj (hreply'.symm.trans hreply)
    obtain ⟨rfl, rfl⟩ := Memory.cache.inj (hstate'.symm.trans hstate)
    rcases ih hturned.fits hturned.shows
      (fun later hlater => hcalls later (List.mem_cons_of_mem made hlater)) with
      ⟨last, hlast, hstats, hheld⟩
    rw [hturned.stats_eq, hcapacity, hresidency] at hstats
    rw [hcapacity, hresidency] at hheld
    refine ⟨last, ?_, ?_, hheld⟩
    · simp only [afterCalls, hreply, bind, Except.bind, hstate, hlast]
    · rw [hstats, List.map_cons, MemoryCall.countedAll, AccessStats.recordAll,
        AccessStats.recordAll, AccessStats.recordAll, List.foldl_append]

/-- A new cache after fewer than 2^64 calls, whatever others do to the memory behind it: every
counter is the number of accesses that a reference counts which follows the lines in the slots
alone, and the hits and misses of a kind that callers cause are the calls of that kind. -/
theorem counters_after_calls {name : String} {policy : CachePolicy} {capacity size : Nat}
    {front : Cache} (hbuild : build name policy capacity size = .ok front) (calls : List CacheCall)
    (hfew : calls.length < UInt64.size)
    (hcalls : ∀ made ∈ calls, made.behind.WellFormed ∧ made.behind.size = size ∧
      made.call.Allowed size) :
    ∃ last, afterCalls calls front = .ok last ∧
      (∀ kind,
        last.stats.hits kind = (MemoryCall.countedAll capacity .empty
          (calls.map CacheCall.call)).count ⟨kind, .hit⟩ ∧
        last.stats.misses kind = (MemoryCall.countedAll capacity .empty
          (calls.map CacheCall.call)).count ⟨kind, .miss⟩) ∧
      (∀ kind, kind.isBacking = false → last.stats.count kind =
        (calls.map CacheCall.call).countP fun call => call.kind? = some kind) ∧
      last.residency = (calls.map CacheCall.call).foldl (Residency.after capacity) .empty := by
  rcases build_eq_ok hbuild with ⟨hfits, hempty⟩
  obtain rfl := capacity_of_build hbuild
  have hshows : front.ShowsSome size :=
    ⟨Array.replicate size 0, Array.size_replicate, mirrors_of_empty _ hempty⟩
  have hstats : front.stats = {} := by grind [build]
  rcases afterCalls_eq hfits hshows calls hcalls with ⟨last, hlast, hcounts, hheld⟩
  rw [residency_of_empty hempty] at hcounts hheld
  rw [hstats] at hcounts
  have hcounter (access : CountedAccess) : last.stats.counter access =
      (MemoryCall.countedAll front.capacity .empty (calls.map CacheCall.call)).count access := by
    have hzero : AccessStats.counter {} access = 0 := by
      rcases access with ⟨kind, result⟩
      cases kind <;> cases result <;> rfl
    have hbound := MemoryCall.count_countedAll_le front.capacity .empty
      (calls.map CacheCall.call) access
    rw [List.length_map] at hbound
    have hlimit : countLimit = UInt64.size - 1 := rfl
    rw [hcounts, AccessStats.counter_recordAll _ _ _ (by omega), hzero, Nat.zero_add]
  refine ⟨last, hlast, ?_, ?_, hheld⟩
  · intro kind
    exact ⟨hcounter ⟨kind, .hit⟩, hcounter ⟨kind, .miss⟩⟩
  · intro kind hkind
    rw [← MemoryCall.count_countedAll front.capacity .empty _ hkind, ← hcounter, ← hcounter]
    rfl

/-- A cache of one slot in front of 100 words, whose second line is cut short; what is behind it
changes between the calls.  A read misses, a write to the same line hits, an empty block hits, and
after a clear both a written and a read block miss. -/
theorem counters_after_calls_short_line :
    ∃ front last : Cache, build "L1" {} 64 100 = .ok front ∧
      afterCalls
        [⟨.ram { name := "RAM", words := Array.replicate 100 9 }, .read 70⟩,
          ⟨.ram { name := "RAM", words := Array.replicate 100 2 }, .write 99 5⟩,
          ⟨.ram { name := "RAM", words := Array.replicate 100 2 }, .writeBlock 3 []⟩,
          ⟨.ram { name := "RAM", words := Array.replicate 100 7 }, .clear 0⟩,
          ⟨.ram { name := "RAM", words := Array.replicate 100 7 }, .writeBlock 98 [1, 2]⟩,
          ⟨.ram { name := "RAM", words := Array.replicate 100 7 }, .readBlock 96 4⟩] front =
        .ok last ∧
      last.stats.misses .read = 1 ∧ last.stats.hits .write = 1 ∧
      last.stats.hits .writeBlock = 1 ∧ last.stats.misses .writeBlock = 1 ∧
      last.stats.misses .readBlock = 1 ∧ last.stats.misses .backingReadBlock = 2 ∧
      last.stats.misses .backingWriteBlock = 2 ∧ last.stats.misses .backingWrite = 0 := by
  have hbuild : build "L1" {} 64 100 =
      .ok { name := "L1", capacity := 64, lines := Vector.replicate 1 {} } := rfl
  rcases counters_after_calls hbuild
    [⟨.ram { name := "RAM", words := Array.replicate 100 9 }, .read 70⟩,
      ⟨.ram { name := "RAM", words := Array.replicate 100 2 }, .write 99 5⟩,
      ⟨.ram { name := "RAM", words := Array.replicate 100 2 }, .writeBlock 3 []⟩,
      ⟨.ram { name := "RAM", words := Array.replicate 100 7 }, .clear 0⟩,
      ⟨.ram { name := "RAM", words := Array.replicate 100 7 }, .writeBlock 98 [1, 2]⟩,
      ⟨.ram { name := "RAM", words := Array.replicate 100 7 }, .readBlock 96 4⟩]
    (by decide)
    (by simp [Memory.WellFormed, Memory.size, Ram.size, MemoryCall.Allowed, lineSize]) with
    ⟨last, hlast, hcounts, -, -⟩
  exact ⟨_, last, hbuild, hlast, (hcounts .read).2, (hcounts .write).1, (hcounts .writeBlock).1,
    (hcounts .writeBlock).2, (hcounts .readBlock).2, (hcounts .backingReadBlock).2,
    (hcounts .backingWriteBlock).2, (hcounts .backingWrite).2⟩

end Cache

end A64Machine
