import A64Machine.Proofs.Execution.Reachable

/-!
What a cache holds between two calls.  The calls made on it determine which line each of its slots
holds, and a slot that holds a line has clean copies of all words of the line that lie inside the
memory behind the cache, and nothing else.
-/

namespace A64Machine

/-- The segment of the line that each slot of a direct-mapped cache holds, if it holds one. -/
abbrev Residency := Nat → Option Nat

namespace Residency

def empty : Residency := fun _ => none

/-- The line of an address is brought into its slot. -/
def fill (held : Residency) (capacity address : Nat) : Residency := fun number =>
  if number = address % capacity / lineSize then some (address / capacity) else held number

/-- What a cache of `capacity` words holds after a call: a read brings a line in, a write moves none,
and a clear of the cache drops them all. -/
def after (capacity : Nat) (held : Residency) : MemoryCall → Residency
  | .read address => held.fill capacity address
  | .write _ _ => held
  | .readBlock start count => if count = 0 then held else held.fill capacity start
  | .writeBlock _ _ => held
  | .clear depth => if depth = 0 then empty else held

end Residency

namespace Cache

/-- The segments that the slots of a cache hold. -/
def residency (cache : Cache) : Residency := fun number => (cache.slot number).segment

variable {cache : Cache} {size : Nat}

theorem residency_install (hfits : cache.Fits size) (address : Nat) (words : List Word) :
    (cache.install address words).residency = cache.residency.fill cache.capacity address := by
  funext number
  simp only [residency, install, slot_modifyLine hfits, Residency.fill]
  by_cases hslot : number = cache.slotOf address
  · rw [if_pos hslot.symm]
    exact (if_pos hslot).symm
  · rw [if_neg (Ne.symm hslot)]
    exact (if_neg hslot).symm

theorem residency_modifyLine (hfits : cache.Fits size) (address : Nat) {f : CacheLine → CacheLine}
    (hsegment : ∀ line, (f line).segment = line.segment) :
    (cache.modifyLine address f).residency = cache.residency := by
  funext number
  simp only [residency, slot_modifyLine hfits]
  split
  next hslot =>
    rw [hsegment, ← hslot]
    rfl
  next => rfl

theorem residency_written (hfits : cache.Fits size) (address : Nat) (data : List Word) :
    (cache.written size address data).residency = cache.residency := by
  rw [written, modifyLine_modifyLine hfits]
  exact residency_modifyLine hfits address fun _ => rfl

theorem residency_of_empty (hempty : cache.lines = Vector.replicate (cache.capacity / 64) {}) :
    cache.residency = Residency.empty := by
  funext number
  by_cases hnumber : number < cache.capacity / 64 <;>
    simp [residency, slot, hempty, hnumber, Residency.empty]

theorem capacity_of_build {name : String} {policy : CachePolicy} {backing : Nat}
    (hbuild : build name policy size backing = .ok cache) : cache.capacity = size := by
  grind [build]

/-- To bring in a line that is there already changes nothing. -/
theorem fill_residency {address count : Nat} (hhit : cache.isHit address count) :
    cache.residency.fill cache.capacity address = cache.residency := by
  rw [isHit, Bool.and_eq_true, isResident_iff] at hhit
  funext number
  simp only [Residency.fill]
  split
  next hslot =>
    rw [hslot]
    exact hhit.1.symm
  next => rfl

theorem checkBlock_refused (cache : Cache) {start count : Nat}
    (hrefused : ¬(start + count ≤ size ∧ start % lineSize + count ≤ lineSize)) :
    ∃ violation, cache.checkBlock size start count = .error violation := by
  unfold checkBlock checkRange
  split
  next hin =>
    have hline : ¬offsetOf start + count ≤ lineSize := fun hline => hrefused ⟨hin, hline⟩
    rw [if_neg hline]
    exact ⟨_, rfl⟩
  next => exact ⟨_, rfl⟩

end Cache

namespace Memory

/-- Whether a memory has a cache of the given capacity on top that holds the given lines. -/
def Holds (memory : Memory) (capacity : Nat) (held : Residency) : Prop :=
  ∃ front backing, memory = .cache front backing ∧ front.capacity = capacity ∧
    front.residency = held

section Calls

variable {front : Cache} {backing : Memory} (hformed : (cache front backing).WellFormed)

include hformed

theorem read_holds {address : Nat} (hin : address < backing.size) :
    ∃ reply, (cache front backing).read address = .ok reply ∧
      reply.state.Holds front.capacity (front.residency.fill front.capacity address) := by
  obtain ⟨hfits, hbacking⟩ := hformed
  by_cases hhit : front.isHit address 1
  · rw [Cache.fill_residency hhit]
    exact ⟨_, read_of_hit hin hhit, _, _, rfl, rfl, rfl⟩
  · have hrange := line_in_range hin
    rw [← Cache.baseOf_eq hfits] at hrange
    obtain ⟨fill, hfill, -⟩ := readBlock_serves backing hbacking hrange.1 hrange.2
    have hcounted := (hfits.record .read .miss).record .backingReadBlock .miss
    exact ⟨_, read_of_miss hin hhit hfill, _, _, rfl, rfl,
      Cache.residency_install hcounted address fill.value⟩

theorem readBlock_holds {start count : Nat} (hin : start + count ≤ backing.size)
    (hline : start % 64 + count ≤ 64) :
    ∃ reply, (cache front backing).readBlock start count = .ok reply ∧
      reply.state.Holds front.capacity
        (if count = 0 then front.residency else front.residency.fill front.capacity start) := by
  obtain ⟨hfits, hbacking⟩ := hformed
  by_cases hhit : count = 0 ∨ front.isHit start count
  · refine ⟨_, readBlock_of_hit hin hline hhit, _, _, rfl, rfl, ?_⟩
    split
    next => rfl
    next hsome => exact (Cache.fill_residency (hhit.resolve_left hsome)).symm
  · have hsome : count ≠ 0 := fun hzero => hhit (.inl hzero)
    have hrange := line_in_range (show start < backing.size by omega)
    rw [← Cache.baseOf_eq hfits] at hrange
    obtain ⟨fill, hfill, -⟩ := readBlock_serves backing hbacking hrange.1 hrange.2
    have hcounted := (hfits.record .readBlock .miss).record .backingReadBlock .miss
    rw [if_neg hsome]
    exact ⟨_, readBlock_of_miss hin hline hhit hfill, _, _, rfl, rfl,
      Cache.residency_install hcounted start fill.value⟩

theorem write_holds {address : Nat} (value : Word) (hin : address < backing.size) :
    ∃ reply, (cache front backing).write address value = .ok reply ∧
      reply.state.Holds front.capacity front.residency := by
  obtain ⟨hfits, hbacking⟩ := hformed
  by_cases hresident : front.isResident address
  · have hrange := line_in_range hin
    rw [← Cache.baseOf_eq hfits, ← front.length_pushedWords _ _ [value]] at hrange
    obtain ⟨pushed, hpushed, -⟩ := writeBlock_serves backing hbacking hrange.1 hrange.2
    have hcounted := (hfits.record .write .hit).record .backingWriteBlock .miss
    exact ⟨_, write_of_resident hin hresident hpushed, _, _, rfl, rfl,
      Cache.residency_written hcounted address [value]⟩
  · obtain ⟨passed, hpassed, -⟩ := write_serves backing hbacking value hin
    exact ⟨_, write_of_not_resident hin hresident hpassed, _, _, rfl, rfl, rfl⟩

theorem writeBlock_holds {start : Nat} {data : List Word}
    (hin : start + data.length ≤ backing.size) (hline : start % 64 + data.length ≤ 64) :
    ∃ reply, (cache front backing).writeBlock start data = .ok reply ∧
      reply.state.Holds front.capacity front.residency := by
  obtain ⟨hfits, hbacking⟩ := hformed
  by_cases hempty : data = []
  · subst hempty
    exact ⟨_, writeBlock_nil hin, _, _, rfl, rfl, rfl⟩
  · by_cases hresident : front.isResident start
    · have hpositive := List.length_pos_iff.2 hempty
      have hrange := line_in_range (show start < backing.size by omega)
      rw [← Cache.baseOf_eq hfits, ← front.length_pushedWords _ _ data] at hrange
      obtain ⟨pushed, hpushed, -⟩ := writeBlock_serves backing hbacking hrange.1 hrange.2
      have hcounted := (hfits.record .writeBlock .hit).record .backingWriteBlock .miss
      exact ⟨_, writeBlock_of_resident hin hline hempty hresident hpushed, _, _, rfl, rfl,
        Cache.residency_written hcounted start data⟩
    · obtain ⟨passed, hpassed, -⟩ := writeBlock_serves backing hbacking hin hline
      exact ⟨_, writeBlock_of_not_resident hin hline hempty hresident hpassed, _, _, rfl, rfl, rfl⟩

theorem clear_holds (depth : Nat) :
    ∃ reply, atDepth (fun level => .ok ⟨(), level.clear, []⟩) (cache front backing) depth =
        .ok reply ∧
      reply.state.Holds front.capacity (if depth = 0 then .empty else front.residency) := by
  cases depth with
  | zero => exact ⟨_, rfl, _, _, rfl, rfl, Cache.residency_of_empty rfl⟩
  | succ depth =>
    obtain ⟨reply, hreply, -⟩ := clear_serves backing hformed.2 depth
    refine ⟨reply.lift (.cache front), ?_, _, _, rfl, rfl, rfl⟩
    simp only [atDepth, hreply]
    rfl

end Calls

end Memory

/-- What a cache holds after a call that keeps the contract. -/
theorem MemoryCall.run_holds {front : Cache} {backing : Memory}
    (hformed : (Memory.cache front backing).WellFormed) {call : MemoryCall}
    (hallowed : call.Allowed backing.size) :
    ∃ reply, call.run (.cache front backing) = .ok reply ∧
      reply.state.Holds front.capacity (front.residency.after front.capacity call) := by
  cases call with
  | read address =>
    obtain ⟨reply, hreply, hholds⟩ := Memory.read_holds hformed hallowed
    refine ⟨⟨[reply.value], reply.state, reply.events⟩, ?_, hholds⟩
    simp only [run, hreply]
    rfl
  | write address value =>
    obtain ⟨reply, hreply, hholds⟩ := Memory.write_holds hformed value hallowed
    refine ⟨⟨[], reply.state, reply.events⟩, ?_, hholds⟩
    simp only [run, hreply]
    rfl
  | readBlock start count => exact Memory.readBlock_holds hformed hallowed.1 hallowed.2
  | writeBlock start data =>
    obtain ⟨reply, hreply, hholds⟩ := Memory.writeBlock_holds hformed hallowed.1 hallowed.2
    refine ⟨⟨[], reply.state, reply.events⟩, ?_, hholds⟩
    simp only [run, hreply]
    rfl
  | clear depth =>
    obtain ⟨reply, hreply, hholds⟩ := Memory.clear_holds hformed depth
    refine ⟨⟨[], reply.state, reply.events⟩, ?_, hholds⟩
    simp only [run, hreply]
    rfl

/-- A call that breaks the contract of a cache is refused. -/
theorem MemoryCall.run_refused (front : Cache) (backing : Memory) {call : MemoryCall}
    (hrefused : ¬call.Allowed backing.size) :
    ∃ violation, call.run (.cache front backing) = .error violation := by
  cases call with
  | read address =>
    have hout : ¬address + 1 ≤ backing.size := hrefused
    exact ⟨_, by simp only [run, Memory.read, checkRange, hout, if_false]; rfl⟩
  | write address value =>
    have hout : ¬address + 1 ≤ backing.size := hrefused
    exact ⟨_, by simp only [run, Memory.write, checkRange, hout, if_false]; rfl⟩
  | readBlock start count =>
    obtain ⟨violation, hcheck⟩ := front.checkBlock_refused hrefused
    exact ⟨violation, by simp only [run, Memory.readBlock, hcheck]; rfl⟩
  | writeBlock start data =>
    obtain ⟨violation, hcheck⟩ := front.checkBlock_refused hrefused
    exact ⟨violation, by simp only [run, Memory.writeBlock, hcheck]; rfl⟩
  | clear depth => exact absurd trivial hrefused

/-- The memory after a call; one that is refused changes nothing. -/
def Memory.after (memory : Memory) (call : MemoryCall) : Memory :=
  match call.run memory with
  | .ok reply => reply.state
  | .error _ => memory

/-- What holds of a cache between two calls, when its slots hold the given lines of the memory behind
it. -/
structure Cache.Consistent (front : Cache) (backing : Memory) (held : Residency) : Prop where
  segment_eq (number : Nat) : (front.slot number).segment = held number
  not_modified (number i : Nat) (hi : i < 64) : (front.slot number).states[i] ≠ .modified
  vacant (number : Nat) (hvacant : held number = none) (i : Nat) (hi : i < 64) :
    (front.slot number).states[i] = .empty
  occupied (number segment : Nat) (hheld : held number = some segment) (i : Nat) (hi : i < 64) :
    (front.slot number).states[i] =
      if i < min 64 (backing.size - (segment * front.capacity + number * 64)) then .clean else .empty
  current (number segment : Nat) (hheld : held number = some segment) (i : Nat) (hi : i < 64)
    (hclean : (front.slot number).states[i] = .clean) :
    ∃ reply, backing.read (segment * front.capacity + number * 64 + i) = .ok reply ∧
      reply.value = (front.slot number).data[i]
  resident_iff (address : Nat) :
    (front.resident backing.size address).isSome ↔ front.state backing.size address = .clean
  exclusive (a b : Nat) (hslot : a % front.capacity / 64 = b % front.capacity / 64)
    (hsegment : a / front.capacity ≠ b / front.capacity) :
    front.resident backing.size a = none ∨ front.resident backing.size b = none

namespace Cache

variable {front : Cache}

/-- What is known of a word is known to be clean exactly when there is a copy of it. -/
theorem isSome_resident_iff (front : Cache) (size address : Nat) :
    (front.resident size address).isSome ↔ front.state size address = .clean := by
  have hplace : offsetOf address < 64 := Nat.mod_lt _ (by decide)
  have hclean : (front.lineOf address).isClean (offsetOf address) 1 ↔
      (front.lineOf address).states[offsetOf address] = .clean := by
    simp [CacheLine.isClean, hplace]
  unfold resident state isHit
  by_cases hin : address < size ∧ front.isResident address
  · rw [if_pos hin]
    simp [hin, hclean, hplace]
  · rw [if_neg hin]
    have hmiss : ¬(address < size ∧ (front.isResident address &&
        (front.lineOf address).isClean (offsetOf address) 1)) := by
      rw [Bool.and_eq_true]
      exact fun hhit => hin ⟨hhit.1, hhit.2.1⟩
    rw [if_neg hmiss]
    simp

/-- Two lines that compete for a slot are not resident at the same time. -/
theorem resident_eq_none_or (front : Cache) (size : Nat) {a b : Nat}
    (hslot : a % front.capacity / 64 = b % front.capacity / 64)
    (hsegment : a / front.capacity ≠ b / front.capacity) :
    front.resident size a = none ∨ front.resident size b = none := by
  have hmiss {address : Nat} (hother : ¬front.isResident address) :
      front.resident size address = none := by
    unfold resident
    rw [if_neg]
    rintro ⟨-, hhit⟩
    rw [isHit, Bool.and_eq_true] at hhit
    exact hother hhit.1
  by_cases ha : front.isResident a
  · right
    apply hmiss
    intro hb
    rw [isResident_iff] at ha hb
    have hline : front.lineOf a = front.lineOf b := by
      simp only [lineOf, slotOf, lineSize, hslot]
    rw [hline, hb] at ha
    exact hsegment (Option.some.inj ha).symm
  · exact .inl (hmiss ha)

/-- A cache that agrees with the words behind it shows the state of a cache between two calls. -/
theorem consistent_of_coherent {backing : Memory}
    (hformed : (Memory.cache front backing).WellFormed)
    (hcoherent : (Memory.cache front backing).Coherent) :
    front.Consistent backing front.residency := by
  obtain ⟨hmirrors, hbacking⟩ := hcoherent
  have hsize := Memory.size_ramWords backing
  have hstate (number segment : Nat) (hheld : (front.slot number).segment = some segment) (i : Nat)
      (hi : i < 64) : (front.slot number).states[i] =
        if i < min 64 (backing.size - (segment * front.capacity + number * 64)) then .clean
        else .empty := by
    obtain ⟨-, hline⟩ := hmirrors.occupied number segment hheld
    split
    next hin => exact (hline.inside i hi (by omega)).1
    next hout => exact hline.outside i hi (by omega)
  constructor
  case segment_eq => exact fun _ => rfl
  case vacant => exact fun number hvacant => hmirrors.vacant number hvacant
  case occupied => exact hstate
  case resident_iff => exact front.isSome_resident_iff backing.size
  case exclusive => exact fun a b => front.resident_eq_none_or backing.size
  case not_modified =>
    intro number i hi
    cases hheld : (front.slot number).segment with
    | none =>
      rw [hmirrors.vacant number hheld i hi]
      decide
    | some segment =>
      rw [hstate number segment hheld i hi]
      split
      · decide
      · decide
  case current =>
    intro number segment hheld i hi hclean
    obtain ⟨hbase, hline⟩ := hmirrors.occupied number segment hheld
    have hin : segment * front.capacity + number * 64 + i < backing.ramWords.size := by
      apply Nat.lt_of_not_le
      intro hout
      rw [hline.outside i hi hout] at hclean
      contradiction
    obtain ⟨reply, hreply, hserves⟩ := backing.read_serves hformed.2 (hsize ▸ hin)
    refine ⟨reply, hreply, ?_⟩
    rw [hserves.value_eq hbacking, (hline.inside i hi hin).2]
    rfl

end Cache

namespace Memory

/-- A memory of `size` words that its caches agree with, and what its top cache holds. -/
structure InStep (memory : Memory) (size capacity : Nat) (held : Residency) : Prop where
  wellFormed : memory.WellFormed
  coherent : memory.Coherent
  size_eq : memory.size = size
  holds : memory.Holds capacity held

variable {memory : Memory} {size capacity : Nat} {held : Residency}

theorem InStep.after (hmemory : memory.InStep size capacity held) (call : MemoryCall) :
    (memory.after call).InStep size capacity
      (if call.Allowed size then held.after capacity call else held) := by
  obtain ⟨hformed, hcoherent, rfl, front, backing, rfl, rfl, rfl⟩ := hmemory
  unfold Memory.after
  by_cases hallowed : call.Allowed (cache front backing).size
  · obtain ⟨reply, hreply, hholds⟩ := MemoryCall.run_holds hformed hallowed
    obtain ⟨reply', hreply', hserves⟩ := MemoryCall.run_serves hformed hallowed
    obtain rfl := Except.ok.inj (hreply'.symm.trans hreply)
    simp only [hreply]
    rw [if_pos hallowed]
    exact ⟨hserves.wellFormed, hserves.coherent hcoherent, hserves.size_eq, hholds⟩
  · obtain ⟨violation, hviolation⟩ := MemoryCall.run_refused front backing hallowed
    simp only [hviolation]
    rw [if_neg hallowed]
    exact ⟨hformed, hcoherent, rfl, front, backing, rfl, rfl, rfl⟩

theorem InStep.after_calls (hmemory : memory.InStep size capacity held) (calls : List MemoryCall) :
    (calls.foldl Memory.after memory).InStep size capacity
      ((calls.filter fun call => call.Allowed size).foldl (Residency.after capacity) held) := by
  induction calls generalizing memory held with
  | nil => exact hmemory
  | cons call rest ih =>
    have hrest := ih (hmemory.after call)
    by_cases hallowed : call.Allowed size
    · rw [if_pos hallowed] at hrest
      rwa [List.filter_cons_of_pos (by simpa using hallowed)]
    · rw [if_neg hallowed] at hrest
      rwa [List.filter_cons_of_neg (by simpa using hallowed)]

end Memory

/-- A cache that was put in front of a memory which nobody else uses, after any calls on it: no word
waits to be written through; a slot into which no line was brought since it was last cleared is empty;
any other holds clean copies of the words of its line that the memory behind has, nothing past their
end, and every copy is what that memory answers now; and lines that compete for a slot exclude each
other. -/
theorem Cache.consistent_after_calls {backing : Memory} (hbacking : backing.Reachable)
    {name : String} {policy : CachePolicy} {size : Nat} {front : Cache}
    (hbuild : build name policy size backing.size = .ok front) (calls : List MemoryCall) :
    ∃ front' backing', calls.foldl Memory.after (.cache front backing) = .cache front' backing' ∧
      backing'.size = backing.size ∧ front'.capacity = size ∧
      front'.Consistent backing' ((calls.filter fun call => call.Allowed backing.size).foldl
        (Residency.after size) .empty) := by
  obtain ⟨hfits, hempty⟩ := build_eq_ok hbuild
  obtain ⟨hformed, hcoherent⟩ := hbacking.coherent
  obtain rfl := capacity_of_build hbuild
  have hstart : (Memory.cache front backing).InStep backing.size front.capacity .empty :=
    ⟨⟨hfits, hformed⟩, ⟨mirrors_of_empty _ hempty, hcoherent⟩, rfl, front, backing, rfl, rfl,
      residency_of_empty hempty⟩
  obtain ⟨hformed', hcoherent', hsize, front', backing', hcalls, hcapacity, hheld⟩ :=
    hstart.after_calls calls
  rw [hcalls] at hformed' hcoherent' hsize
  refine ⟨front', backing', hcalls, hsize, hcapacity, ?_⟩
  rw [← hheld]
  exact consistent_of_coherent hformed' hcoherent'

/-- A cache of one slot in front of 100 words, whose second line is cut short: the slot is filled,
filled again for the other segment, cleared and filled; the last call is refused. -/
theorem Cache.consistent_after_calls_short_line :
    ∃ (backing : Memory) (front : Cache), backing.Reachable ∧ backing.size = 100 ∧
      build "L1" {} 64 backing.size = .ok front ∧
      ∃ front' backing', [.read 70, .write 99 5, .readBlock 0 64, .clear 0, .readBlock 99 1,
          .write 3 1, .write 100 1].foldl Memory.after (.cache front backing) =
          .cache front' backing' ∧
        backing'.size = 100 ∧ front'.capacity = 64 ∧
        front'.Consistent backing' (Residency.empty.fill 64 99) := by
  let backing : Memory := .ram { name := "RAM", words := Array.replicate 100 9 }
  have hbuild : build "L1" {} 64 backing.size =
      .ok { name := "L1", capacity := 64, lines := Vector.replicate 1 {} } := rfl
  exact ⟨backing, _, .ram _, rfl, hbuild, consistent_after_calls (.ram _) hbuild _⟩

end A64Machine
