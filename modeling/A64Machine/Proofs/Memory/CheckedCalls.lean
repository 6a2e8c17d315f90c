import A64Machine.Proofs.Execution.CheckedArithmetic
import A64Machine.Proofs.Memory.Service

/-!
Calls on a memory in checked arithmetic.  The place of an address in a cache, the address of a line
and the bounds of every slice are computed step by step, and an index past the end of a sequence
stops the call.  A call that lies inside a well-formed memory never stops there: it is answered as
the memory answers it.
-/

namespace A64Machine

namespace Checked

/-- Checks that an access ends at an address and inside a memory. -/
def checkRange (name : String) (size start count : Nat) : Except Stop Unit :=
  if start + count < UInt64.size ∧ start + count ≤ size then pure ()
  else throw (.violation (.outOfRange name count start size))

/-- Checks that a slice ends inside its sequence. -/
def checkSlice (size start count : Nat) : Except Stop Unit := do
  let stop ← sum UInt64.size start count
  if stop ≤ size then pure () else throw (.trap .index)

/-- Checks that a slice has the length of the words that it is copied to. -/
def checkLength (words : List Word) (length : Nat) : Except Stop Unit :=
  if words.length = length then pure () else throw (.trap .index)

/-- Where an address belongs in a cache. -/
structure Place where
  segment : Nat
  slot : Nat
  offset : Nat

def locate (front : Cache) (address : Nat) : Except Stop Place := do
  let segment ← quotient address front.capacity
  let within ← remainder address front.capacity
  let slot ← quotient within lineSize
  let offset ← remainder address lineSize
  pure { segment, slot, offset }

def lineBase (front : Cache) (place : Place) : Except Stop Nat := do
  let start ← product UInt64.size place.segment front.capacity
  let above ← product UInt64.size place.slot lineSize
  sum UInt64.size start above

def isResident (front : Cache) (place : Place) : Except Stop Bool := do
  let line ← elementAt front.lines.toList place.slot
  pure (line.segment == some place.segment)

def isHit (front : Cache) (place : Place) (count : Nat) : Except Stop Bool := do
  let resident ← isResident front place
  if resident then do
    checkSlice lineSize place.offset count
    let line ← elementAt front.lines.toList place.slot
    pure (line.isClean place.offset count)
  else pure false

def checkBlock (front : Cache) (size start count : Nat) : Except Stop Unit := do
  checkRange front.name size start count
  let place ← locate front start
  let stop ← sum UInt64.size place.offset count
  if stop ≤ lineSize then pure () else throw (.violation (.crossesLine front.name count start))

def readRam (store : Ram) (address : Nat) : Except Stop (Reply Ram Word) := do
  checkRange store.name store.size address 1
  let word ← elementAt store.words.toList address
  pure ⟨word, store.record .read, [store.accessed .read address]⟩

def writeRam (store : Ram) (address : Nat) (value : Word) : Except Stop (Reply Ram Unit) := do
  checkRange store.name store.size address 1
  checkSlice store.size address 1
  pure ⟨(), (store.withWords address [value]).record .write, [store.accessed .write address]⟩

def readBlock : Memory → Nat → Nat → Except Stop (Reply Memory (List Word))
  | .ram store, start, count => do
    checkRange store.name store.size start count
    checkSlice store.size start count
    let words := (store.words.extract start (start + count)).toList
    pure ⟨words, .ram (store.record .readBlock), [store.accessed .readBlock start]⟩
  | .cache front backing, start, count => do
    checkBlock front backing.size start count
    let place ← locate front start
    let hit ← isHit front place count
    checkSlice lineSize place.offset count
    if count = 0 ∨ hit then
      pure ⟨front.wordsAt start count, .cache (front.record .readBlock .hit) backing,
        [front.accessed .readBlock .hit start]⟩
    else do
      let base ← lineBase front place
      let fill ← readBlock backing base (Cache.lengthAt backing.size base)
      checkLength fill.value (Cache.lengthAt backing.size base)
      let filled := ((front.record .readBlock .miss).record .backingReadBlock .miss).install
        start fill.value
      pure ⟨filled.wordsAt start count, .cache filled fill.state,
        front.accessed .readBlock .miss start ::
          front.accessed .backingReadBlock .miss base :: fill.events⟩

def read : Memory → Nat → Except Stop (Reply Memory Word)
  | .ram store, address => do
    let reply ← readRam store address
    pure (reply.lift .ram)
  | .cache front backing, address => do
    checkRange front.name backing.size address 1
    let place ← locate front address
    let hit ← isHit front place 1
    if hit then do
      let word ← elementAt (front.lineOf address).data.toList place.offset
      pure ⟨word, .cache (front.record .read .hit) backing, [front.accessed .read .hit address]⟩
    else do
      let base ← lineBase front place
      let fill ← readBlock backing base (Cache.lengthAt backing.size base)
      checkLength fill.value (Cache.lengthAt backing.size base)
      let filled := ((front.record .read .miss).record .backingReadBlock .miss).install
        address fill.value
      let word ← elementAt (filled.lineOf address).data.toList place.offset
      pure ⟨word, .cache filled fill.state,
        front.accessed .read .miss address ::
          front.accessed .backingReadBlock .miss base :: fill.events⟩

def writeBlock : Memory → Nat → List Word → Except Stop (Reply Memory Unit)
  | .ram store, start, data => do
    checkRange store.name store.size start data.length
    checkSlice store.size start data.length
    pure ⟨(), .ram ((store.withWords start data).record .writeBlock),
      [store.accessed .writeBlock start]⟩
  | .cache front backing, start, data => do
    checkBlock front backing.size start data.length
    let place ← locate front start
    let resident ← isResident front place
    if data.isEmpty then
      pure ⟨(), .cache (front.record .writeBlock .hit) backing,
        [front.accessed .writeBlock .hit start]⟩
    else if resident then do
      checkSlice lineSize place.offset data.length
      let base ← lineBase front place
      checkSlice lineSize 0 (Cache.lengthAt backing.size base)
      let pushed ← writeBlock backing base (front.pushedWords backing.size start data)
      pure ⟨(), .cache (((front.record .writeBlock .hit).record .backingWriteBlock .miss).written
          backing.size start data) pushed.state,
        front.accessed .writeBlock .hit start ::
          front.accessed .backingWriteBlock .miss base :: pushed.events⟩
    else do
      let passed ← writeBlock backing start data
      pure ⟨(),
        .cache ((front.record .writeBlock .miss).record .backingWriteBlock .miss) passed.state,
        front.accessed .writeBlock .miss start ::
          front.accessed .backingWriteBlock .miss start :: passed.events⟩

def write : Memory → Nat → Word → Except Stop (Reply Memory Unit)
  | .ram store, address, value => do
    let reply ← writeRam store address value
    pure (reply.lift .ram)
  | .cache front backing, address, value => do
    checkRange front.name backing.size address 1
    let place ← locate front address
    let resident ← isResident front place
    if resident then do
      checkSlice lineSize place.offset 1
      let base ← lineBase front place
      checkSlice lineSize 0 (Cache.lengthAt backing.size base)
      let pushed ← writeBlock backing base (front.pushedWords backing.size address [value])
      pure ⟨(), .cache (((front.record .write .hit).record .backingWriteBlock .miss).written
          backing.size address [value]) pushed.state,
        front.accessed .write .hit address ::
          front.accessed .backingWriteBlock .miss base :: pushed.events⟩
    else do
      let passed ← write backing address value
      pure ⟨(), .cache ((front.record .write .miss).record .backingWrite .miss) passed.state,
        front.accessed .write .miss address ::
          front.accessed .backingWrite .miss address :: passed.events⟩

theorem lineSize_lt : lineSize < UInt64.size := by decide

section Bounds

variable {name : String} {size start count : Nat}

theorem checkRange_eq (hsize : size < UInt64.size) (hin : start + count ≤ size) :
    checkRange name size start count = pure () := if_pos ⟨by omega, hin⟩

theorem checkSlice_eq (hsize : size < UInt64.size) (hin : start + count ≤ size) :
    checkSlice size start count = pure () := by
  rw [checkSlice, sum_eq (by omega), pure_bind, if_pos hin]

/-- The words of a line that lie inside a memory are inside the line. -/
theorem checkLine_eq (backing base : Nat) :
    checkSlice lineSize 0 (Cache.lengthAt backing base) = pure () := by
  apply checkSlice_eq lineSize_lt
  rw [Nat.zero_add]
  exact Nat.min_le_right _ _

theorem checkLength_eq {words : List Word} (hlength : words.length = count) :
    checkLength words count = pure () := if_pos hlength

end Bounds

section Geometry

variable {front : Cache} {size : Nat} (hfits : front.Fits size) (address : Nat)

/-- The place of an address, as the cache has it. -/
def placeOf (front : Cache) (address : Nat) : Place :=
  { segment := front.segmentOf address
    slot := front.slotOf address
    offset := Cache.offsetOf address }

include hfits

theorem locate_eq : locate front address = pure (placeOf front address) := by
  have hcapacity := Nat.ne_of_gt hfits.positive
  have hline : lineSize ≠ 0 := by decide
  rw [locate, quotient_eq hcapacity, pure_bind, remainder_eq hcapacity, pure_bind,
    quotient_eq hline, pure_bind, remainder_eq hline, pure_bind]
  rfl

theorem lineBase_eq (haddress : address < UInt64.size) :
    lineBase front (placeOf front address) = pure (front.baseOf address) := by
  have hbase : front.baseOf address < UInt64.size := by
    rw [Cache.baseOf_eq hfits]
    omega
  unfold Cache.baseOf at hbase
  have hstart : front.segmentOf address * front.capacity < UInt64.size := by omega
  have habove : front.slotOf address * lineSize < UInt64.size := by omega
  rw [lineBase, placeOf, product_eq hstart, pure_bind, product_eq habove, pure_bind, sum_eq hbase]
  rfl

theorem line_in_range {address : Nat} (hin : address < size) :
    front.baseOf address + Cache.lengthAt size (front.baseOf address) ≤ size ∧
      front.baseOf address % 64 + Cache.lengthAt size (front.baseOf address) ≤ 64 := by
  rw [Cache.baseOf_eq hfits]
  exact Memory.line_in_range hin

theorem elementAt_slot :
    elementAt front.lines.toList (front.slotOf address) = pure (front.lineOf address) := by
  have hslot := Cache.slotOf_lt hfits address
  have hlength : front.slotOf address < front.lines.toList.length := by
    rwa [Vector.length_toList]
  rw [elementAt, List.getElem?_eq_getElem hlength, Cache.lineOf, Vector.getElem?_eq_getElem hslot,
    Vector.getElem_toList]
  rfl

theorem isResident_eq :
    isResident front (placeOf front address) = pure (front.isResident address) := by
  rw [isResident, placeOf, elementAt_slot hfits, pure_bind]
  rfl

theorem isHit_eq {count : Nat} (hline : address % 64 + count ≤ 64) :
    isHit front (placeOf front address) count = pure (front.isHit address count) := by
  have hslice : checkSlice lineSize (placeOf front address).offset count = pure () :=
    checkSlice_eq lineSize_lt hline
  rw [isHit, isResident_eq hfits, pure_bind, hslice, pure_bind, placeOf, elementAt_slot hfits,
    pure_bind]
  unfold Cache.isHit
  cases front.isResident address <;> rfl

theorem checkBlock_eq {start count : Nat} (hsize : size < UInt64.size)
    (hin : start + count ≤ size) (hline : start % 64 + count ≤ 64) :
    checkBlock front size start count = pure () := by
  have hlimit := lineSize_lt
  have hoffset : (placeOf front start).offset + count ≤ lineSize := hline
  rw [checkBlock, checkRange_eq hsize hin, pure_bind, locate_eq hfits, pure_bind,
    sum_eq (by omega), pure_bind, if_pos hoffset]

end Geometry

section Calls

variable {start count address : Nat}

theorem readRam_eq (store : Ram) (hsize : store.size < UInt64.size) (hin : address < store.size) :
    readRam store address = (store.read address).mapError .violation := by
  have hword : elementAt store.words.toList address = pure (store.words.getD address 0) := by
    have hplace : address < store.words.size := hin
    rw [elementAt, Array.getElem?_toList, Array.getD_eq_getD_getElem?,
      Array.getElem?_eq_getElem hplace]
    rfl
  rw [readRam, Ram.read, checkRange_eq hsize hin, pure_bind, hword, A64Machine.checkRange_eq_ok hin]
  rfl

theorem writeRam_eq (store : Ram) (hsize : store.size < UInt64.size) (hin : address < store.size)
    (value : Word) :
    writeRam store address value = (store.write address value).mapError .violation := by
  rw [writeRam, Ram.write, checkRange_eq hsize hin, pure_bind, checkSlice_eq hsize hin,
    A64Machine.checkRange_eq_ok hin]
  rfl

/-- A block read answers with as many words as it was asked for. -/
theorem length_readBlock {memory : Memory} (hformed : memory.WellFormed)
    {reply : Reply Memory (List Word)} (hin : start + count ≤ memory.size)
    (hline : start % 64 + count ≤ 64) (hreply : memory.readBlock start count = .ok reply) :
    reply.value.length = count := by
  cases memory with
  | ram store =>
    change start + count ≤ store.words.size at hin
    rw [Memory.readBlock_ram hin] at hreply
    rw [← Except.ok.inj hreply]
    simp only [slice, Array.length_toList, Array.size_extract]
    omega
  | cache front backing =>
    rcases hformed with ⟨hfits, hbacking⟩
    change start + count ≤ backing.size at hin
    by_cases hhit : count = 0 ∨ front.isHit start count
    · rw [Memory.readBlock_of_hit hin hline hhit] at hreply
      rw [← Except.ok.inj hreply]
      exact CacheLine.length_wordsAt _ hline
    · have hrange := line_in_range hfits (show start < backing.size by omega)
      rcases Memory.readBlock_serves backing hbacking hrange.1 hrange.2 with ⟨fill, hfill, -⟩
      rw [Memory.readBlock_of_miss hin hline hhit hfill] at hreply
      rw [← Except.ok.inj hreply]
      exact CacheLine.length_wordsAt _ hline

theorem readBlock_eq (memory : Memory) (hformed : memory.WellFormed)
    (hsize : memory.size < UInt64.size) (hin : start + count ≤ memory.size)
    (hline : start % 64 + count ≤ 64) :
    readBlock memory start count = (memory.readBlock start count).mapError .violation := by
  induction memory generalizing start count with
  | ram store =>
    change store.size < UInt64.size at hsize
    change start + count ≤ store.size at hin
    rw [Memory.readBlock_ram hin, readBlock, checkRange_eq hsize hin, pure_bind,
      checkSlice_eq hsize hin]
    rfl
  | cache front backing ih =>
    rcases hformed with ⟨hfits, hbacking⟩
    change backing.size < UInt64.size at hsize
    change start + count ≤ backing.size at hin
    have hslice : checkSlice lineSize (placeOf front start).offset count = pure () :=
      checkSlice_eq lineSize_lt hline
    rw [readBlock, checkBlock_eq hfits hsize hin hline, pure_bind, locate_eq hfits, pure_bind,
      isHit_eq hfits start hline, pure_bind, hslice, pure_bind]
    by_cases hhit : count = 0 ∨ front.isHit start count
    · rw [if_pos hhit, Memory.readBlock_of_hit hin hline hhit]
      rfl
    · have hstart : start < backing.size := by omega
      have hrange := line_in_range hfits hstart
      rcases Memory.readBlock_serves backing hbacking hrange.1 hrange.2 with ⟨fill, hfill, -⟩
      have hlength := length_readBlock hbacking hrange.1 hrange.2 hfill
      rw [if_neg hhit, lineBase_eq hfits start (by omega), pure_bind, ih hbacking hsize hrange.1
        hrange.2, Memory.readBlock_of_miss hin hline hhit hfill, hfill]
      change (checkLength fill.value _ >>= _) = _
      rw [checkLength_eq hlength]
      rfl

theorem read_eq (memory : Memory) (hformed : memory.WellFormed)
    (hsize : memory.size < UInt64.size) (hin : address < memory.size) :
    read memory address = (memory.read address).mapError .violation := by
  cases memory with
  | ram store =>
    rw [read, Memory.read, readRam_eq store hsize hin]
    cases store.read address <;> rfl
  | cache front backing =>
    rcases hformed with ⟨hfits, hbacking⟩
    change backing.size < UInt64.size at hsize
    change address < backing.size at hin
    have hoffset : address % 64 + 1 ≤ 64 := by omega
    have hword (line : CacheLine) :
        elementAt line.data.toList (placeOf front address).offset =
          pure (line.data[Cache.offsetOf address]?.getD 0) := by
      have hplace : Cache.offsetOf address < 64 := hoffset
      rw [elementAt, placeOf, Vector.getElem?_toList, Vector.getElem?_eq_getElem hplace]
      rfl
    rw [read, checkRange_eq hsize hin, pure_bind, locate_eq hfits, pure_bind,
      isHit_eq hfits address hoffset, pure_bind]
    by_cases hhit : front.isHit address 1
    · rw [if_pos hhit, Memory.read_of_hit hin hhit, hword]
      rfl
    · have hrange := line_in_range hfits hin
      rcases Memory.readBlock_serves backing hbacking hrange.1 hrange.2 with ⟨fill, hfill, -⟩
      have hlength := length_readBlock hbacking hrange.1 hrange.2 hfill
      rw [if_neg hhit, lineBase_eq hfits address (by omega), pure_bind,
        readBlock_eq backing hbacking hsize hrange.1 hrange.2,
        Memory.read_of_miss hin hhit hfill, hfill]
      change (checkLength fill.value _ >>= _) = _
      rw [checkLength_eq hlength, pure_bind]
      dsimp only
      rw [hword]
      rfl

theorem writeBlock_eq (memory : Memory) (hformed : memory.WellFormed)
    (hsize : memory.size < UInt64.size) {data : List Word}
    (hin : start + data.length ≤ memory.size) (hline : start % 64 + data.length ≤ 64) :
    writeBlock memory start data = (memory.writeBlock start data).mapError .violation := by
  induction memory generalizing start data with
  | ram store =>
    change store.size < UInt64.size at hsize
    change start + data.length ≤ store.size at hin
    rw [Memory.writeBlock_ram hin, writeBlock, checkRange_eq hsize hin, pure_bind,
      checkSlice_eq hsize hin]
    rfl
  | cache front backing ih =>
    rcases hformed with ⟨hfits, hbacking⟩
    change backing.size < UInt64.size at hsize
    change start + data.length ≤ backing.size at hin
    rw [writeBlock, checkBlock_eq hfits hsize hin hline, pure_bind, locate_eq hfits, pure_bind,
      isResident_eq hfits, pure_bind]
    by_cases hempty : data = []
    · subst hempty
      have hplace : start ≤ backing.size := hin
      rw [Memory.writeBlock_nil hplace]
      rfl
    have hnonempty : ¬data.isEmpty := by
      rwa [List.isEmpty_iff]
    have hpositive := List.length_pos_iff.2 hempty
    have hstart : start < backing.size := by omega
    rw [if_neg hnonempty]
    by_cases hresident : front.isResident start
    · have hrange := line_in_range hfits hstart
      rw [← front.length_pushedWords _ _ data] at hrange
      rcases Memory.writeBlock_serves backing hbacking hrange.1 hrange.2 with ⟨pushed, hpushed, -⟩
      have hslice : checkSlice lineSize (placeOf front start).offset data.length = pure () :=
        checkSlice_eq lineSize_lt hline
      rw [if_pos hresident, hslice, pure_bind, lineBase_eq hfits start (by omega), pure_bind,
        checkLine_eq, pure_bind, ih hbacking hsize hrange.1 hrange.2,
        Memory.writeBlock_of_resident hin hline hempty hresident hpushed, hpushed]
      rfl
    · rcases Memory.writeBlock_serves backing hbacking hin hline with ⟨passed, hpassed, -⟩
      rw [if_neg hresident, ih hbacking hsize hin hline,
        Memory.writeBlock_of_not_resident hin hline hempty hresident hpassed, hpassed]
      rfl

theorem write_eq (memory : Memory) (hformed : memory.WellFormed)
    (hsize : memory.size < UInt64.size) (value : Word) (hin : address < memory.size) :
    write memory address value = (memory.write address value).mapError .violation := by
  induction memory with
  | ram store =>
    rw [write, Memory.write, writeRam_eq store hsize hin]
    cases store.write address value <;> rfl
  | cache front backing ih =>
    rcases hformed with ⟨hfits, hbacking⟩
    change backing.size < UInt64.size at hsize
    change address < backing.size at hin
    rw [write, checkRange_eq hsize hin, pure_bind, locate_eq hfits, pure_bind,
      isResident_eq hfits, pure_bind]
    by_cases hresident : front.isResident address
    · have hrange := line_in_range hfits hin
      have hoffset : address % 64 + 1 ≤ 64 := by omega
      rw [← front.length_pushedWords _ _ [value]] at hrange
      rcases Memory.writeBlock_serves backing hbacking hrange.1 hrange.2 with ⟨pushed, hpushed, -⟩
      have hslice : checkSlice lineSize (placeOf front address).offset 1 = pure () :=
        checkSlice_eq lineSize_lt hoffset
      rw [if_pos hresident, hslice, pure_bind, lineBase_eq hfits address (by omega), pure_bind,
        checkLine_eq, pure_bind,
        writeBlock_eq backing hbacking hsize hrange.1 hrange.2,
        Memory.write_of_resident hin hresident hpushed, hpushed]
      rfl
    · rcases Memory.write_serves backing hbacking value hin with ⟨passed, hpassed, -⟩
      rw [if_neg hresident, ih hbacking hsize hin,
        Memory.write_of_not_resident hin hresident hpassed, hpassed]
      rfl

end Calls

end Checked

end A64Machine
