import A64Machine.Memory.Chain
import A64Machine.Proofs.Memory.Coherence

/-!
How one level of a chain answers a call that keeps the contract: which of its paths the call takes,
what it asks of the memory behind, and what it answers with and becomes.
-/

namespace A64Machine

/-- What it takes for a call that uses the answer of another to be answered. -/
theorem bind_eq_ok {α β ε : Type} {first : Except ε α} {next : α → Except ε β} {value : β}
    (hok : first.bind next = .ok value) : ∃ middle, first = .ok middle ∧ next middle = .ok value := by
  cases first with
  | error cause => contradiction
  | ok middle => exact ⟨middle, rfl, hok⟩

/-- What is left of a call that was answered is the answer. -/
theorem eq_ok_of_toOption {α ε : Type} {answer : Except ε α} {value : α}
    (hsome : answer.toOption = some value) : answer = .ok value := by
  cases answer with
  | error cause => contradiction
  | ok answered => exact congrArg Except.ok (Option.some.inj hsome)

theorem checkRange_eq_ok {name : String} {size start count : Nat} (hin : start + count ≤ size) :
    checkRange name size start count = .ok () := by
  simp [checkRange, hin]

theorem checkBlock_eq_ok {front : Cache} {size start count : Nat} (hin : start + count ≤ size)
    (hline : start % 64 + count ≤ 64) : front.checkBlock size start count = .ok () := by
  simp [Cache.checkBlock, checkRange_eq_ok hin, Cache.offsetOf, lineSize, hline]

namespace Memory

variable {front : Cache} {backing : Memory} {start count address : Nat}

theorem readBlock_ram {store : Ram} (hin : start + count ≤ store.size) :
    (ram store).readBlock start count = .ok ⟨slice store.words start count,
      .ram (store.record .readBlock), [store.accessed .readBlock start]⟩ := by
  simp only [readBlock, Ram.readBlock, checkRange_eq_ok hin]
  rfl

theorem readBlock_of_hit (hin : start + count ≤ backing.size) (hline : start % 64 + count ≤ 64)
    (hhit : count = 0 ∨ front.isHit start count) :
    (cache front backing).readBlock start count = .ok ⟨front.wordsAt start count,
      .cache (front.record .readBlock .hit) backing, [front.accessed .readBlock .hit start]⟩ := by
  simp only [readBlock, checkBlock_eq_ok hin hline, hhit]
  rfl

theorem readBlock_of_miss (hin : start + count ≤ backing.size) (hline : start % 64 + count ≤ 64)
    (hmiss : ¬ (count = 0 ∨ front.isHit start count)) {fill : Reply Memory (List Word)}
    (hfill : backing.readBlock (front.baseOf start)
      (Cache.lengthAt backing.size (front.baseOf start)) = .ok fill) :
    let filled := ((front.record .readBlock .miss).record .backingReadBlock .miss).install
      start fill.value
    (cache front backing).readBlock start count = .ok ⟨filled.wordsAt start count,
      .cache filled fill.state, front.accessed .readBlock .miss start ::
        front.accessed .backingReadBlock .miss (front.baseOf start) :: fill.events⟩ := by
  simp only [readBlock, checkBlock_eq_ok hin hline, hmiss]
  simp only [bind, Except.bind, ↓reduceIte, hfill]
  rfl

theorem read_ram {store : Ram} (hin : address < store.size) :
    (ram store).read address = .ok ⟨store.words[address]?.getD 0, .ram (store.record .read),
      [store.accessed .read address]⟩ := by
  simp only [read, Ram.read, checkRange_eq_ok (show address + 1 ≤ store.size from hin)]
  simp [bind, Except.bind, pure, Except.pure, Reply.lift, Array.getD_eq_getD_getElem?]

theorem read_of_hit (hin : address < backing.size)
    (hhit : front.isHit address 1) :
    (cache front backing).read address =
      .ok ⟨(front.lineOf address).data[Cache.offsetOf address]?.getD 0,
        .cache (front.record .read .hit) backing, [front.accessed .read .hit address]⟩ := by
  simp only [read, checkRange_eq_ok (show address + 1 ≤ backing.size from hin), hhit]
  rfl

theorem read_of_miss (hin : address < backing.size)
    (hmiss : ¬ front.isHit address 1) {fill : Reply Memory (List Word)}
    (hfill : backing.readBlock (front.baseOf address)
      (Cache.lengthAt backing.size (front.baseOf address)) = .ok fill) :
    let filled := ((front.record .read .miss).record .backingReadBlock .miss).install
      address fill.value
    (cache front backing).read address =
      .ok ⟨(filled.lineOf address).data[Cache.offsetOf address]?.getD 0, .cache filled fill.state,
        front.accessed .read .miss address ::
          front.accessed .backingReadBlock .miss (front.baseOf address) :: fill.events⟩ := by
  simp only [read, checkRange_eq_ok (show address + 1 ≤ backing.size from hin), hmiss]
  simp only [bind, Except.bind, hfill]
  rfl

theorem writeBlock_ram {store : Ram} {data : List Word} (hin : start + data.length ≤ store.size) :
    (ram store).writeBlock start data = .ok ⟨(),
      .ram ((store.withWords start data).record .writeBlock),
      [store.accessed .writeBlock start]⟩ := by
  simp only [writeBlock, Ram.writeBlock, checkRange_eq_ok hin]
  rfl

theorem writeBlock_nil (hin : start ≤ backing.size) :
    (cache front backing).writeBlock start [] = .ok ⟨(),
      .cache (front.record .writeBlock .hit) backing, [front.accessed .writeBlock .hit start]⟩ := by
  have hline : start % 64 + 0 ≤ 64 := by omega
  simp only [writeBlock, List.length_nil, checkBlock_eq_ok (show start + 0 ≤ _ from hin) hline]
  rfl

theorem writeBlock_of_resident {data : List Word} (hin : start + data.length ≤ backing.size)
    (hline : start % 64 + data.length ≤ 64) (hdata : data ≠ [])
    (hresident : front.isResident start) {pushed : Reply Memory Unit}
    (hpushed : backing.writeBlock (front.baseOf start)
      (front.pushedWords backing.size start data) = .ok pushed) :
    (cache front backing).writeBlock start data = .ok ⟨(),
      .cache (((front.record .writeBlock .hit).record .backingWriteBlock .miss).written
        backing.size start data) pushed.state,
      front.accessed .writeBlock .hit start ::
        front.accessed .backingWriteBlock .miss (front.baseOf start) :: pushed.events⟩ := by
  simp only [writeBlock, checkBlock_eq_ok hin hline, List.isEmpty_iff, hdata, hresident]
  change (backing.writeBlock (front.baseOf start)
    (front.pushedWords backing.size start data) >>= _) = _
  rw [hpushed]
  rfl

theorem writeBlock_of_not_resident {data : List Word} (hin : start + data.length ≤ backing.size)
    (hline : start % 64 + data.length ≤ 64) (hdata : data ≠ [])
    (hresident : ¬ front.isResident start) {passed : Reply Memory Unit}
    (hpassed : backing.writeBlock start data = .ok passed) :
    (cache front backing).writeBlock start data = .ok ⟨(),
      .cache ((front.record .writeBlock .miss).record .backingWriteBlock .miss) passed.state,
      front.accessed .writeBlock .miss start ::
        front.accessed .backingWriteBlock .miss start :: passed.events⟩ := by
  simp only [writeBlock, checkBlock_eq_ok hin hline, List.isEmpty_iff, hdata, hresident]
  simp only [bind, Except.bind, hpassed]
  rfl

theorem write_ram {store : Ram} {value : Word} (hin : address < store.size) :
    (ram store).write address value = .ok ⟨(),
      .ram ((store.withWords address [value]).record .write), [store.accessed .write address]⟩ := by
  simp only [write, Ram.write, checkRange_eq_ok (show address + 1 ≤ store.size from hin)]
  rfl

theorem write_of_resident {value : Word} (hin : address < backing.size)
    (hresident : front.isResident address) {pushed : Reply Memory Unit}
    (hpushed : backing.writeBlock (front.baseOf address)
      (front.pushedWords backing.size address [value]) = .ok pushed) :
    (cache front backing).write address value = .ok ⟨(),
      .cache (((front.record .write .hit).record .backingWriteBlock .miss).written
        backing.size address [value]) pushed.state,
      front.accessed .write .hit address ::
        front.accessed .backingWriteBlock .miss (front.baseOf address) :: pushed.events⟩ := by
  simp only [write, checkRange_eq_ok (show address + 1 ≤ backing.size from hin), hresident]
  change (backing.writeBlock (front.baseOf address)
    (front.pushedWords backing.size address [value]) >>= _) = _
  rw [hpushed]
  rfl

theorem write_of_not_resident {value : Word} (hin : address < backing.size)
    (hresident : ¬ front.isResident address) {passed : Reply Memory Unit}
    (hpassed : backing.write address value = .ok passed) :
    (cache front backing).write address value = .ok ⟨(),
      .cache ((front.record .write .miss).record .backingWrite .miss) passed.state,
      front.accessed .write .miss address ::
        front.accessed .backingWrite .miss address :: passed.events⟩ := by
  simp only [write, checkRange_eq_ok (show address + 1 ≤ backing.size from hin), hresident]
  simp only [bind, Except.bind, hpassed]
  rfl

end Memory

end A64Machine
