import A64Machine.Memory.Cache
import A64Machine.Memory.Ram

/-!
A memory: RAM with any number of caches in front of it, the top one first.  Reads that miss refill
the whole line from the memory behind; a write to a resident line updates it and pushes the line on
before the call returns, a write elsewhere passes the cache by.  So a cache never holds anything
that the memory behind it does not.
-/

namespace A64Machine

/-- RAM behind a chain of caches. -/
inductive Memory where
  | ram (ram : Ram)
  | cache (cache : Cache) (backing : Memory)

namespace Memory

def size : Memory → Nat
  | .ram store => store.size
  | .cache _ backing => backing.size

def name : Memory → String
  | .ram store => store.name
  | .cache front _ => front.name

/-- Access counters of the top level. -/
def stats : Memory → AccessStats
  | .ram store => store.stats
  | .cache front _ => front.stats

/-- The words at the bottom of the chain. -/
def ramWords : Memory → Array Word
  | .ram store => store.words
  | .cache _ backing => backing.ramWords

def withCache (backing : Memory) (name : String) (policy : CachePolicy) (size : Nat) :
    Except CacheError Memory :=
  (Cache.build name policy size backing.size).map (.cache · backing)

def readBlock : Memory → Nat → Nat → Except Violation (Reply Memory (List Word))
  | .ram store, start, count => do
    let reply ← store.readBlock start count
    pure (reply.lift .ram)
  | .cache front backing, start, count => do
    front.checkBlock backing.size start count
    if count = 0 ∨ front.isHit start count then
      pure ⟨front.wordsAt start count, .cache (front.record .readBlock .hit) backing,
        [front.accessed .readBlock .hit start]⟩
    else
      let base := front.baseOf start
      let fill ← backing.readBlock base (Cache.lengthAt backing.size base)
      let filled := ((front.record .readBlock .miss).record .backingReadBlock .miss).install
        start fill.value
      pure ⟨filled.wordsAt start count, .cache filled fill.state,
        front.accessed .readBlock .miss start ::
          front.accessed .backingReadBlock .miss base :: fill.events⟩

def read : Memory → Nat → Except Violation (Reply Memory Word)
  | .ram store, address => do
    let reply ← store.read address
    pure (reply.lift .ram)
  | .cache front backing, address => do
    checkRange front.name backing.size address 1
    if front.isHit address 1 then
      pure ⟨(front.lineOf address).data[Cache.offsetOf address]?.getD 0,
        .cache (front.record .read .hit) backing, [front.accessed .read .hit address]⟩
    else
      let base := front.baseOf address
      let fill ← backing.readBlock base (Cache.lengthAt backing.size base)
      let filled := ((front.record .read .miss).record .backingReadBlock .miss).install
        address fill.value
      pure ⟨(filled.lineOf address).data[Cache.offsetOf address]?.getD 0,
        .cache filled fill.state,
        front.accessed .read .miss address ::
          front.accessed .backingReadBlock .miss base :: fill.events⟩

def writeBlock : Memory → Nat → List Word → Except Violation (Reply Memory Unit)
  | .ram store, start, data => do
    let reply ← store.writeBlock start data
    pure (reply.lift .ram)
  | .cache front backing, start, data => do
    front.checkBlock backing.size start data.length
    if data.isEmpty then
      pure ⟨(), .cache (front.record .writeBlock .hit) backing,
        [front.accessed .writeBlock .hit start]⟩
    else if front.isResident start then
      let base := front.baseOf start
      let length := Cache.lengthAt backing.size base
      let changed := ((front.record .writeBlock .hit).record .backingWriteBlock .miss).modifyLine
        start (·.modifyWords (Cache.offsetOf start) data)
      let pushed ← backing.writeBlock base ((changed.lineOf start).wordsAt 0 length)
      pure ⟨(), .cache (changed.modifyLine start (·.settle length)) pushed.state,
        front.accessed .writeBlock .hit start ::
          front.accessed .backingWriteBlock .miss base :: pushed.events⟩
    else
      let passed ← backing.writeBlock start data
      pure ⟨(),
        .cache ((front.record .writeBlock .miss).record .backingWriteBlock .miss) passed.state,
        front.accessed .writeBlock .miss start ::
          front.accessed .backingWriteBlock .miss start :: passed.events⟩

def write : Memory → Nat → Word → Except Violation (Reply Memory Unit)
  | .ram store, address, value => do
    let reply ← store.write address value
    pure (reply.lift .ram)
  | .cache front backing, address, value => do
    checkRange front.name backing.size address 1
    if front.isResident address then
      let base := front.baseOf address
      let length := Cache.lengthAt backing.size base
      let changed := ((front.record .write .hit).record .backingWriteBlock .miss).modifyLine
        address (·.modifyWords (Cache.offsetOf address) [value])
      let pushed ← backing.writeBlock base ((changed.lineOf address).wordsAt 0 length)
      pure ⟨(), .cache (changed.modifyLine address (·.settle length)) pushed.state,
        front.accessed .write .hit address ::
          front.accessed .backingWriteBlock .miss base :: pushed.events⟩
    else
      let passed ← backing.write address value
      pure ⟨(), .cache ((front.record .write .miss).record .backingWrite .miss) passed.state,
        front.accessed .write .miss address ::
          front.accessed .backingWrite .miss address :: passed.events⟩

/-- Drops every line of the top level; RAM has none. -/
def clear : Memory → Memory
  | .ram store => .ram store
  | .cache front backing => .cache front.clear backing

/-- The numbers of the lines behind the top level whose first word it holds, in ascending order. -/
def residentLines : Memory → List Nat
  | .ram _ => []
  | .cache front backing =>
    (List.range ((backing.size + lineSize - 1) / lineSize)).filter fun line =>
      (front.resident backing.size (lineSize * line)).isSome

/-- The level `depth` levels below the top. -/
def level : Memory → Nat → Memory
  | memory, 0 => memory
  | .ram store, _ + 1 => .ram store
  | .cache _ backing, depth + 1 => backing.level depth

/-- The memory after a call on the level `depth` levels below the top. -/
def atDepth {α : Type} (call : Memory → Except Violation (Reply Memory α)) :
    Memory → Nat → Except Violation (Reply Memory α)
  | memory, 0 => call memory
  | .ram store, _ + 1 => call (.ram store)
  | .cache front backing, depth + 1 => do
    let reply ← atDepth call backing depth
    pure (reply.lift (.cache front))

end Memory

end A64Machine
