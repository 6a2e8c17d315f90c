import A64Machine.AddressMap
import A64Machine.Memory.Chain

/-!
What one processing unit sees of memory: the hierarchy, which starts at its first-level cache, and
its private stack.  Addresses are byte addresses and accesses may fault; everything that the
memories report is kept in order.
-/

namespace A64Machine

/-- The hierarchy and the private stack of one processing unit, with the events so far. -/
structure UnitMemory where
  hierarchy : Memory
  stack : Ram
  events : Array Event := #[]

/-- Why the memory of a unit cannot be built. -/
inductive BuildError where
  | cache (error : CacheError)
  | violation (cause : Violation)
  deriving Repr, DecidableEq

/-- How an access ends: with a value or a fault, and with the memory afterwards. -/
abbrev Answer (α : Type) := Except FaultCode α × UnitMemory

namespace UnitMemory

/-- The memory of a unit that stands alone: one cache of the given name over a RAM of its own, and a
stack.  Its events announce the three. -/
def standalone (ramSize cacheSize stackSize : Nat) (cacheName : String := "L1[0]") :
    Except BuildError UnitMemory := do
  let store ← (Ram.allocate "RAM" ramSize).mapError .violation
  let front ← (Cache.build cacheName {} cacheSize ramSize).mapError .cache
  let stack ← (Ram.allocate "STACK[0]" stackSize).mapError .violation
  pure
    { hierarchy := .cache front (.ram store)
      stack
      events := #[store.constructed, front.constructed store.name, stack.constructed] }

def map (memory : UnitMemory) : AddressMap :=
  ⟨memory.stack.size, memory.hierarchy.size⟩

def onHierarchy {α : Type} (memory : UnitMemory)
    (call : Memory → Except Violation (Reply Memory α)) : Except Violation (α × UnitMemory) := do
  let reply ← call memory.hierarchy
  pure (reply.value,
    { memory with hierarchy := reply.state, events := memory.events.appendList reply.events })

def onStack {α : Type} (memory : UnitMemory)
    (call : Ram → Except Violation (Reply Ram α)) : Except Violation (α × UnitMemory) := do
  let reply ← call memory.stack
  pure (reply.value,
    { memory with stack := reply.state, events := memory.events.appendList reply.events })

def readWord (memory : UnitMemory) (location : Location) : Except Violation (Word × UnitMemory) :=
  match location.region with
  | .stack => memory.onStack (·.read location.word)
  | .hierarchy => memory.onHierarchy (·.read location.word)

def writeWord (memory : UnitMemory) (location : Location) (value : Word) :
    Except Violation (Unit × UnitMemory) :=
  match location.region with
  | .stack => memory.onStack (·.write location.word value)
  | .hierarchy => memory.onHierarchy (·.write location.word value)

/-- Fetches the instruction word at `pc`, which is always in the hierarchy. -/
def fetch (memory : UnitMemory) (pc : Doubleword) : Except Violation (Answer Word) :=
  if pc.toNat % wordBytes ≠ 0 then
    pure (.error .unalignedAccess, memory)
  else if memory.hierarchy.size ≤ pc.toNat / wordBytes then
    pure (.error .dataAbort, memory)
  else do
    let (word, memory) ← memory.onHierarchy (·.read (pc.toNat / wordBytes))
    pure (.ok word, memory)

/-- Loads one word, or two with the low word first when more than four bytes are asked for. -/
def load (memory : UnitMemory) (address : Doubleword) (bytes : Nat) :
    Except Violation (Answer Doubleword) :=
  match memory.map.resolve address bytes with
  | .error fault => pure (.error fault, memory)
  | .ok location => do
    let (low, memory) ← memory.readWord location
    if bytes ≤ wordBytes then
      pure (.ok (low.setWidth 64), memory)
    else
      let (high, memory) ← memory.readWord { location with word := location.word + 1 }
      pure (.ok (high ++ low), memory)

/-- Whether a store would be accepted. -/
def probe (memory : UnitMemory) (address : Doubleword) (bytes : Nat) : Except FaultCode Unit :=
  (memory.map.resolve address bytes).map fun _ => ()

/-- Stores the low word of `value`, or both words when more than four bytes are asked for, at an
address that a probe accepts. -/
def store (memory : UnitMemory) (address : Doubleword) (bytes : Nat) (value : Doubleword) :
    Except Violation UnitMemory :=
  match memory.map.resolve address bytes with
  | .error _ => throw (.unprobedStore address)
  | .ok location => do
    let (_, memory) ← memory.writeWord location (value.setWidth 32)
    if bytes ≤ wordBytes then
      pure memory
    else
      let next := { location with word := location.word + 1 }
      let (_, memory) ← memory.writeWord next ((value >>> 32).setWidth 32)
      pure memory

/-- Writes the given lines of `image` through the hierarchy.  When a line breaks the contract, the
lines before it stay written. -/
def loadLines (image : List Word) : List Nat → UnitMemory → Except Violation Unit × UnitMemory
  | [], memory => (.ok (), memory)
  | line :: rest, memory =>
    let start := line * lineSize
    match memory.onHierarchy (·.writeBlock start ((image.drop start).take lineSize)) with
    | .error violation => (.error violation, memory)
    | .ok (_, memory) => loadLines image rest memory

/-- Writes `image` at the start of the hierarchy, one line at a time. -/
def loadImage (memory : UnitMemory) (image : List Word) : Except Violation Unit × UnitMemory :=
  loadLines image (List.range ((image.length + lineSize - 1) / lineSize)) memory

def resetStack (memory : UnitMemory) : Except Violation UnitMemory := do
  let (_, memory) ← memory.onStack (·.writeBlock 0 (List.replicate memory.stack.size 0))
  pure memory

end UnitMemory

end A64Machine
