import A64Machine.Memory.Contract

/-!
The lines of a direct-mapped write-through cache.  A cache of `capacity` words splits the addresses
behind it into segments of that size; each line slot holds one line of 64 words of some segment.
This module has the slots and what can be seen of them; the traffic between a cache and the memory
behind it is in `A64Machine.Memory.Chain`.
-/

namespace A64Machine

/-- Words in a cache line. -/
def lineSize : Nat := 64

/-- Largest cache, in words. -/
def maxCacheSize : Nat := 32 * 1024 * 1024

/-- When a write reaches the memory behind a cache. -/
inductive WritePolicy where
  | writeThrough | writeBack
  deriving Repr, DecidableEq

/-- Which slots a line may occupy. -/
inductive Mapping where
  | direct | fullyAssociative | setAssociative
  deriving Repr, DecidableEq

def WritePolicy.name : WritePolicy → String
  | .writeThrough => "WriteThrough"
  | .writeBack => "WriteBack"

def Mapping.name : Mapping → String
  | .direct => "Direct"
  | .fullyAssociative => "FullyAssociative"
  | .setAssociative => "SetAssociative"

/-- How a cache writes and places lines. -/
structure CachePolicy where
  write : WritePolicy := .writeThrough
  mapping : Mapping := .direct
  deriving Repr, DecidableEq

/-- Write-through with direct mapping is the only policy there is a cache for. -/
def CachePolicy.isSupported (policy : CachePolicy) : Bool :=
  policy.write == .writeThrough && policy.mapping == .direct

/-- Why a cache cannot be built. -/
inductive CacheError where
  | unsupported (policy : CachePolicy)
  | zeroSize
  | notLineMultiple (size : Nat)
  | tooLarge (size : Nat)
  | largerThanBacking (size backing : Nat)
  deriving Repr, DecidableEq

def CacheError.message : CacheError → String
  | .unsupported policy =>
    s!"unsupported cache configuration: {policy.write.name} with {policy.mapping.name} mapping"
  | .zeroSize => "cache size must be positive"
  | .notLineMultiple size => s!"cache size {size} is not a multiple of the {lineSize}-unit line"
  | .tooLarge size => s!"cache size {size} exceeds the maximum of {maxCacheSize} units"
  | .largerThanBacking size backing =>
    s!"cache size {size} exceeds its upstream size {backing}"

/-- What is known of one word of a slot: nothing, that it agrees with the memory behind the cache,
or that it was changed and not yet written through. -/
inductive WordState where
  | empty | clean | modified
  deriving Repr, DecidableEq

/-- One line slot. -/
structure CacheLine where
  segment : Option Nat := none
  data : Vector Word 64 := Vector.replicate 64 0
  states : Vector WordState 64 := Vector.replicate 64 .empty
  deriving Repr, DecidableEq

namespace CacheLine

/-- A slot filled with the first words of a line; the words past them stay empty. -/
def filled (segment : Nat) (words : List Word) : CacheLine :=
  { segment := some segment
    data := overwrite (Vector.replicate 64 0) 0 words
    states := overwrite (Vector.replicate 64 .empty) 0 (List.replicate words.length .clean) }

/-- Changes words of a line and marks them modified. -/
def modifyWords (line : CacheLine) (offset : Nat) (words : List Word) : CacheLine :=
  { line with
    data := overwrite line.data offset words
    states := overwrite line.states offset (List.replicate words.length .modified) }

/-- Marks the modified ones among the first `count` words clean. -/
def settle (line : CacheLine) (count : Nat) : CacheLine :=
  { line with
    states := line.states.mapIdx fun i state =>
      if i < count ∧ state = .modified then .clean else state }

def isClean (line : CacheLine) (offset count : Nat) : Bool :=
  (List.range count).all fun i => line.states[offset + i]? == some .clean

def wordsAt (line : CacheLine) (offset count : Nat) : List Word :=
  (line.data.toArray.extract offset (offset + count)).toList

end CacheLine

/-- The slots of a cache with its access counters. -/
structure Cache where
  name : String
  capacity : Nat
  lines : Vector CacheLine (capacity / 64)
  stats : AccessStats := {}
  deriving Repr

namespace Cache

/-- A cache of `size` empty words in front of a memory of `backing` words. -/
def build (name : String) (policy : CachePolicy) (size backing : Nat) :
    Except CacheError Cache :=
  if !policy.isSupported then .error (.unsupported policy)
  else if size = 0 then .error .zeroSize
  else if size % lineSize ≠ 0 then .error (.notLineMultiple size)
  else if maxCacheSize < size then .error (.tooLarge size)
  else if backing < size then .error (.largerThanBacking size backing)
  else .ok { name, capacity := size, lines := Vector.replicate (size / 64) {} }

def constructed (cache : Cache) (backing : String) : Event :=
  .construction cache.name s!"{cache.capacity} units in front of {backing}"

def lineCount (cache : Cache) : Nat :=
  cache.lines.size

def record (cache : Cache) (kind : AccessKind) (result : AccessResult) : Cache :=
  { cache with stats := cache.stats.record kind result }

def accessed (cache : Cache) (kind : AccessKind) (result : AccessResult) (address : Nat) : Event :=
  .memoryAccess cache.name kind result address

def segmentOf (cache : Cache) (address : Nat) : Nat :=
  address / cache.capacity

def slotOf (cache : Cache) (address : Nat) : Nat :=
  address % cache.capacity / lineSize

def offsetOf (address : Nat) : Nat :=
  address % lineSize

def baseOf (cache : Cache) (address : Nat) : Nat :=
  cache.segmentOf address * cache.capacity + cache.slotOf address * lineSize

/-- How many words of the line at `base` lie inside a memory of `backing` words. -/
def lengthAt (backing base : Nat) : Nat :=
  min (backing - base) lineSize

def lineOf (cache : Cache) (address : Nat) : CacheLine :=
  cache.lines[cache.slotOf address]?.getD {}

def modifyLine (cache : Cache) (address : Nat) (f : CacheLine → CacheLine) : Cache :=
  { cache with
    lines := cache.lines.setIfInBounds (cache.slotOf address) (f (cache.lineOf address)) }

/-- Whether the slot of an address holds the segment of that address. -/
def isResident (cache : Cache) (address : Nat) : Bool :=
  (cache.lineOf address).segment == some (cache.segmentOf address)

/-- Whether `count` words from `address` on are resident and clean. -/
def isHit (cache : Cache) (address count : Nat) : Bool :=
  cache.isResident address && (cache.lineOf address).isClean (offsetOf address) count

def wordsAt (cache : Cache) (address count : Nat) : List Word :=
  (cache.lineOf address).wordsAt (offsetOf address) count

/-- Fills the slot of an address with the words of its line. -/
def install (cache : Cache) (address : Nat) (words : List Word) : Cache :=
  cache.modifyLine address fun _ => .filled (cache.segmentOf address) words

/-- The cached copy of a word of a memory of `size` words; nothing is counted. -/
def resident (cache : Cache) (size address : Nat) : Option Word :=
  if address < size ∧ cache.isHit address 1 then
    (cache.lineOf address).data[offsetOf address]?
  else
    none

def state (cache : Cache) (size address : Nat) : WordState :=
  if address < size ∧ cache.isResident address then
    (cache.lineOf address).states[offsetOf address]?.getD .empty
  else
    .empty

/-- Drops every line.  The counters stay. -/
def clear (cache : Cache) : Cache :=
  { cache with lines := Vector.replicate (cache.capacity / 64) {} }

/-- Checks that a block lies inside a memory of `size` words and inside one line. -/
def checkBlock (cache : Cache) (size start count : Nat) : Except Violation Unit := do
  checkRange cache.name size start count
  if offsetOf start + count ≤ lineSize then pure ()
  else throw (.crossesLine cache.name count start)

end Cache

end A64Machine
