import A64Machine.Memory.Contract

/-!
Random access memory: a flat store of words at the bottom of a hierarchy.  Every access hits.
-/

namespace A64Machine

/-- A store of words with its access counters. -/
structure Ram where
  name : String
  words : Array Word
  stats : AccessStats := {}
  deriving Repr, DecidableEq

namespace Ram

def zeroed (name : String) (size : Nat) : Ram :=
  { name, words := Array.replicate size 0 }

/-- The largest number of words of one memory, whose bytes a signed 64-bit number can count. -/
def maxWords : Nat := (UInt64.size / 2 - 1) / wordBytes

/-- A memory of `size` words, all zero, unless there are too many. -/
def allocate (name : String) (size : Nat) : Except Violation Ram :=
  if size ≤ maxWords then .ok (zeroed name size) else .error .tooManyWords

def constructed (ram : Ram) : Event :=
  .construction ram.name s!"{ram.words.size} units"

def size (ram : Ram) : Nat :=
  ram.words.size

def record (ram : Ram) (kind : AccessKind) : Ram :=
  { ram with stats := ram.stats.record kind .hit }

def accessed (ram : Ram) (kind : AccessKind) (address : Nat) : Event :=
  .memoryAccess ram.name kind .hit address

def withWords (ram : Ram) (start : Nat) (data : List Word) : Ram :=
  { ram with words := (overwrite ram.words.toVector start data).toArray }

def read (ram : Ram) (address : Nat) : Except Violation (Reply Ram Word) := do
  checkRange ram.name ram.size address 1
  pure ⟨ram.words.getD address 0, ram.record .read, [ram.accessed .read address]⟩

def write (ram : Ram) (address : Nat) (value : Word) : Except Violation (Reply Ram Unit) := do
  checkRange ram.name ram.size address 1
  let event := ram.accessed .write address
  pure ⟨(), (ram.withWords address [value]).record .write, [event]⟩

def readBlock (ram : Ram) (start count : Nat) : Except Violation (Reply Ram (List Word)) := do
  checkRange ram.name ram.size start count
  pure ⟨(ram.words.extract start (start + count)).toList, ram.record .readBlock,
    [ram.accessed .readBlock start]⟩

def writeBlock (ram : Ram) (start : Nat) (data : List Word) :
    Except Violation (Reply Ram Unit) := do
  checkRange ram.name ram.size start data.length
  let event := ram.accessed .writeBlock start
  pure ⟨(), (ram.withWords start data).record .writeBlock, [event]⟩

end Ram

end A64Machine
