import A64Machine.Word

/-!
Programs: an image of words that is loaded at address zero, and the word at which execution starts.
-/

namespace A64Machine

abbrev Byte := BitVec 8

/-- Why an image is no program. -/
inductive LoadError where
  | empty
  | misalignedLength (length : Nat)
  | misalignedEntry (offset : Nat)
  | entryOutOfRange (entry length : Nat)
  deriving Repr, DecidableEq

def LoadError.message : LoadError → String
  | .empty => "program image is empty"
  | .misalignedLength length => s!"program image length {length} is not a multiple of 4 bytes"
  | .misalignedEntry offset => s!"entry offset {offset} is not a multiple of 4 bytes"
  | .entryOutOfRange entry length => s!"entry word {entry} is outside the {length}-word image"

/-- A program image with its entry word. -/
structure Program where
  words : Array Word
  entry : Nat
  deriving Repr, DecidableEq

/-- The words that a sequence of bytes holds, least significant byte first; bytes that do not fill
a word are left out. -/
def wordsOfBytes : List Byte → List Word
  | b0 :: b1 :: b2 :: b3 :: rest => (b3 ++ b2 ++ b1 ++ b0) :: wordsOfBytes rest
  | _ => []

/-- The bytes of a word, least significant first. -/
def bytesOfWord (word : Word) : List Byte :=
  [word.extractLsb' 0 8, word.extractLsb' 8 8, word.extractLsb' 16 8, word.extractLsb' 24 8]

namespace Program

/-- A program from its words; the entry must be one of them. -/
def ofWords (words : Array Word) (entry : Nat) : Except LoadError Program :=
  if words.isEmpty then .error .empty
  else if words.size ≤ entry then .error (.entryOutOfRange entry words.size)
  else .ok ⟨words, entry⟩

/-- A program from the bytes of its image and the byte offset of its entry. -/
def ofBytes (bytes : List Byte) (entryOffset : Nat) : Except LoadError Program :=
  if bytes.isEmpty then .error .empty
  else if bytes.length % wordBytes ≠ 0 then .error (.misalignedLength bytes.length)
  else if entryOffset % wordBytes ≠ 0 then .error (.misalignedEntry entryOffset)
  else ofWords (wordsOfBytes bytes).toArray (entryOffset / wordBytes)

def length (program : Program) : Nat :=
  program.words.size

/-- Byte address just past the last word. -/
def endAddress (program : Program) : Nat :=
  program.length * wordBytes

def bytes (program : Program) : List Byte :=
  program.words.toList.flatMap bytesOfWord

/-- Stores 5 on the stack, takes it through two compare-and-branch ladders and returns it in X0. -/
def branchLadder : Program :=
  { words := #[
      0xD10043FF, 0x528000A0, 0xB9000FE0, 0xB9400FE0, 0x71000C1F, 0x54000061, 0x52800060,
      0x14000007, 0xB9400FE0, 0x7100141F, 0x54000061, 0x528000A0, 0x14000002, 0x52800000,
      0x910043FF, 0xD65F03C0]
    entry := 0 }

/-- Adds the numbers from 10 down to 1 and returns 55 in X0. -/
def countdownSum : Program :=
  { words := #[0x52800000, 0x52800141, 0x0B010000, 0x71000421, 0x54FFFFC1, 0xD65F03C0]
    entry := 0 }

def sample? : Nat → Option Program
  | 0 => some branchLadder
  | 1 => some countdownSum
  | _ => none

end Program

end A64Machine
