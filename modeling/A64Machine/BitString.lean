import A64Machine.Text.QuotedChar
import A64Machine.Word

/-!
Bit strings of any width, indexed from the least significant bit.  A string of at most 64 bits is
kept in one word; a wider one is kept in as many 64-bit words as its width needs.  In both forms the
bits at and above the width are clear, so that comparisons and conversions need not look at the
form.
-/

namespace A64Machine

/-- Widest bit string that is kept in a single word. -/
def inlineWidth : Nat := 64

/-- Number of 64-bit words that hold `width` bits. -/
def wordsFor (width : Nat) : Nat :=
  (width + 63) / 64

/-- Storage of a bit string, least significant word first. -/
inductive BitStore where
  | inline (bits : BitVec 64)
  | wide (words : List (BitVec 64))
  deriving Repr, DecidableEq

/-- A sequence of bits with a declared width. -/
structure BitString where
  width : Nat
  store : BitStore
  deriving Repr

/-- Why an operation on bit strings fails. -/
inductive BitStringError where
  | outOfRange (position width : Nat)
  | tooWide (width target : Nat)
  | invalidDigit (digit : Char)
  deriving Repr, DecidableEq

def BitStringError.message : BitStringError → String
  | .outOfRange position width => s!"bit index {position} out of range for width {width}"
  | .tooWide width target => s!"bit vector of width {width} does not fit in {target} bits"
  | .invalidDigit digit => s!"invalid binary digit {quotedChar digit}"

namespace BitString

/-- The string of at most 64 bits that a word holds. -/
def inlined (width : Nat) (bits : BitVec 64) : BitString :=
  ⟨width, .inline (bits &&& lowOnes 64 width)⟩

/-- The words of a string of `width` bits after the bits past the width are cleared in the last
one. -/
def trimLast (width : Nat) (words : List (BitVec 64)) : List (BitVec 64) :=
  if width % 64 = 0 then words
  else words.modify (words.length - 1) (· &&& lowOnes 64 (width % 64))

/-- The string of `width` bits that the given words hold.  Words that are missing are zero; words
and bits past the width are dropped. -/
def ofWords (width : Nat) (words : List (BitVec 64)) : BitString :=
  if width ≤ inlineWidth then
    inlined width (words.headD 0)
  else
    ⟨width, .wide (trimLast width ((words.take (wordsFor width)).rightpad (wordsFor width) 0))⟩

/-- The low `width` bits of `value`. -/
def ofDoubleword (width : Nat) (value : BitVec 64) : BitString :=
  if width ≤ inlineWidth then inlined width value else ofWords width [value]

def zeros (width : Nat) : BitString :=
  ofDoubleword width 0

/-- The words of a string; the empty string has none. -/
def words (b : BitString) : List (BitVec 64) :=
  match b.store with
  | .inline bits => if b.width = 0 then [] else [bits]
  | .wide words => words

/-- Word `j` of a string; zero past its end. -/
def word (b : BitString) (j : Nat) : BitVec 64 :=
  match b.store with
  | .inline bits => if j = 0 then bits else 0
  | .wide words => words.getD j 0

def isInline (b : BitString) : Bool :=
  match b.store with
  | .inline _ => true
  | .wide _ => false

/-- Bit `i` of a string; false past its end. -/
def bit (b : BitString) (i : Nat) : Bool :=
  (b.word (i / 64)).getLsbD (i % 64)

/-- The bits of a string, least significant first. -/
def bits (b : BitString) : List Bool :=
  (List.range b.width).map b.bit

/-- The number that a string writes in binary. -/
def value (b : BitString) : Nat :=
  b.bits.foldr (fun bit rest => 2 * rest + bit.toNat) 0

/-- Bit `i`, which must be below the width. -/
def test (b : BitString) (i : Nat) : Except BitStringError Bool :=
  if i < b.width then .ok (b.bit i) else .error (.outOfRange i b.width)

/-- Changes word `j`, which the string must have. -/
def updateWord (b : BitString) (j : Nat) (f : BitVec 64 → BitVec 64) : BitString :=
  match b.store with
  | .inline bits => inlined b.width (f bits)
  | .wide words =>
    let changed := words.modify j f
    ⟨b.width, .wide (if j = words.length - 1 then trimLast b.width changed else changed)⟩

/-- Changes bit `i`, which must be below the width, by changing its word with a mask of that bit. -/
def update (b : BitString) (i : Nat) (f : BitVec 64 → BitVec 64 → BitVec 64) :
    Except BitStringError BitString :=
  if i < b.width then
    .ok (b.updateWord (i / 64) (f · (BitVec.twoPow 64 (i % 64))))
  else
    .error (.outOfRange i b.width)

def setTo (b : BitString) (i : Nat) (value : Bool) : Except BitStringError BitString :=
  b.update i fun word mask => if value then word ||| mask else word &&& ~~~mask

def set (b : BitString) (i : Nat) : Except BitStringError BitString :=
  b.setTo i true

def reset (b : BitString) (i : Nat) : Except BitStringError BitString :=
  b.setTo i false

def flip (b : BitString) (i : Nat) : Except BitStringError BitString :=
  b.update i fun word mask => word ^^^ mask

def setAll (b : BitString) : BitString :=
  if b.width ≤ inlineWidth then
    inlined b.width (BitVec.allOnes 64)
  else
    ofWords b.width (List.replicate (wordsFor b.width) (BitVec.allOnes 64))

def resetAll (b : BitString) : BitString :=
  zeros b.width

def not (b : BitString) : BitString :=
  match b.store with
  | .inline bits => inlined b.width (~~~bits)
  | .wide words => ⟨b.width, .wide (trimLast b.width (words.map (~~~·)))⟩

/-- The low bits of `b`, or `b` under zeros, at a new width. -/
def resize (b : BitString) (width : Nat) : BitString :=
  if width ≤ inlineWidth then inlined width (b.word 0) else ofWords width b.words

/-- Adds a word, moved up by `amount` bits, to the word number `place`.  What it loses at its high end
goes to the next place; there is nothing to go to past the last one. -/
def addWord (amount : Nat) (word : BitVec 64) (place : Nat) (out : List (BitVec 64)) :
    List (BitVec 64) :=
  let placed := out.modify place (· ||| word <<< amount)
  if amount = 0 then placed else placed.modify (place + 1) (· ||| word >>> (64 - amount))

/-- Adds words, moved up by `amount` bits, to the words from number `place` on. -/
def addRaised (amount : Nat) : List (BitVec 64) → Nat → List (BitVec 64) → List (BitVec 64)
  | [], _, out => out
  | word :: rest, place, out => addRaised amount rest (place + 1) (addWord amount word place out)

/-- Words moved up by `amount` bits, as many as `count`. -/
def shiftedLeft (words : List (BitVec 64)) (amount count : Nat) : List (BitVec 64) :=
  addRaised (amount % 64) words (amount / 64) (List.replicate count 0)

/-- Words moved down by `amount` bits, as many as `count`. -/
def shiftedRight (words : List (BitVec 64)) (amount count : Nat) : List (BitVec 64) :=
  (List.range count).map fun j =>
    let low := words.getD (j + amount / 64) 0 >>> (amount % 64)
    let high := if amount % 64 = 0 then 0
      else words.getD (j + amount / 64 + 1) 0 <<< (64 - amount % 64)
    low ||| high

/-- A word moved up by any number of bits. -/
def raisedWord (word : BitVec 64) (amount : Nat) : BitVec 64 :=
  if 64 ≤ amount then 0 else word <<< amount

def loweredWord (word : BitVec 64) (amount : Nat) : BitVec 64 :=
  if 64 ≤ amount then 0 else word >>> amount

/-- Bits moved towards the high end; what passes the width is lost. -/
def shiftLeft (b : BitString) (amount : Nat) : BitString :=
  match b.store with
  | .inline bits => inlined b.width (raisedWord bits amount)
  | .wide words => ofWords b.width (shiftedLeft words amount (wordsFor b.width))

def shiftRight (b : BitString) (amount : Nat) : BitString :=
  match b.store with
  | .inline bits => inlined b.width (loweredWord bits amount)
  | .wide words => ofWords b.width (shiftedRight words amount (wordsFor b.width))

/-- Combines each word of a list with the word at its place in another one, for which the list has
room. -/
def orWords : List (BitVec 64) → List (BitVec 64) → List (BitVec 64)
  | word :: rest, added :: more => (word ||| added) :: orWords rest more
  | words, _ => words

/-- `high` above `low`. -/
def concat (high low : BitString) : BitString :=
  let width := high.width + low.width
  if width ≤ inlineWidth then
    inlined width (raisedWord (high.word 0) low.width ||| low.word 0)
  else
    ofWords width (orWords (shiftedLeft high.words low.width (wordsFor width)) low.words)

/-- A bitwise operation; the narrower operand is extended with zeros. -/
def zipWith (f : BitVec 64 → BitVec 64 → BitVec 64) (a b : BitString) : BitString :=
  let width := max a.width b.width
  if width ≤ inlineWidth then
    inlined width (f (a.word 0) (b.word 0))
  else
    ofWords width ((List.range (wordsFor width)).map fun j => f (a.word j) (b.word j))

def and (a b : BitString) : BitString := zipWith (· &&& ·) a b

def or (a b : BitString) : BitString := zipWith (· ||| ·) a b

def xor (a b : BitString) : BitString := zipWith (· ^^^ ·) a b

/-- Rotation towards the low end within the width. -/
def rotateRight (b : BitString) (amount : Nat) : BitString :=
  if b.width = 0 ∨ amount % b.width = 0 then
    b
  else
    (b.shiftRight (amount % b.width)).or (b.shiftLeft (b.width - amount % b.width))

/-- `count` copies of a string, one above the other. -/
def replicate (b : BitString) : Nat → BitString
  | 0 => zeros 0
  | count + 1 => (b.replicate count).concat b

def onesOf (word : BitVec 64) : Nat :=
  (List.range 64).countP word.getLsbD

def countOnes (b : BitString) : Nat :=
  match b.store with
  | .inline bits => onesOf bits
  | .wide words => words.foldr (onesOf · + ·) 0

/-- Whether every bit is set, which holds of the empty string. -/
def all (b : BitString) : Bool :=
  b.countOnes == b.width

def any (b : BitString) : Bool :=
  match b.store with
  | .inline bits => bits != 0
  | .wide words => words.any (· != 0)

def none (b : BitString) : Bool :=
  !b.any

/-- The value of a string of at most 32 bits. -/
def toWord (b : BitString) : Except BitStringError (BitVec 32) :=
  if b.width ≤ 32 ∧ (b.word 0).toNat < UInt32.size then
    .ok ((b.word 0).setWidth 32)
  else
    .error (.tooWide b.width 32)

/-- The value of a string of at most 64 bits. -/
def toDoubleword (b : BitString) : Except BitStringError (BitVec 64) :=
  if b.width ≤ 64 then .ok (b.word 0) else .error (.tooWide b.width 64)

/-- Words without the zero words at the high end. -/
def trimZeros (words : List (BitVec 64)) : List (BitVec 64) :=
  (words.reverse.dropWhile (· == 0)).reverse

/-- The words of a string without the zero words at its high end.  They do not depend on the width,
only on the value. -/
def significantWords (b : BitString) : List (BitVec 64) :=
  trimZeros b.words

/-- Strings are equal when their values are, whatever their widths. -/
instance : BEq BitString where
  beq a b := a.significantWords == b.significantWords

/-- A string is hashed by its significant words, which equal strings share. -/
instance : Hashable BitString where
  hash b := hash (b.significantWords.map BitVec.toNat)

/-- Whether a string has the value of one word. -/
def hasValue (b : BitString) (value : BitVec 64) : Bool :=
  b.significantWords == trimZeros [value]

/-- Compares the words below `n`, the highest first. -/
def compareWords (a b : BitString) : Nat → Ordering
  | 0 => .eq
  | n + 1 => (compare (a.word n).toNat (b.word n).toNat).then (compareWords a b n)

/-- Strings are ordered by their values. -/
instance : Ord BitString where
  compare a b := compareWords a b (wordsFor (max a.width b.width))

/-- The binary digits of a string, most significant first. -/
def display (b : BitString) : String :=
  String.ofList (b.bits.reverse.map fun bit => if bit then '1' else '0')

instance : ToString BitString := ⟨display⟩

/-- Reads binary digits, least significant first, into the bits of a string of zeros from bit `i` on.
The first character that is no digit is the error. -/
def readDigits : List Char → Nat → BitString → Except BitStringError BitString
  | [], _, b => .ok b
  | c :: rest, i, b =>
    if c = '0' then
      readDigits rest (i + 1) b
    else if c = '1' then do
      readDigits rest (i + 1) (← b.set i)
    else
      .error (.invalidDigit c)

/-- Reads a text of binary digits, most significant first.  The last character that is no digit is
the error. -/
def parse (digits : String) : Except BitStringError BitString :=
  readDigits digits.toList.reverse 0 (zeros digits.toList.length)

end BitString

end A64Machine
