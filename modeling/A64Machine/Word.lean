/-!
The two sizes of machine word: 32-bit memory words, which are also instruction words, and 64-bit
register values and byte addresses.
-/

namespace A64Machine

/-- A memory word or instruction word. -/
abbrev Word := BitVec 32

/-- A register value or byte address. -/
abbrev Doubleword := BitVec 64

def wordBytes : Nat := 4

/-- Number of byte addresses, one more than the largest. -/
def byteAddresses : Nat := UInt64.size

/-- The value of width `w` with its low `count` bits set, or all of them when there are fewer. -/
def lowOnes (w count : Nat) : BitVec w :=
  if w ≤ count then BitVec.allOnes w else (BitVec.allOnes count).setWidth w

theorem getLsbD_lowOnes (w count i : Nat) :
    (lowOnes w count).getLsbD i = decide (i < w ∧ i < count) := by
  unfold lowOnes
  split
  case isTrue h => simp; omega
  case isFalse => simp

end A64Machine
