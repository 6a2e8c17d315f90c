import A64Machine.Fault
import A64Machine.Overflow
import A64Machine.Word

/-!
The data addresses of one processing unit.  Byte addresses inside the stack window belong to the
unit's private stack, all others to the memory hierarchy; an access belongs to one of the two as a
whole.
-/

namespace A64Machine

/-- Byte address of the lowest word of every private stack. -/
def stackBase : Nat := 0x7FFF00000000

/-- The address whose reaching ends a program. -/
def programExit : Doubleword := BitVec.allOnes 64

/-- Where data lives. -/
inductive Region where
  | stack | hierarchy
  deriving Repr, DecidableEq

/-- The first word of an access, in words of its region. -/
structure Location where
  region : Region
  word : Nat
  deriving Repr, DecidableEq

/-- Sizes of the two regions in words. -/
structure AddressMap where
  stackWords : Nat
  hierarchyWords : Nat
  deriving Repr, DecidableEq

namespace AddressMap

/-- Byte address just past the stack, where the stack pointer starts. -/
def stackTop (map : AddressMap) : Nat :=
  stackBase + map.stackWords * wordBytes

/-- The same address, computed from 64-bit numbers; there is none for a stack that is too large. -/
def checkedStackTop (map : AddressMap) : Except Overflow Nat := do
  let bytes ← checkedMul map.stackWords wordBytes
  checkedAdd stackBase bytes

/-- The checked address exists exactly when the exact one is a byte address, and is that one. -/
theorem checkedStackTop_eq_ok_iff {map : AddressMap} {top : Nat} :
    map.checkedStackTop = .ok top ↔ top = map.stackTop ∧ map.stackTop < byteAddresses := by
  unfold checkedStackTop
  cases product : checkedMul map.stackWords wordBytes with
  | error cause =>
    have tooLarge : ¬ map.stackWords * wordBytes < UInt64.size := fun fits => by
      simp [checkedMul, fits] at product
    simp only [bind, Except.bind, reduceCtorEq, false_iff, not_and, stackTop, byteAddresses]
    omega
  | ok bytes =>
    obtain ⟨rfl, -⟩ := checkedMul_eq_ok_iff.1 product
    exact checkedAdd_eq_ok_iff

/-- The location of an access of `bytes` bytes at `address`. -/
def resolve (map : AddressMap) (address : Doubleword) (bytes : Nat) :
    Except FaultCode Location :=
  let start := address.toNat
  if start % wordBytes ≠ 0 then .error .unalignedAccess
  else if byteAddresses ≤ start + bytes then .error .dataAbort
  else if stackBase ≤ start ∧ start < map.stackTop then
    if map.stackTop < start + bytes then .error .dataAbort
    else .ok ⟨.stack, (start - stackBase) / wordBytes⟩
  else if map.hierarchyWords < (start + bytes + 3) / wordBytes then .error .dataAbort
  else .ok ⟨.hierarchy, start / wordBytes⟩

end AddressMap

end A64Machine
