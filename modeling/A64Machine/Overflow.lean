/-!
Sums and products of 64-bit numbers that must not wrap around.  A result that passes the largest
64-bit number is refused, and the refusal tells which operation passed it.
-/

namespace A64Machine

/-- The operation whose result has no 64-bit form. -/
inductive Overflow where
  | sum | product
  deriving Repr, DecidableEq

def Overflow.message : Overflow → String
  | .sum => "attempt to add with overflow"
  | .product => "attempt to multiply with overflow"

/-- The sum of two numbers, when it is a 64-bit number. -/
def checkedAdd (x y : Nat) : Except Overflow Nat :=
  if x + y < UInt64.size then .ok (x + y) else .error .sum

def checkedMul (x y : Nat) : Except Overflow Nat :=
  if x * y < UInt64.size then .ok (x * y) else .error .product

theorem checkedAdd_eq_ok_iff {x y sum : Nat} :
    checkedAdd x y = .ok sum ↔ sum = x + y ∧ x + y < UInt64.size := by
  unfold checkedAdd
  split
  case isTrue fits => simp [fits, eq_comm]
  case isFalse tooLarge => simp [tooLarge]

theorem checkedMul_eq_ok_iff {x y product : Nat} :
    checkedMul x y = .ok product ↔ product = x * y ∧ x * y < UInt64.size := by
  unfold checkedMul
  split
  case isTrue fits => simp [fits, eq_comm]
  case isFalse tooLarge => simp [tooLarge]

end A64Machine
