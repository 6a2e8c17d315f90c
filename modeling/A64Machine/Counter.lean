/-!
Counters.  A counter stops at its limit and never wraps around.
-/

namespace A64Machine

/-- The largest count. -/
def countLimit : Nat := UInt64.size - 1

/-- One more, unless the limit is reached. -/
def increment (count : Nat) : Nat :=
  min (count + 1) countLimit

theorem increment_of_lt {count : Nat} (h : count < countLimit) : increment count = count + 1 :=
  Nat.min_eq_left h

end A64Machine
