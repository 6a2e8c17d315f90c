import A64Machine.Event

/-!
The contract of a word memory.  An access must lie inside the memory, and a block access on a cache
must lie inside one line; a call that breaks the contract is answered with a `Violation` and changes
nothing.
-/

namespace A64Machine

/-- How a caller broke the contract of a component. -/
inductive Violation where
  | outOfRange (name : String) (count start size : Nat)
  | crossesLine (name : String) (count start : Nat)
  | unprobedStore (address : Doubleword)
  | noCores (index : Nat)
  | tooManyWords
  deriving Repr, DecidableEq

def Violation.message : Violation → String
  | .outOfRange name count start size =>
    s!"{name}: access of {count} units at {hex start} is outside {size} units"
  | .crossesLine name count start =>
    s!"{name}: block of {count} units at {hex start} crosses a cache line"
  | .unprobedStore address => s!"store to {hex address.toNat} was not probed"
  | .noCores index => s!"module {index} needs at least one core"
  | .tooManyWords => "capacity overflow"

/-- What a call on a component answers: a value, the component afterwards, and the events in the
order in which they happened. -/
structure Reply (σ α : Type) where
  value : α
  state : σ
  events : List Event

/-- The same reply of a component that contains the one that answered. -/
def Reply.lift {σ τ α : Type} (reply : Reply σ α) (f : σ → τ) : Reply τ α :=
  { value := reply.value, state := f reply.state, events := reply.events }

/-- Checks that `count` words at `start` lie inside a memory of `size` words. -/
def checkRange (name : String) (size start count : Nat) : Except Violation Unit :=
  if start + count ≤ size then .ok () else .error (.outOfRange name count start size)

/-- Writes a list of values into consecutive places; what passes the end is dropped. -/
def overwrite {α : Type} {n : Nat} (target : Vector α n) (start : Nat) : List α → Vector α n
  | [] => target
  | value :: rest => overwrite (target.setIfInBounds start value) (start + 1) rest

theorem getElem_overwrite {α : Type} {n : Nat} (target : Vector α n) (start : Nat)
    (data : List α) (i : Nat) (h : i < n) :
    (overwrite target start data)[i] =
      if start ≤ i then data[i - start]?.getD target[i] else target[i] := by
  induction data generalizing target start with
  | nil => simp [overwrite]
  | cons value rest ih =>
    rw [overwrite, ih]
    by_cases before : start ≤ i
    · by_cases same : start = i
      · subst same
        have notAfter : ¬ start + 1 ≤ start := by omega
        simp [notAfter]
      · have after : start + 1 ≤ i := by omega
        have place : i - start = i - (start + 1) + 1 := by omega
        simp [before, after, place, same]
    · have notAfter : ¬ start + 1 ≤ i := by omega
      have other : start ≠ i := by omega
      simp [before, notAfter, other]

end A64Machine
