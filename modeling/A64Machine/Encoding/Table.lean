import A64Machine.Word

/-!
Decode tables.  A row accepts the words that agree with `expected` on the bits of `mask`; a table
is scanned in order and the first row that accepts a word decides it.
-/

namespace A64Machine

/-- One row of a decode table. -/
structure Row (α : Type) where
  mask : Word
  expected : Word
  label : α
  deriving Repr, DecidableEq

def Row.accepts {α : Type} (row : Row α) (word : Word) : Bool :=
  word &&& row.mask == row.expected

/-- Rows in order of priority. -/
abbrev Table (α : Type) := List (Row α)

/-- The label of the first row that accepts `word`. -/
def Table.lookup {α : Type} (table : Table α) (word : Word) : Option α :=
  (table.find? (·.accepts word)).map (·.label)

end A64Machine
