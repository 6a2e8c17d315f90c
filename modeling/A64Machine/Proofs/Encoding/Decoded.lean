import A64Machine.Arithmetic
import A64Machine.Decode
import A64Machine.Encoding.Field
import A64Machine.Proofs.Execution.Accesses

/-!
What the tables say about a word that decodes: it agrees with a row of the table of its class on the
bits of the row, so every property that the rows of a class share holds of the words of the class.
-/

namespace A64Machine

theorem getLsbD_extract (field : InstructionField) (word : Word) {i : Nat} (hi : i < field.width) :
    (field.extract word).getLsbD i = word.getLsbD (field.offset + i) := by
  rw [InstructionField.extract, BitVec.getLsbD_extractLsb']
  simp [hi]

theorem Table.lookup_eq_some {α : Type} {table : Table α} {word : Word} {label : α}
    (hlookup : table.lookup word = some label) :
    ∃ row ∈ table, row.accepts word = true ∧ row.label = label := by
  unfold lookup at hlookup
  obtain ⟨row, hfind, hlabel⟩ := Option.map_eq_some_iff.1 hlookup
  have haccepts := List.find?_some hfind
  exact ⟨row, List.mem_of_find?_eq_some hfind, haccepts, hlabel⟩

/-- A word has the bits of the rows that accept it. -/
theorem Row.getLsbD_of_accepts {α : Type} {row : Row α} {word : Word}
    (haccepts : row.accepts word = true) {i : Nat} (hmask : row.mask.getLsbD i = true) :
    word.getLsbD i = row.expected.getLsbD i := by
  have hexpected : word &&& row.mask = row.expected := by simpa [accepts] using haccepts
  rw [← hexpected, BitVec.getLsbD_and, hmask, Bool.and_true]

/-- A word has the fields of the rows that accept it and look at the whole field. -/
theorem Row.extract_of_accepts {α : Type} {row : Row α} {word : Word}
    (haccepts : row.accepts word = true) {field : InstructionField}
    (hmask : ∀ i < field.width, row.mask.getLsbD (field.offset + i) = true) :
    field.extract word = field.extract row.expected := by
  apply BitVec.eq_of_getLsbD_eq
  intro i hi
  rw [getLsbD_extract field word hi, getLsbD_extract field row.expected hi]
  exact getLsbD_of_accepts haccepts (hmask i hi)

/-- What it means that a word decodes. -/
theorem decode_eq_ok {word : Word} {instruction : Instruction}
    (hdecode : decode word = .ok instruction) :
    instruction.word = word ∧ groupOf word = some instruction.group ∧
      instruction.group.classOf word = some instruction.cls ∧
      ∃ table, instruction.cls.mnemonics = some table ∧
        table.lookup word = some instruction.mnemonic := by
  unfold decode at hdecode
  repeat' split at hdecode
  all_goals first
    | contradiction
    | obtain rfl := Except.ok.inj hdecode
  exact ⟨rfl, by assumption, by assumption, _, by assumption, by assumption⟩

/-- The row of the class of an instruction that accepts its word. -/
theorem row_of_decode {word : Word} {instruction : Instruction}
    (hdecode : decode word = .ok instruction) (table : Table Mnemonic)
    (htable : instruction.cls.mnemonics = some table) :
    ∃ row ∈ table, row.accepts instruction.word = true ∧ row.label = instruction.mnemonic := by
  obtain ⟨hword, -, -, table', htable', hlookup⟩ := decode_eq_ok hdecode
  obtain rfl := Option.some.inj (htable'.symm.trans htable)
  rw [hword]
  exact Table.lookup_eq_some hlookup

theorem InstructionClass.mem_all (c : InstructionClass) : c ∈ InstructionClass.all := by
  cases c <;> decide

/-- What holds of the mnemonics in every table holds of every instruction. -/
theorem forall_rows_of_decode {p : InstructionClass → Mnemonic → Prop}
    (hrows : ∀ cls ∈ InstructionClass.all, ∀ table ∈ cls.mnemonics, ∀ row ∈ table, p cls row.label)
    {word : Word} {instruction : Instruction} (hdecode : decode word = .ok instruction) :
    p instruction.cls instruction.mnemonic := by
  obtain ⟨-, -, -, table, htable, -⟩ := decode_eq_ok hdecode
  obtain ⟨row, hrow, -, hlabel⟩ := row_of_decode hdecode table htable
  rw [← hlabel]
  exact hrows _ instruction.cls.mem_all table htable row hrow

/-- The classes whose words are checked before their mnemonic is looked at. -/
def InstructionClass.checkedFirst : List InstructionClass :=
  [.logicalImmediate, .moveWideImmediate, .bitfield, .logicalShiftedRegister]

/-- In those classes every mnemonic has semantics. -/
theorem executes_of_checkedFirst {word : Word} {instruction : Instruction}
    (hdecode : decode word = .ok instruction)
    (hfirst : instruction.cls ∈ InstructionClass.checkedFirst) :
    instruction.cls.executes instruction.mnemonic = true :=
  forall_rows_of_decode (p := fun cls mnemonic =>
    cls ∈ InstructionClass.checkedFirst → cls.executes mnemonic = true)
    (by decide +kernel) hdecode hfirst

/-- In a 32-bit move of an immediate the position is one of the two low halfwords. -/
theorem hw_lt_of_decode {start word : Word} {group : InstructionGroup} {mnemonic : Mnemonic}
    (hdecode : decode start = .ok ⟨word, group, .moveWideImmediate, mnemonic⟩)
    (hnarrow : word.getLsbD 31 = false) : (InstructionField.hw.extract word).toNat < 2 := by
  obtain ⟨row, hrow, haccepts, -⟩ := row_of_decode hdecode moveWideRows rfl
  have hrows : ∀ row ∈ moveWideRows, row.mask.getLsbD 31 = true ∧
      (row.expected.getLsbD 31 = false →
        row.mask.getLsbD 22 = true ∧ row.expected.getLsbD 22 = false) := by
    decide
  have hposition : ∀ position : BitVec 2, position.getLsbD 1 = false → position.toNat < 2 := by
    decide
  obtain ⟨hwidth, hhigh⟩ := hrows row hrow
  rw [Row.getLsbD_of_accepts haccepts hwidth] at hnarrow
  obtain ⟨hmask, hexpected⟩ := hhigh hnarrow
  apply hposition
  rw [getLsbD_extract .hw word (by decide), ← hexpected]
  exact Row.getLsbD_of_accepts haccepts hmask

/-- In a bitfield move the mask is as wide as the operand. -/
theorem bitfield_n_of_decode {start word : Word} {group : InstructionGroup} {mnemonic : Mnemonic}
    (hdecode : decode start = .ok ⟨word, group, .bitfield, mnemonic⟩) :
    (InstructionField.n.extract word == 1) = word.getLsbD 31 := by
  obtain ⟨row, hrow, haccepts, -⟩ := row_of_decode hdecode bitfieldRows rfl
  have hrows : ∀ row ∈ bitfieldRows, row.mask.getLsbD 31 = true ∧ row.mask.getLsbD 22 = true ∧
      row.expected.getLsbD 22 = row.expected.getLsbD 31 := by
    decide
  have hbit : ∀ bit : BitVec 1, (bit == 1) = bit.getLsbD 0 := by decide
  obtain ⟨hwidth, hmask, hexpected⟩ := hrows row hrow
  rw [hbit, getLsbD_extract .n word (by decide),
    Row.getLsbD_of_accepts haccepts hwidth, ← hexpected]
  exact Row.getLsbD_of_accepts haccepts hmask

end A64Machine
