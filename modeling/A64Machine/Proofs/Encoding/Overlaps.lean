import A64Machine.Proofs.Encoding.Decoded

/-!
Which rows of a decode table accept a word together.  Two rows do when they expect the same bits
wherever both of them look, so the pairs that overlap can be listed, and a table without such a pair
decides every word alike in whatever order its rows stand.  Order matters in four tables only.
-/

namespace A64Machine

section Rows

variable {α : Type} {row other : Row α}

/-- Whether some word is accepted by both rows. -/
def Row.Overlaps (row other : Row α) : Prop :=
  ∃ word, row.accepts word = true ∧ other.accepts word = true

theorem Row.accepts_iff {word : Word} :
    row.accepts word = true ↔ word &&& row.mask = row.expected := by
  rw [accepts, beq_iff_eq]

/-- Rows overlap when neither expects a bit that it does not look at, and they expect the same where
both look. -/
theorem Row.overlaps_iff :
    row.Overlaps other ↔ row.expected &&& row.mask = row.expected ∧
      other.expected &&& other.mask = other.expected ∧
      row.expected &&& other.mask = other.expected &&& row.mask := by
  constructor
  · rintro ⟨word, hrow, hother⟩
    rw [accepts_iff] at hrow hother
    rw [← hrow, ← hother]
    refine ⟨?_, ?_, ?_⟩
    · rw [BitVec.and_assoc, BitVec.and_self]
    · rw [BitVec.and_assoc, BitVec.and_self]
    · rw [BitVec.and_assoc, BitVec.and_assoc, BitVec.and_comm row.mask]
  · rintro ⟨hrow, hother, hboth⟩
    have habsorb (x y : Word) : x ||| x &&& y = x := by
      ext i
      simp +contextual
    -- A word with the bits that either row expects is accepted by both.
    refine ⟨row.expected ||| other.expected, ?_, ?_⟩
    · rw [accepts_iff, BitVec.and_or_distrib_right, hrow, ← hboth, habsorb]
    · rw [accepts_iff, BitVec.and_or_distrib_right, hother, hboth, BitVec.or_comm, habsorb]

instance (row other : Row α) : Decidable (row.Overlaps other) :=
  decidable_of_iff _ Row.overlaps_iff.symm

end Rows

namespace Table

variable {α : Type}

/-- The rows that accept a word, in order. -/
def accepting (table : Table α) (word : Word) : Table α :=
  table.filter (·.accepts word)

/-- The pairs of rows that overlap, the earlier row of each first. -/
def overlaps : Table α → List (Row α × Row α)
  | [] => []
  | row :: rest => (rest.filter (row.Overlaps ·)).map (row, ·) ++ overlaps rest

variable {table other : Table α} {word : Word}

/-- Without overlaps at most one row accepts a word. -/
theorem length_accepting_le_one (hnone : table.overlaps = []) (word : Word) :
    (table.accepting word).length ≤ 1 := by
  induction table with
  | nil => exact Nat.zero_le 1
  | cons row rest ih =>
    obtain ⟨hrow, hrest⟩ := List.append_eq_nil_iff.1 hnone
    rw [List.map_eq_nil_iff, List.filter_eq_nil_iff] at hrow
    by_cases haccepts : row.accepts word = true
    · have hothers : accepting rest word = [] := by
        apply List.filter_eq_nil_iff.2
        intro later hlater hboth
        exact hrow later hlater (decide_eq_true ⟨word, haccepts, hboth⟩)
      have honly : accepting (row :: rest) word = row :: accepting rest word :=
        List.filter_cons_of_pos haccepts
      rw [honly, hothers]
      exact Nat.le_refl 1
    · have hskipped : accepting (row :: rest) word = accepting rest word :=
        List.filter_cons_of_neg haccepts
      rw [hskipped]
      exact ih hrest

theorem lookup_eq_accepting (table : Table α) (word : Word) :
    table.lookup word = (table.accepting word).head?.map (·.label) := by
  rw [lookup, accepting, List.head?_filter]

theorem lookup_append (table other : Table α) (word : Word) :
    lookup (table ++ other) word = (table.lookup word).or (other.lookup word) := by
  rw [lookup, List.find?_append, lookup, lookup]
  cases List.find? (·.accepts word) table <;> rfl

/-- Where at most one row accepts a word, the rows may stand in any order. -/
theorem lookup_of_perm (hone : (table.accepting word).length ≤ 1) (hperm : table.Perm other) :
    other.lookup word = table.lookup word := by
  have haccepting : (table.accepting word).Perm (other.accepting word) := hperm.filter _
  rw [lookup_eq_accepting, lookup_eq_accepting]
  match hrows : table.accepting word with
  | [] =>
    rw [hrows] at haccepting
    rw [haccepting.nil_eq]
  | [row] =>
    rw [hrows] at haccepting
    rw [haccepting.symm.eq_singleton]
  | _ :: _ :: _ =>
    rw [hrows] at hone
    simp at hone

end Table

/-- The tables that decoding consults. -/
structure DecodingTables where
  groups : Table InstructionGroup
  classes : InstructionGroup → Table InstructionClass
  mnemonics : InstructionClass → Option (Table Mnemonic)

/-- The classes whose mnemonic tables have rows that overlap. -/
def InstructionClass.ordered : List InstructionClass := [.hints, .barriers, .pState]

/-- The rows of the SIMD and floating-point group before the last. -/
def simdSpecific : Table InstructionClass := simdFpClasses.dropLast

/-- The row that takes every word of the SIMD and floating-point group. -/
def simdCatchAll : Row InstructionClass := ⟨0, 0, .simdOther⟩

namespace DecodingTables

/-- Decodes a word through the three levels of the given tables. -/
def decode (tables : DecodingTables) (word : Word) : Except DecodeFault Instruction :=
  match tables.groups.lookup word with
  | none => .error ⟨word, .group, .undefined, none, none⟩
  | some group =>
    if !group.isSupported then
      .error ⟨word, .cls, .unsupported, some group, none⟩
    else
      match (tables.classes group).lookup word with
      | none => .error ⟨word, .cls, .undefined, some group, none⟩
      | some c =>
        match tables.mnemonics c with
        | none => .error ⟨word, .mnemonic, .unsupported, some group, some c⟩
        | some table =>
          match table.lookup word with
          | none => .error ⟨word, .mnemonic, .undefined, some group, some c⟩
          | some mnemonic => .ok ⟨word, group, c, mnemonic⟩

def standard : DecodingTables :=
  ⟨groupTable, InstructionGroup.classes, InstructionClass.mnemonics⟩

theorem decode_standard : standard.decode = A64Machine.decode := rfl

/-- Tables with the rows of the instruction set in any order, but for the rows that overlap: the row
that takes every SIMD word stays last, and the tables of the ordered classes stay as they are. -/
structure Reordered (tables : DecodingTables) : Prop where
  groups : groupTable.Perm tables.groups
  classes : ∀ group : InstructionGroup, group ≠ .simdFp →
    group.classes.Perm (tables.classes group)
  simdFp : ∃ front, simdSpecific.Perm front ∧
    tables.classes .simdFp = front ++ [simdCatchAll]
  mnemonics : ∀ c, c ∉ InstructionClass.ordered →
    Option.Rel List.Perm c.mnemonics (tables.mnemonics c)
  ordered : ∀ c ∈ InstructionClass.ordered, tables.mnemonics c = c.mnemonics

end DecodingTables

theorem overlaps_groupTable : groupTable.overlaps = [] := by
  decide +kernel

theorem overlaps_classes {group : InstructionGroup} (hgroup : group ≠ .simdFp) :
    group.classes.overlaps = [] := by
  cases group with
  | simdFp => exact absurd rfl hgroup
  | _ => decide +kernel

theorem overlaps_simdSpecific : simdSpecific.overlaps = [] := by
  decide +kernel

theorem overlaps_mnemonics {c : InstructionClass} (hordered : c ∉ InstructionClass.ordered)
    {table : Table Mnemonic} (htable : c.mnemonics = some table) : table.overlaps = [] := by
  have hall : ∀ c ∈ InstructionClass.all, c ∉ InstructionClass.ordered →
      ∀ table ∈ c.mnemonics, table.overlaps = [] := by
    decide +kernel
  exact hall c c.mem_all hordered table htable

namespace DecodingTables.Reordered

variable {tables : DecodingTables} (hreordered : tables.Reordered)

include hreordered

theorem lookup_groups (word : Word) :
    tables.groups.lookup word = standard.groups.lookup word :=
  Table.lookup_of_perm (Table.length_accepting_le_one overlaps_groupTable word) hreordered.groups

theorem lookup_classes (group : InstructionGroup) (word : Word) :
    (tables.classes group).lookup word = (standard.classes group).lookup word := by
  by_cases hgroup : group = .simdFp
  · obtain ⟨front, hfront, hclasses⟩ := hreordered.simdFp
    have hspecific : Table.lookup front word = simdSpecific.lookup word :=
      Table.lookup_of_perm (Table.length_accepting_le_one overlaps_simdSpecific word) hfront
    have hlast : simdFpClasses = simdSpecific ++ [simdCatchAll] := by decide
    rw [hgroup, hclasses, Table.lookup_append, hspecific, ← Table.lookup_append, ← hlast]
    rfl
  · exact Table.lookup_of_perm
      (Table.length_accepting_le_one (overlaps_classes hgroup) word)
      (hreordered.classes group hgroup)

theorem lookup_mnemonics (c : InstructionClass) (word : Word) :
    (tables.mnemonics c).map (Table.lookup · word) =
      (standard.mnemonics c).map (Table.lookup · word) := by
  by_cases hordered : c ∈ InstructionClass.ordered
  · rw [hreordered.ordered c hordered]
    rfl
  · have hone (table : Table Mnemonic) (htable : standard.mnemonics c = some table) :
        (table.accepting word).length ≤ 1 :=
      Table.length_accepting_le_one (overlaps_mnemonics hordered htable) word
    have hperm : Option.Rel List.Perm (standard.mnemonics c) (tables.mnemonics c) :=
      hreordered.mnemonics c hordered
    generalize standard.mnemonics c = own at hone hperm
    generalize tables.mnemonics c = others at hperm
    cases hperm with
    | none => rfl
    | some hrows => exact congrArg some (Table.lookup_of_perm (hone _ rfl) hrows)

/-- Reordered tables decode every word alike. -/
theorem decode_eq (word : Word) : tables.decode word = A64Machine.decode word := by
  rw [← decode_standard, decode, decode, hreordered.lookup_groups]
  cases standard.groups.lookup word with
  | none => rfl
  | some group =>
    dsimp only
    rw [hreordered.lookup_classes]
    cases (standard.classes group).lookup word with
    | none => rfl
    | some c =>
      have hlookup := hreordered.lookup_mnemonics c word
      dsimp only
      generalize standard.mnemonics c = own at hlookup
      generalize tables.mnemonics c = others at hlookup
      cases own with
      | none => rw [Option.map_eq_none_iff.1 hlookup]
      | some table =>
        obtain ⟨other, rfl, hsame⟩ := Option.map_eq_some_iff.1 hlookup
        change other.lookup word = table.lookup word at hsame
        dsimp only
        rw [hsame]

end DecodingTables.Reordered

/-- Which rows of the decode tables overlap.  At most one row of a table accepts a word, except for
the last row of the SIMD classes, which accepts every word, and in the mnemonic tables of hints,
barriers and PSTATE accesses; so the rows of the other tables may stand in any order.  In the three
exceptional tables the plain hint overlaps every other hint, PSSBB one of the DSB rows, and the
general MSR (immediate) the three rows before it. -/
theorem decode_overlapping_rows :
    (∀ word, (groupTable.accepting word).length ≤ 1) ∧
    (∀ group : InstructionGroup, group ≠ .simdFp →
      ∀ word, (group.classes.accepting word).length ≤ 1) ∧
    (simdFpClasses = simdSpecific ++ [simdCatchAll] ∧
      ∀ word, (simdSpecific.accepting word).length ≤ 1) ∧
    (∀ c, c ∉ InstructionClass.ordered → ∀ table, c.mnemonics = some table →
      ∀ word, (table.accepting word).length ≤ 1) ∧
    (∀ tables : DecodingTables, tables.Reordered →
      ∀ word, tables.decode word = decode word) ∧
    hintRows.overlaps = hintRows.dropLast.map (·, ⟨0xFFFFF01F, 0xD503201F, .hint⟩) ∧
    barrierRows.overlaps =
      [(⟨0xFFFFFFFF, 0xD503349F, .dsb⟩, ⟨0xFFFFFFFF, 0xD503349F, .pssbb⟩)] ∧
    pStateRows.overlaps =
      [(⟨0xFFFFF0FF, 0xD500401F, .cfinv⟩, ⟨0xFFF8F01F, 0xD500401F, .msrImmediate⟩),
        (⟨0xFFFFF0FF, 0xD500403F, .xaflag⟩, ⟨0xFFF8F01F, 0xD500401F, .msrImmediate⟩),
        (⟨0xFFFFF0FF, 0xD500405F, .axflag⟩, ⟨0xFFF8F01F, 0xD500401F, .msrImmediate⟩)] := by
  refine ⟨?groups, ?classes, ⟨by decide, ?specific⟩, ?mnemonics, ?order, ?hints, ?barriers, ?pState⟩
  case groups => exact Table.length_accepting_le_one overlaps_groupTable
  case classes =>
    intro group hgroup
    exact Table.length_accepting_le_one (overlaps_classes hgroup)
  case specific => exact Table.length_accepting_le_one overlaps_simdSpecific
  case mnemonics =>
    intro c hordered table htable
    exact Table.length_accepting_le_one (overlaps_mnemonics hordered htable)
  case order =>
    intro tables hreordered
    exact hreordered.decode_eq
  case hints | barriers | pState => decide +kernel

/-- The tables with every row in reverse order that may be. -/
def DecodingTables.reversed : DecodingTables where
  groups := groupTable.reverse
  classes group :=
    if group = .simdFp then simdSpecific.reverse ++ [simdCatchAll] else group.classes.reverse
  mnemonics c :=
    if c ∈ InstructionClass.ordered then c.mnemonics else c.mnemonics.map List.reverse

/-- Reversed tables decode every word alike. -/
theorem decode_overlapping_rows_reversed :
    DecodingTables.reversed.Reordered ∧
      (∀ word, DecodingTables.reversed.decode word = decode word) ∧
      (InstructionGroup.loadStore ≠ .simdFp ∧
        ∀ word, (loadStoreClasses.accepting word).length ≤ 1) ∧
      InstructionClass.dataProcessingOneSource ∉ InstructionClass.ordered ∧
      ∀ word, (oneSourceRows.accepting word).length ≤ 1 := by
  have hreversed : DecodingTables.reversed.Reordered := by
    refine ⟨(List.reverse_perm _).symm, ?classes,
      ⟨simdSpecific.reverse, (List.reverse_perm _).symm, rfl⟩, ?mnemonics, ?ordered⟩
    case classes =>
      intro group hgroup
      have hrows : DecodingTables.reversed.classes group = group.classes.reverse := if_neg hgroup
      rw [hrows]
      exact (List.reverse_perm _).symm
    case mnemonics =>
      intro c hordered
      have hrows : DecodingTables.reversed.mnemonics c = c.mnemonics.map List.reverse :=
        if_neg hordered
      rw [hrows]
      cases c.mnemonics with
      | none => exact .none
      | some table => exact .some (List.reverse_perm table).symm
    case ordered =>
      intro c hordered
      exact if_pos hordered
  have hgroup : InstructionGroup.loadStore ≠ .simdFp := by decide
  have hclass : InstructionClass.dataProcessingOneSource ∉ InstructionClass.ordered := by decide
  obtain ⟨-, hclasses, -, hmnemonics, horder, -⟩ := decode_overlapping_rows
  exact ⟨hreversed, horder _ hreversed, ⟨hgroup, hclasses .loadStore hgroup⟩, hclass,
    hmnemonics .dataProcessingOneSource hclass _ rfl⟩

end A64Machine
