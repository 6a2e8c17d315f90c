import A64Machine.Proofs.Encoding.Overlaps

/-!
Assembling words.  Values are placed in the fields of a word that decodes, and as long as they leave
alone the bits that decoding looks at, the new word decodes to the same operation and has the values
in its fields.
-/

namespace A64Machine

namespace InstructionField

/-- A word with a value in a field and zeros around it. -/
def place (field : InstructionField) (value : BitVec field.width) : Word :=
  value.setWidth 32 <<< field.offset

/-- Whether two fields have no bit in common. -/
def Apart (field other : InstructionField) : Prop :=
  field.offset + field.width ≤ other.offset ∨ other.offset + other.width ≤ field.offset

instance (field other : InstructionField) : Decidable (field.Apart other) :=
  inferInstanceAs (Decidable (_ ∨ _))

theorem offset_add_width_le (field : InstructionField) : field.offset + field.width ≤ 32 := by
  cases field <;> decide

theorem getLsbD_place (field : InstructionField) (value : BitVec field.width) (i : Nat) :
    (field.place value).getLsbD i =
      (decide (field.offset ≤ i) && value.getLsbD (i - field.offset)) := by
  have hwidth := field.offset_add_width_le
  rw [place, BitVec.getLsbD_shiftLeft, BitVec.getLsbD_setWidth]
  by_cases hin : field.offset ≤ i ∧ i < field.offset + field.width
  · obtain ⟨hfrom, hto⟩ := hin
    have hword : i < 32 := by omega
    have hplace : i - field.offset < 32 := by omega
    simp [hfrom, hword, hplace, Nat.not_lt.2 hfrom]
  · by_cases hfrom : field.offset ≤ i
    · have hbeyond : field.width ≤ i - field.offset := by omega
      simp [BitVec.getLsbD_of_ge value _ hbeyond]
    · simp [hfrom, Nat.not_le.1 hfrom]

theorem extract_or (field : InstructionField) (word other : Word) :
    field.extract (word ||| other) = field.extract word ||| field.extract other := by
  rw [extract, extract, extract, BitVec.extractLsb'_or]

theorem extract_place (field : InstructionField) (value : BitVec field.width) :
    field.extract (field.place value) = value := by
  apply BitVec.eq_of_getLsbD_eq
  intro i hi
  rw [getLsbD_extract field _ hi, getLsbD_place, decide_eq_true (Nat.le_add_right _ _),
    Bool.true_and, Nat.add_sub_cancel_left]

theorem extract_place_of_apart {field other : InstructionField} (hapart : field.Apart other)
    (value : BitVec other.width) : field.extract (other.place value) = 0 := by
  apply BitVec.eq_of_getLsbD_eq
  intro i hi
  rw [getLsbD_extract field _ hi, getLsbD_place]
  rcases hapart with hbelow | habove
  · have hout : ¬other.offset ≤ field.offset + i := by omega
    simp [hout]
  · have hbeyond : other.width ≤ field.offset + i - other.offset := by omega
    simp [BitVec.getLsbD_of_ge value _ hbeyond]

/-- A field that is still zero takes a value. -/
theorem extract_or_place {field : InstructionField} {word : Word} (hzero : field.extract word = 0)
    (value : BitVec field.width) : field.extract (word ||| field.place value) = value := by
  rw [extract_or, hzero, extract_place]
  exact BitVec.zero_or

/-- A value leaves the other fields as they are. -/
theorem extract_or_place_of_apart {field other : InstructionField} (hapart : field.Apart other)
    (word : Word) (value : BitVec other.width) :
    field.extract (word ||| other.place value) = field.extract word := by
  rw [extract_or, extract_place_of_apart hapart]
  exact BitVec.or_zero

/-- A value does not touch the bits of a mask that are outside its field. -/
theorem place_and_eq_zero {field : InstructionField} {mask : Word}
    (hopen : field.extract mask = 0) (value : BitVec field.width) :
    field.place value &&& mask = 0 := by
  apply BitVec.eq_of_getLsbD_eq
  intro i hi
  rw [BitVec.getLsbD_and, getLsbD_place]
  by_cases hin : field.offset ≤ i ∧ i - field.offset < field.width
  · obtain ⟨hfrom, hto⟩ := hin
    have hbit : (field.extract mask).getLsbD (i - field.offset) = false := by
      rw [hopen]
      exact BitVec.getLsbD_zero
    rw [getLsbD_extract field _ hto, Nat.add_sub_cancel' hfrom] at hbit
    rw [hbit, Bool.and_false]
    exact BitVec.getLsbD_zero.symm
  · by_cases hfrom : field.offset ≤ i
    · have hbeyond : field.width ≤ i - field.offset := by omega
      simp [BitVec.getLsbD_of_ge value _ hbeyond]
    · simp [hfrom]

end InstructionField

/-- The bits of the row that decides a word; none when no row accepts it. -/
def Table.decisive {α : Type} (table : Table α) (word : Word) : Word :=
  ((table.find? (·.accepts word)).map (·.mask)).getD 0

/-- A word that has the decisive bits of another is decided by the same row, when no two rows accept
a word together. -/
theorem Table.lookup_of_agree {α : Type} {table : Table α} (hnone : table.overlaps = [])
    {base word : Word} {label : α} (hlookup : table.lookup base = some label)
    (hagree : word &&& table.decisive base = base &&& table.decisive base) :
    table.lookup word = some label := by
  obtain ⟨row, hfind, hlabel⟩ := Option.map_eq_some_iff.1 hlookup
  have hmask : table.decisive base = row.mask := by
    rw [decisive, hfind]
    rfl
  have hbase := List.find?_some hfind
  rw [Row.accepts_iff, ← hmask, ← hagree, hmask, ← Row.accepts_iff] at hbase
  have hmem : row ∈ table.accepting word :=
    List.mem_filter.2 ⟨List.mem_of_find?_eq_some hfind, hbase⟩
  have hone := length_accepting_le_one hnone word
  rw [lookup_eq_accepting]
  match hrows : table.accepting word with
  | [] =>
    rw [hrows] at hmem
    contradiction
  | [only] =>
    rw [hrows, List.mem_singleton] at hmem
    rw [← hmem]
    exact congrArg some hlabel
  | _ :: _ :: _ =>
    rw [hrows] at hone
    simp at hone

namespace Instruction

/-- The bits that decide about the group, the class and the mnemonic of an instruction. -/
def decisive (instruction : Instruction) : Word :=
  groupTable.decisive instruction.word ||| instruction.group.classes.decisive instruction.word |||
    (instruction.cls.mnemonics.getD []).decisive instruction.word

/-- Whether the rows that decide about an instruction stand in tables whose rows do not overlap. -/
def Separate (instruction : Instruction) : Prop :=
  instruction.group ≠ .simdFp ∧ instruction.cls ∉ InstructionClass.ordered

instance (instruction : Instruction) : Decidable instruction.Separate :=
  inferInstanceAs (Decidable (_ ∧ _))

end Instruction

/-- Words that agree on some bits and on others agree on each. -/
theorem and_eq_of_or {word other left right : Word}
    (hagree : word &&& (left ||| right) = other &&& (left ||| right)) :
    word &&& left = other &&& left ∧ word &&& right = other &&& right := by
  have habsorb (x : Word) : x &&& (left ||| right) &&& left = x &&& left ∧
      x &&& (left ||| right) &&& right = x &&& right := by
    constructor <;> ext i <;> cases hleft : left[i] <;> cases hright : right[i] <;>
      simp [hleft, hright]
  obtain ⟨hleft, hright⟩ := habsorb word
  obtain ⟨hleft', hright'⟩ := habsorb other
  rw [← hleft, ← hright, hagree]
  exact ⟨hleft', hright'⟩

/-- A word with the decisive bits of an instruction decodes to the same operation. -/
theorem decode_of_agree {base word : Word} {instruction : Instruction}
    (hdecode : decode base = .ok instruction) (hseparate : instruction.Separate)
    (hagree : word &&& instruction.decisive = base &&& instruction.decisive) :
    decode word = .ok { instruction with word } := by
  obtain ⟨hword, hgroup, hclass, table, htable, hmnemonic⟩ := decode_eq_ok hdecode
  obtain ⟨hsimd, hordered⟩ := hseparate
  rw [Instruction.decisive, hword, htable] at hagree
  obtain ⟨hupper, hrow⟩ := and_eq_of_or hagree
  obtain ⟨htop, hmiddle⟩ := and_eq_of_or hupper
  have hsupported : instruction.group.isSupported = true := by
    cases hsve : instruction.group with
    | sve =>
      rw [hsve] at hclass
      contradiction
    | _ => rfl
  have hgroup' : groupOf word = some instruction.group :=
    Table.lookup_of_agree overlaps_groupTable hgroup htop
  have hclass' : instruction.group.classOf word = some instruction.cls :=
    Table.lookup_of_agree (overlaps_classes hsimd) hclass hmiddle
  have hmnemonic' : table.lookup word = some instruction.mnemonic :=
    Table.lookup_of_agree (overlaps_mnemonics hordered htable) hmnemonic hrow
  simp only [decode, hgroup', hsupported, hclass', htable, hmnemonic']
  rfl

/-! ### Words from values -/

/-- A field with a value for it. -/
structure Placement where
  field : InstructionField
  value : BitVec field.width

/-- A word with values put into some of its fields. -/
def assemble (word : Word) : List Placement → Word
  | [] => word
  | placement :: rest => assemble word rest ||| placement.field.place placement.value

section Assemble

variable {word : Word} {placements : List Placement}

theorem InstructionField.Apart.symm {field other : InstructionField} (hapart : field.Apart other) :
    other.Apart field := Or.symm hapart

/-- Values leave the fields apart from theirs as they are. -/
theorem extract_assemble_of_apart {field : InstructionField}
    (hapart : ∀ placement ∈ placements, field.Apart placement.field) :
    field.extract (assemble word placements) = field.extract word := by
  induction placements with
  | nil => rfl
  | cons placement rest ih =>
    rw [assemble, InstructionField.extract_or_place_of_apart (hapart placement List.mem_cons_self)]
    exact ih fun later hlater => hapart later (List.mem_cons_of_mem placement hlater)

/-- A field has the value that was put into it. -/
theorem extract_assemble (hapart : (placements.map Placement.field).Pairwise InstructionField.Apart)
    (hblank : ∀ placement ∈ placements, placement.field.extract word = 0) {placement : Placement}
    (hplacement : placement ∈ placements) :
    placement.field.extract (assemble word placements) = placement.value := by
  induction placements with
  | nil => contradiction
  | cons first rest ih =>
    rw [List.map_cons, List.pairwise_cons] at hapart
    obtain ⟨hfirst, hrest⟩ := hapart
    have hother : ∀ later ∈ rest, first.field.Apart later.field :=
      fun later hlater => hfirst later.field (List.mem_map_of_mem hlater)
    rw [assemble]
    rcases List.mem_cons.1 hplacement with rfl | hmem
    · apply InstructionField.extract_or_place
      rw [extract_assemble_of_apart hother]
      exact hblank placement List.mem_cons_self
    · rw [InstructionField.extract_or_place_of_apart (hother placement hmem).symm]
      exact ih hrest (fun later hlater => hblank later (List.mem_cons_of_mem first hlater)) hmem

/-- Values keep the bits of a mask that is clear in their fields. -/
theorem assemble_and {mask : Word}
    (hopen : ∀ placement ∈ placements, placement.field.extract mask = 0) :
    assemble word placements &&& mask = word &&& mask := by
  induction placements with
  | nil => rfl
  | cons placement rest ih =>
    rw [assemble, BitVec.and_or_distrib_right,
      InstructionField.place_and_eq_zero (hopen placement List.mem_cons_self),
      ih fun later hlater => hopen later (List.mem_cons_of_mem placement hlater)]
    exact BitVec.or_zero

end Assemble

/-- An instruction with room for operands: the given fields of its word are zero and have no bit in
common, and decoding looks at none of them. -/
structure Instruction.Template (instruction : Instruction) (fields : List InstructionField) :
    Prop where
  decodes : decode instruction.word = .ok instruction
  separate : instruction.Separate
  apart : fields.Pairwise InstructionField.Apart
  blank : ∀ field ∈ fields, field.extract instruction.word = 0
  undecided : ∀ field ∈ fields, field.extract instruction.decisive = 0

/-- A template is checked by evaluation. -/
theorem Instruction.template_of_closed {instruction : Instruction} {fields : List InstructionField}
    (hdecode : decode instruction.word = .ok instruction)
    (hfields : instruction.Separate ∧ fields.Pairwise InstructionField.Apart ∧
      ∀ field ∈ fields, field.extract instruction.word = 0 ∧
        field.extract instruction.decisive = 0) : instruction.Template fields where
  decodes := hdecode
  separate := hfields.1
  apart := hfields.2.1
  blank field hfield := (hfields.2.2 field hfield).1
  undecided field hfield := (hfields.2.2 field hfield).2

namespace Instruction.Template

variable {instruction : Instruction} {fields : List InstructionField} {placements : List Placement}
  (htemplate : instruction.Template fields) (hfields : placements.map Placement.field = fields)

include htemplate hfields

/-- With operands in its fields the word decodes to the same operation. -/
theorem decode_assemble : decode (assemble instruction.word placements) =
    .ok { instruction with word := assemble instruction.word placements } := by
  refine decode_of_agree htemplate.decodes htemplate.separate (assemble_and ?_)
  intro placement hplacement
  apply htemplate.undecided
  rw [← hfields]
  exact List.mem_map_of_mem hplacement

/-- The operands are those that were put in. -/
theorem extract_eq {placement : Placement} (hplacement : placement ∈ placements) :
    placement.field.extract (assemble instruction.word placements) = placement.value := by
  refine extract_assemble (hfields ▸ htemplate.apart) ?_ hplacement
  intro other hother
  apply htemplate.blank
  rw [← hfields]
  exact List.mem_map_of_mem hother

end Instruction.Template

end A64Machine
