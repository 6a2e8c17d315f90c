import Mathlib.Data.List.Forall2
import A64Machine.Proofs.Encoding.Assembly
import A64Machine.Proofs.Execution.OperandWidths
import A64Machine.Proofs.Execution.Sequences

/-!
Constants that are built halfword by halfword.  The first instruction puts one halfword of the
constant into a register and settles what is around it, the others put in theirs and keep the rest;
in whatever order they come, the register holds the constant in the end.
-/

namespace A64Machine

/-- What a move of a halfword does with the rest of its register: it clears the rest, it sets the
rest and inverts the halfword, or it keeps the rest. -/
inductive HalfwordMove where
  | zeroed | inverted | kept
  deriving Repr, DecidableEq

namespace HalfwordMove

def mnemonic : HalfwordMove → OperandWidth → Mnemonic
  | .zeroed, .w32 => .movzW
  | .zeroed, .w64 => .movzX
  | .inverted, .w32 => .movnW
  | .inverted, .w64 => .movnX
  | .kept, .w32 => .movkW
  | .kept, .w64 => .movkX

/-- What a move makes of the old value when it puts a halfword at a position. -/
def result {w : Nat} (move : HalfwordMove) (old : BitVec w) (imm : BitVec 16) (position : Nat) :
    BitVec w :=
  let placed : BitVec w := imm.setWidth w <<< (16 * position)
  match move with
  | .zeroed => placed
  | .inverted => ~~~placed
  | .kept => old &&& ~~~(0xFFFF#w <<< (16 * position)) ||| placed

/-- The plan of a move to a position within the width. -/
theorem planMoveWide_eq (move : HalfwordMove) {word : Word} (regs : RegisterFile)
    (hposition : 16 * (InstructionField.hw.extract word).toNat < (Operand.width word).bits) :
    planMoveWide word (move.mnemonic (Operand.width word)) regs =
      .ok (.result regs (Operand.rd word)
        (move.result (regs.read (Operand.width word).bits (Operand.rd word))
          (InstructionField.imm16.extract word) (InstructionField.hw.extract word).toNat)) := by
  simp only [planMoveWide, if_neg (Nat.not_le.2 hposition), bind, Except.bind, pure, Except.pure]
  generalize Operand.width word = width
  cases move <;> cases width <;> rfl

/-- Whether a word is a move of a halfword to a position of register `d`. -/
structure Encodes (move : HalfwordMove) (width : OperandWidth) (d : Nat) (imm : BitVec 16)
    (position : Nat) (word : Word) : Prop where
  decodes : ∃ instruction, decode word = .ok instruction ∧
    instruction.mnemonic = move.mnemonic width
  rd_eq : Operand.rd word = d
  imm16_eq : InstructionField.imm16.extract word = imm
  hw_eq : (InstructionField.hw.extract word).toNat = position

/-- A move to a position within the width writes its result. -/
theorem Encodes.advances {move : HalfwordMove} {width : OperandWidth} {d : Nat} {imm : BitVec 16}
    {position : Nat} {word : Word} (hencodes : move.Encodes width d imm position word)
    (hposition : position < width.bits / 16) (regs : RegisterFile) :
    ∃ instruction made, Advances word regs
      ((regs.setGpr d ((move.result (regs.read width.bits d) imm position).setWidth 64)).setPc
        (regs.pc + 4)) instruction made := by
  obtain ⟨instruction, hdecode, hmnemonic⟩ := hencodes.decodes
  have hmember : instruction.mnemonic ∈ InstructionClass.moveWideImmediate.operations := by
    rw [hmnemonic]
    cases move <;> cases width <;> decide
  have hclass : instruction.cls = .moveWideImmediate :=
    class_of_operation (by decide) hdecode hmember
  have hword := (decode_eq_ok hdecode).1
  have hwidth : Operand.width word = width := by
    have hcarries := operandWidth_of_decode hdecode (by rw [hclass]; rfl)
    rw [hmnemonic, hword] at hcarries
    have hown : (move.mnemonic width).operandWidth = some width := by
      cases move <;> cases width <;> rfl
    exact Option.some.inj (hcarries.symm.trans hown)
  have hwithin : 16 * (InstructionField.hw.extract word).toNat < (Operand.width word).bits := by
    rw [hencodes.hw_eq, hwidth]
    omega
  have hplan := planMoveWide_eq move regs hwithin
  rw [hencodes.hw_eq, hencodes.imm16_eq, hencodes.rd_eq, hwidth] at hplan
  refine ⟨instruction, _, .of_result hdecode ?_⟩
  rw [plan, hclass, hmnemonic, hword]
  exact hplan

/-! ### The words of the moves -/

/-- The word of a move whose fields are all zero. -/
def base : HalfwordMove → OperandWidth → Word
  | .zeroed, .w32 => 0x52800000
  | .zeroed, .w64 => 0xD2800000
  | .inverted, .w32 => 0x12800000
  | .inverted, .w64 => 0x92800000
  | .kept, .w32 => 0x72800000
  | .kept, .w64 => 0xF2800000

/-- The word of a move of a halfword to a position of register `d`. -/
def word (move : HalfwordMove) (width : OperandWidth) (d : Nat) (imm : BitVec 16)
    (position : Nat) : Word :=
  move.base width ||| InstructionField.hw.place (BitVec.ofNat 2 position) |||
    InstructionField.imm16.place imm ||| InstructionField.rd.place (BitVec.ofNat 5 d)

section Word

variable (move : HalfwordMove) (width : OperandWidth) (d : Nat) (imm : BitVec 16) {position : Nat}

theorem decode_base : decode (move.base width) =
    .ok ⟨move.base width, .dataProcessingImmediate, .moveWideImmediate, move.mnemonic width⟩ := by
  cases move <;> cases width <;> rfl

theorem decode_word (hposition : position < width.bits / 16) :
    decode (move.word width d imm position) = .ok ⟨move.word width d imm position,
      .dataProcessingImmediate, .moveWideImmediate, move.mnemonic width⟩ := by
  let instruction : Instruction :=
    ⟨move.base width, .dataProcessingImmediate, .moveWideImmediate, move.mnemonic width⟩
  have hopen : (∀ position < width.bits / 16,
      InstructionField.hw.place (BitVec.ofNat 2 position) &&& instruction.decisive = 0) ∧
      InstructionField.imm16.extract instruction.decisive = 0 ∧
      InstructionField.rd.extract instruction.decisive = 0 := by
    cases move <;> cases width <;> decide +kernel
  obtain ⟨hhw, himm, hrd⟩ := hopen
  have hagree : move.word width d imm position &&& instruction.decisive =
      move.base width &&& instruction.decisive := by
    rw [word, BitVec.and_or_distrib_right, BitVec.and_or_distrib_right,
      BitVec.and_or_distrib_right, hhw position hposition,
      InstructionField.place_and_eq_zero himm, InstructionField.place_and_eq_zero hrd]
    exact (BitVec.or_zero.trans BitVec.or_zero).trans BitVec.or_zero
  have hseparate : instruction.Separate := by
    cases move <;> cases width <;> decide
  exact decode_of_agree (decode_base move width) hseparate hagree

theorem extract_base : InstructionField.hw.extract (move.base width) = 0 ∧
    InstructionField.imm16.extract (move.base width) = 0 ∧
    InstructionField.rd.extract (move.base width) = 0 := by
  cases move <;> cases width <;> decide +kernel

theorem hw_word : InstructionField.hw.extract (move.word width d imm position) =
    BitVec.ofNat 2 position := by
  rw [word, InstructionField.extract_or_place_of_apart (by decide),
    InstructionField.extract_or_place_of_apart (by decide),
    InstructionField.extract_or_place (extract_base move width).1]

theorem imm16_word : InstructionField.imm16.extract (move.word width d imm position) = imm := by
  rw [word, InstructionField.extract_or_place_of_apart (by decide),
    InstructionField.extract_or_place]
  rw [InstructionField.extract_or_place_of_apart (by decide)]
  exact (extract_base move width).2.1

theorem rd_word : InstructionField.rd.extract (move.word width d imm position) =
    BitVec.ofNat 5 d := by
  rw [word, InstructionField.extract_or_place]
  rw [InstructionField.extract_or_place_of_apart (by decide),
    InstructionField.extract_or_place_of_apart (by decide)]
  exact (extract_base move width).2.2

theorem word_encodes (hd : d < 31) (hposition : position < width.bits / 16) :
    move.Encodes width d imm position (move.word width d imm position) where
  decodes := ⟨_, decode_word move width d imm hposition, rfl⟩
  rd_eq := by
    rw [Operand.rd, rd_word]
    exact Nat.mod_eq_of_lt (by omega)
  imm16_eq := imm16_word move width d imm
  hw_eq := by
    have hfour : width.bits / 16 ≤ 4 := by cases width <;> decide
    rw [hw_word]
    exact Nat.mod_eq_of_lt (by omega)

end Word

/-! ### The bits that a move leaves -/

section Bits

variable {w : Nat} (old : BitVec w) (imm : BitVec 16) {position i : Nat} (hi : i < w)

include hi

theorem getLsbD_placed : (imm.setWidth w <<< (16 * position)).getLsbD i =
    (decide (i / 16 = position) && imm.getLsbD (i % 16)) := by
  rw [BitVec.getLsbD_shiftLeft, BitVec.getLsbD_setWidth, decide_eq_true hi]
  by_cases hin : i / 16 = position
  · have hfrom : ¬i < 16 * position := by omega
    have hplace : i - 16 * position = i % 16 := by omega
    have hless : i % 16 < w := Nat.lt_of_le_of_lt (Nat.mod_le i 16) hi
    simp [hin, hfrom, hplace, hless]
  · by_cases hbelow : i < 16 * position
    · simp [hin, hbelow]
    · have hbeyond : 16 ≤ i - 16 * position := by omega
      simp [hin, BitVec.getLsbD_of_ge imm _ hbeyond]

/-- The first move, inverted or not, puts the halfword into its position. -/
theorem getLsbD_first (inverted : Bool) (hin : i / 16 = position) :
    (if inverted then HalfwordMove.inverted.result old (~~~imm) position
      else HalfwordMove.zeroed.result old imm position).getLsbD i = imm.getLsbD (i % 16) := by
  have hplace : i % 16 < 16 := Nat.mod_lt i (by decide)
  cases inverted with
  | false =>
    simp only [Bool.false_eq_true, if_false, result, getLsbD_placed imm hi, hin, decide_true,
      Bool.true_and]
  | true =>
    simp only [if_true, result, BitVec.getLsbD_not, getLsbD_placed (~~~imm) hi, hin, hi, hplace,
      decide_true, Bool.true_and, Bool.not_not]

/-- Every later move puts its halfword into its position and keeps the other bits. -/
theorem getLsbD_kept : (HalfwordMove.kept.result old imm position).getLsbD i =
    if i / 16 = position then imm.getLsbD (i % 16) else old.getLsbD i := by
  have hones : 0xFFFF#w = (BitVec.allOnes 16).setWidth w := by
    apply BitVec.eq_of_toNat_eq
    rw [BitVec.toNat_setWidth, BitVec.toNat_allOnes, BitVec.toNat_ofNat]
  have hplace : i % 16 < 16 := Nat.mod_lt i (by decide)
  rw [result, hones, BitVec.getLsbD_or, BitVec.getLsbD_and, BitVec.getLsbD_not,
    getLsbD_placed _ hi, getLsbD_placed _ hi, BitVec.getLsbD_allOnes, decide_eq_true hplace]
  by_cases hin : i / 16 = position <;> simp [hin, hi]

end Bits

end HalfwordMove

/-! ### The code that builds a constant -/

def halfword (v : Doubleword) (position : Nat) : BitVec 16 :=
  v.extractLsb' (16 * position) 16

/-- The first move of a constant: it clears the rest of the register, or it sets the rest and inverts
the complement of the halfword. -/
def FirstMove (width : OperandWidth) (inverted : Bool) (v : Doubleword) (d position : Nat)
    (word : Word) : Prop :=
  if inverted then HalfwordMove.inverted.Encodes width d (~~~halfword v position) position word
  else HalfwordMove.zeroed.Encodes width d (halfword v position) position word

/-- A later move of a constant. -/
def LaterMove (width : OperandWidth) (v : Doubleword) (d position : Nat) (word : Word) : Prop :=
  HalfwordMove.kept.Encodes width d (halfword v position) position word

/-- The code that builds a constant in register `d`, with its halfwords in some order. -/
inductive ConstantCode (width : OperandWidth) (inverted : Bool) (v : Doubleword) (d : Nat) :
    List Nat → List Word → Prop
  | intro {first : Nat} {rest : List Nat} {word : Word} {words : List Word}
      (hfirst : FirstMove width inverted v d first word)
      (hlater : List.Forall₂ (LaterMove width v d) rest words) :
      ConstantCode width inverted v d (first :: rest) (word :: words)

/-- Whether a value has the halfwords of a constant at some positions. -/
def Built {w : Nat} (v : Doubleword) (positions : List Nat) (value : BitVec w) : Prop :=
  ∀ i < w, i / 16 ∈ positions → value.getLsbD i = v.getLsbD i

theorem getLsbD_halfword (v : Doubleword) (i : Nat) :
    (halfword v (i / 16)).getLsbD (i % 16) = v.getLsbD i := by
  have hplace : i % 16 < 16 := Nat.mod_lt i (by decide)
  rw [halfword, BitVec.getLsbD_extractLsb', decide_eq_true hplace, Bool.true_and,
    Nat.div_add_mod]

namespace Built

variable {w : Nat} {v : Doubleword} {positions : List Nat} {value : BitVec w}

theorem first (inverted : Bool) (position : Nat) (old : BitVec w) :
    Built v [position] (if inverted
      then HalfwordMove.inverted.result old (~~~halfword v position) position
      else HalfwordMove.zeroed.result old (halfword v position) position) := by
  intro i hi hmem
  have hin : i / 16 = position := List.mem_singleton.1 hmem
  rw [HalfwordMove.getLsbD_first old _ hi inverted hin, ← hin, getLsbD_halfword]

/-- A later move adds its position. -/
theorem later (hbuilt : Built v positions value) (position : Nat) :
    Built v (positions ++ [position])
      (HalfwordMove.kept.result value (halfword v position) position) := by
  intro i hi hmem
  rw [HalfwordMove.getLsbD_kept value _ hi]
  by_cases hin : i / 16 = position
  · rw [if_pos hin, ← hin, getLsbD_halfword]
  · rw [if_neg hin]
    have hearlier := (List.mem_append.1 hmem).resolve_right (mt List.mem_singleton.1 hin)
    exact hbuilt i hi hearlier

/-- With all positions the value is the constant. -/
theorem eq_setWidth (hbuilt : Built v positions value)
    (hall : ∀ i < w, i / 16 ∈ positions) : value = v.setWidth w := by
  apply BitVec.eq_of_getLsbD_eq
  intro i hi
  rw [hbuilt i hi (hall i hi), BitVec.getLsbD_setWidth, decide_eq_true hi, Bool.true_and]

end Built

section Code

variable {width : OperandWidth} {v : Doubleword} {d : Nat} {position : Nat} {word : Word}
  (hposition : position < width.bits / 16)

include hposition

theorem exists_firstMove (inverted : Bool) (hd : d < 31) :
    ∃ word, FirstMove width inverted v d position word := by
  cases inverted with
  | true => exact ⟨_, HalfwordMove.word_encodes .inverted width d _ hd hposition⟩
  | false => exact ⟨_, HalfwordMove.word_encodes .zeroed width d _ hd hposition⟩

/-- The first move leaves its halfword in the register. -/
theorem FirstMove.advances {inverted : Bool} (hfirst : FirstMove width inverted v d position word)
    (regs : RegisterFile) :
    ∃ (value : BitVec width.bits) (instruction : Instruction) (made : Plan),
      Built v [position] value ∧ Advances word regs
        ((regs.setGpr d (value.setWidth 64)).setPc (regs.pc + 4)) instruction made := by
  have hbuilt := Built.first (v := v) inverted position (regs.read width.bits d)
  cases inverted with
  | true =>
    obtain ⟨instruction, made, hadvances⟩ := HalfwordMove.Encodes.advances hfirst hposition regs
    exact ⟨_, instruction, made, hbuilt, hadvances⟩
  | false =>
    obtain ⟨instruction, made, hadvances⟩ := HalfwordMove.Encodes.advances hfirst hposition regs
    exact ⟨_, instruction, made, hbuilt, hadvances⟩

variable (hd : d < 31)

include hd

/-- A later move in a register that has some halfwords adds its own. -/
theorem LaterMove.advances (hlater : LaterMove width v d position word) {positions : List Nat}
    {value : BitVec width.bits} (hbuilt : Built v positions value) (regs : RegisterFile)
    (pc : Doubleword) :
    ∃ (next : BitVec width.bits) (instruction : Instruction) (made : Plan),
      Built v (positions ++ [position]) next ∧
        Advances word ((regs.setGpr d (value.setWidth 64)).setPc pc)
          ((regs.setGpr d (next.setWidth 64)).setPc (pc + 4)) instruction made := by
  obtain ⟨instruction, made, hadvances⟩ := HalfwordMove.Encodes.advances hlater hposition
    ((regs.setGpr d (value.setWidth 64)).setPc pc)
  rw [RegisterFile.read_written regs pc hd, RegisterFile.setGpr_written] at hadvances
  exact ⟨_, instruction, made, hbuilt.later position, hadvances⟩

end Code

section Run

variable {width : OperandWidth} {v : Doubleword} {d : Nat} (hd : d < 31)

include hd

/-- The later moves of a constant add the halfwords that the first one left out. -/
theorem advancesAll_laterMoves {rest : List Nat} {words : List Word}
    (hlater : List.Forall₂ (LaterMove width v d) rest words)
    (hrest : ∀ position ∈ rest, position < width.bits / 16) {positions : List Nat}
    {value : BitVec width.bits} (hbuilt : Built v positions value) (regs : RegisterFile)
    (pc : Doubleword) :
    ∃ final : BitVec width.bits, Built v (positions ++ rest) final ∧
      AdvancesAll words ((regs.setGpr d (value.setWidth 64)).setPc pc)
        ((regs.setGpr d (final.setWidth 64)).setPc (pc + BitVec.ofNat 64 (4 * rest.length))) := by
  induction hlater generalizing positions value pc with
  | nil =>
    refine ⟨value, (List.append_nil positions).symm ▸ hbuilt, ?_⟩
    have hstays : pc + BitVec.ofNat 64 (4 * 0) = pc := BitVec.add_zero pc
    rw [List.length_nil, hstays]
    exact .nil _
  | @cons position word rest words hmove _ ih =>
    obtain ⟨next, instruction, made, hnext, hadvances⟩ :=
      hmove.advances (hrest position List.mem_cons_self) hd hbuilt regs pc
    obtain ⟨final, hfinal, hall⟩ :=
      ih (fun later hlater => hrest later (List.mem_cons_of_mem position hlater)) hnext (pc + 4)
    rw [List.append_assoc, List.singleton_append] at hfinal
    have hends : pc + BitVec.ofNat 64 (4 * (position :: rest).length) =
        pc + 4 + BitVec.ofNat 64 (4 * rest.length) := by
      rw [List.length_cons, Nat.mul_add, Nat.add_comm, BitVec.ofNat_add, BitVec.add_assoc]
      rfl
    rw [hends]
    exact ⟨final, hfinal, .cons hadvances hall⟩

theorem exists_laterMoves {rest : List Nat}
    (hrest : ∀ position ∈ rest, position < width.bits / 16) :
    List.Forall₂ (LaterMove width v d) rest (rest.map fun position =>
      HalfwordMove.kept.word width d (halfword v position) position) := by
  rw [List.forall₂_map_right_iff, List.forall₂_same]
  intro position hmem
  exact HalfwordMove.word_encodes .kept width d _ hd (hrest position hmem)

end Run

/-- Moves of halfwords build every constant.  There is code that clears or sets a register with the
halfword of the first position and then puts in the halfwords of the others, in any order; all such
code runs without a fault and leaves the constant at the width, and no other register and no flag
changes. -/
theorem constantCode_builds (width : OperandWidth) (inverted : Bool) (v : Doubleword) {d : Nat}
    (hd : d < 31) {order : List Nat} (horder : order.Perm (List.range (width.bits / 16))) :
    (∃ code, ConstantCode width inverted v d order code) ∧
    ∀ code, ConstantCode width inverted v d order code →
      ∀ (regs : RegisterFile) (memory after : UnitMemory), memory.Fetches regs.pc code after →
        ∃ records, Machine.run (fun _ => false) (width.bits / 16) ⟨regs, memory⟩ =
          .ok (.limit, records, ⟨(regs.setGpr d (width.truncate v)).setPc
            (regs.pc + BitVec.ofNat 64 (width.bits / 4)), after⟩) := by
  have hbound : ∀ position ∈ order, position < width.bits / 16 :=
    fun position hmem => List.mem_range.1 (horder.mem_iff.1 hmem)
  have hlength : order.length = width.bits / 16 := by
    rw [horder.length_eq, List.length_range]
  have hwhole : 16 * (width.bits / 16) = width.bits := by cases width <;> rfl
  constructor
  · match order with
    | [] => cases width <;> contradiction
    | first :: rest =>
      obtain ⟨word, hfirst⟩ := exists_firstMove (v := v) (hbound first List.mem_cons_self) inverted hd
      exact ⟨_, .intro hfirst (exists_laterMoves hd fun position hmem =>
        hbound position (List.mem_cons_of_mem first hmem))⟩
  · intro code hcode regs memory after hfetches
    obtain @⟨first, rest, word, words, hfirst, hlater⟩ := hcode
    obtain ⟨value, instruction, made, hbuilt, hadvances⟩ :=
      hfirst.advances (hbound first List.mem_cons_self) regs
    obtain ⟨final, hfinal, hall⟩ := advancesAll_laterMoves hd hlater
      (fun position hmem => hbound position (List.mem_cons_of_mem first hmem)) hbuilt regs
      (regs.pc + 4)
    have hconstant : final = v.setWidth width.bits := by
      refine hfinal.eq_setWidth fun i hi => ?_
      have hposition : i / 16 < width.bits / 16 := by omega
      exact horder.mem_iff.2 (List.mem_range.2 hposition)
    rw [List.length_cons] at hlength
    have hcount : width.bits / 4 = 4 + 4 * rest.length := by omega
    have hpc : regs.pc + 4 + BitVec.ofNat 64 (4 * rest.length) =
        regs.pc + BitVec.ofNat 64 (width.bits / 4) := by
      rw [hcount, BitVec.ofNat_add, BitVec.add_assoc]
      rfl
    rw [hconstant, hpc] at hall
    obtain ⟨records, hrun⟩ := Machine.run_of_advancesAll (.cons hadvances hall) hfetches
    rw [List.length_cons, ← hlater.length_eq, hlength] at hrun
    exact ⟨records, hrun⟩

/-- MOVN W5, #0xEDCB, LSL #16 and MOVK W5, #0x5678 leave 0x12345678 in X5, whatever its high half
held. -/
theorem constantCode_builds_inverted :
    ∃ (regs : RegisterFile) (memory after : UnitMemory), regs.gpr 5 = 0xFFFFFFFFFFFFFFFF ∧
      (5 < 31 ∧ List.Perm [1, 0] (List.range (OperandWidth.w32.bits / 16)) ∧
        ConstantCode .w32 true 0x9ABCDEF012345678 5 [1, 0] [0x12BDB965, 0x728ACF05] ∧
        memory.Fetches regs.pc [0x12BDB965, 0x728ACF05] after) ∧
      ∃ records, Machine.run (fun _ => false) 2 ⟨regs, memory⟩ =
        .ok (.limit, records, ⟨(regs.setGpr 5 0x12345678).setPc 8, after⟩) := by
  let regs : RegisterFile := RegisterFile.setGpr {} 5 0xFFFFFFFFFFFFFFFF
  let memory : UnitMemory :=
    { hierarchy := .ram { name := "RAM", words := #[0x12BDB965, 0x728ACF05] }
      stack := .zeroed "STACK" 4 }
  have hinvert : decode 0x12BDB965 =
      .ok ⟨0x12BDB965, .dataProcessingImmediate, .moveWideImmediate, .movnW⟩ := rfl
  have hkeep : decode 0x728ACF05 =
      .ok ⟨0x728ACF05, .dataProcessingImmediate, .moveWideImmediate, .movkW⟩ := rfl
  have hcode : ConstantCode .w32 true 0x9ABCDEF012345678 5 [1, 0] [0x12BDB965, 0x728ACF05] :=
    .intro ⟨⟨_, hinvert, rfl⟩, by decide, by decide, by decide⟩
      (.cons ⟨⟨_, hkeep, rfl⟩, by decide, by decide, by decide⟩ .nil)
  have hholds : memory.words.Holds regs.pc [0x12BDB965, 0x728ACF05] := by decide +kernel
  obtain ⟨after, hfetches⟩ := memory.exists_fetches trivial trivial hholds
  have hd : 5 < 31 := by decide
  have horder : List.Perm [1, 0] (List.range (OperandWidth.w32.bits / 16)) := by decide
  obtain ⟨-, hbuilds⟩ := constantCode_builds .w32 true 0x9ABCDEF012345678 hd horder
  obtain ⟨records, hrun⟩ := hbuilds _ hcode regs memory after hfetches
  have hfile : (regs.setGpr 5 (OperandWidth.w32.truncate 0x9ABCDEF012345678)).setPc
      (regs.pc + BitVec.ofNat 64 (OperandWidth.w32.bits / 4)) =
        (regs.setGpr 5 0x12345678).setPc 8 := by decide +kernel
  rw [hfile] at hrun
  exact ⟨regs, memory, after, by decide +kernel, ⟨hd, horder, hcode, hfetches⟩, records, hrun⟩

end A64Machine
