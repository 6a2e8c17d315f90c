import A64Machine.Proofs.BitString.Rotations
import A64Machine.Proofs.Execution.CheckedMasks
import A64Machine.Proofs.Execution.Destinations
import A64Machine.Proofs.Execution.Retirement

/-!
Logical immediates.  The values that the fields of a logical instruction can encode are those that
repeat one element over the operand width, where the element is a run of ones, neither empty nor
full, turned to the right.
-/

namespace A64Machine

/-- The sizes of an element that a bit mask repeats. -/
def elementSizes : List Nat := [2, 4, 8, 16, 32, 64]

/-- How a bit mask is made: an element of `size` bits with a run of `ones` ones, some bits but not
all, that is turned to the right by `turn`. -/
@[ext] structure MaskPattern where
  size : Nat
  ones : Nat
  turn : Nat
  size_mem : size ∈ elementSizes
  ones_pos : 0 < ones
  ones_lt : ones < size
  deriving Repr, DecidableEq

namespace MaskPattern

/-- Bit `i` of the element: before it is turned, the run is in its lowest bits. -/
def elementBit (pattern : MaskPattern) (i : Nat) : Bool :=
  decide ((i + pattern.turn) % pattern.size < pattern.ones)

/-- Whether a value repeats the element over its width. -/
def Fills {w : Nat} (pattern : MaskPattern) (value : BitVec w) : Prop :=
  ∀ i < w, value.getLsbD i = pattern.elementBit (i % pattern.size)

instance {w : Nat} (pattern : MaskPattern) (value : BitVec w) : Decidable (pattern.Fills value) :=
  inferInstanceAs (Decidable (∀ i < w, _))

theorem size_pos (pattern : MaskPattern) : 0 < pattern.size := by
  have hsizes : ∀ size ∈ elementSizes, 0 < size := by decide
  exact hsizes pattern.size pattern.size_mem

/-- Every place in an element is where some bit is turned to. -/
theorem exists_turned {size : Nat} (turn : Nat) {place : Nat} (hplace : place < size) :
    ∃ i < size, (i + turn) % size = place := by
  have hpos : 0 < size := Nat.lt_of_le_of_lt (Nat.zero_le place) hplace
  have hturn := Nat.mod_lt turn hpos
  refine ⟨(place + (size - turn % size)) % size, Nat.mod_lt _ hpos, ?_⟩
  have hback : place + (size - turn % size) + turn % size = place + size := by omega
  rw [Nat.mod_add_mod, ← Nat.add_mod_mod, hback, Nat.add_mod_right, Nat.mod_eq_of_lt hplace]

section Fills

variable {w : Nat} {pattern : MaskPattern} {value : BitVec w}

/-- A pattern fills one value of a width. -/
theorem Fills.eq {other : BitVec w} (hvalue : pattern.Fills value) (hother : pattern.Fills other) :
    value = other := by
  apply BitVec.eq_of_getLsbD_eq
  intro i hi
  rw [hvalue i hi, hother i hi]

variable (hfills : pattern.Fills value) (hsize : pattern.size ≤ w)

include hfills hsize

/-- The bits of the first element. -/
theorem Fills.getLsbD_eq {i : Nat} (hi : i < pattern.size) :
    value.getLsbD i = decide ((i + pattern.turn) % pattern.size < pattern.ones) := by
  rw [hfills i (Nat.lt_of_lt_of_le hi hsize), elementBit, Nat.mod_eq_of_lt hi]

/-- A mask has a bit that is set. -/
theorem Fills.ne_zero : value ≠ 0 := by
  obtain ⟨i, hi, hplace⟩ := exists_turned pattern.turn pattern.size_pos
  have hset := hfills.getLsbD_eq hsize hi
  rw [hplace, decide_eq_true pattern.ones_pos] at hset
  rintro rfl
  simp at hset

/-- A mask has a bit that is clear. -/
theorem Fills.ne_allOnes : value ≠ BitVec.allOnes w := by
  obtain ⟨i, hi, hplace⟩ := exists_turned pattern.turn pattern.ones_lt
  have hclear := hfills.getLsbD_eq hsize hi
  rw [hplace, decide_eq_false (Nat.lt_irrefl _)] at hclear
  have hin : i < w := Nat.lt_of_lt_of_le hi hsize
  rintro rfl
  simp [hin] at hclear

end Fills

/-! ### From fields to patterns -/

/-- A bit of a value that is rotated to the right. -/
theorem getLsbD_rotateRight_mod {w : Nat} (x : BitVec w) (amount : Nat) {i : Nat} (hi : i < w) :
    (x.rotateRight amount).getLsbD i = x.getLsbD ((i + amount) % w) := by
  have hamount : amount % w < w := Nat.mod_lt _ (Nat.lt_of_le_of_lt (Nat.zero_le i) hi)
  rw [BitVec.getLsbD_rotateRight, ← Nat.add_mod_mod]
  by_cases hlow : i < w - amount % w
  · have hmod : (i + amount % w) % w = amount % w + i := by
      rw [Nat.mod_eq_of_lt (by omega), Nat.add_comm]
    simp [hlow, hmod]
  · have hmod : (i + amount % w) % w = i - (w - amount % w) := by
      rw [Nat.mod_eq_sub_mod (by omega), Nat.mod_eq_of_lt (by omega)]
      omega
    simp [hlow, hi, hmod]

/-- A bit of a run that is turned and repeated. -/
theorem getLsbD_repeated {w size : Nat} (hdvd : size ∣ w) (ones turn : Nat) {i : Nat} (hi : i < w) :
    ((((lowOnes size ones).rotateRight turn).replicate (w / size)).setWidth w).getLsbD i =
      decide ((i % size + turn) % size < ones) := by
  have hpos : 0 < size := Nat.pos_of_dvd_of_pos hdvd (Nat.lt_of_le_of_lt (Nat.zero_le i) hi)
  have hplace : i % size < size := Nat.mod_lt i hpos
  have hturned : (i % size + turn) % size < size := Nat.mod_lt _ hpos
  rw [BitVec.getLsbD_setWidth, BitVec.getLsbD_replicate, Nat.mul_div_cancel' hdvd,
    getLsbD_rotateRight_mod _ turn hplace, getLsbD_lowOnes]
  simp only [hi, hturned, decide_true, true_and, Bool.true_and]

theorem elementSize_dvd {width : OperandWidth} {size : Nat} (hmem : size ∈ elementSizes)
    (hle : size ≤ width.bits) : size ∣ width.bits := by
  have hsizes : ∀ size ∈ elementSizes, (size ≤ 32 → size ∣ 32) ∧ (size ≤ 64 → size ∣ 64) := by
    decide
  cases width with
  | w32 => exact (hsizes size hmem).1 hle
  | w64 => exact (hsizes size hmem).2 hle

theorem maskElement_mod (n : Bool) (imms : Nat) :
    maskElement n (imms % 64) = maskElement n imms := by
  rw [maskElement, maskElement, Nat.mod_mod]

/-- An element that is not reserved has one of the sizes. -/
theorem maskElement_mem {w : Nat} {n immediate : Bool} {imms : Nat}
    (hvalid : ¬ MaskReserved w n imms immediate) : maskElement n imms ∈ elementSizes := by
  have hsizes : ∀ n : Bool, ∀ imms < 64, 2 ≤ maskElement n imms →
      maskElement n imms ∈ elementSizes := by
    decide +kernel
  obtain ⟨hsize, -⟩ := not_or.1 hvalid
  obtain ⟨-, hsize⟩ := not_or.1 hsize
  rw [← maskElement_mod]
  apply hsizes n (imms % 64) (Nat.mod_lt imms (by decide))
  rw [maskElement_mod]
  exact Nat.not_lt.1 (not_or.1 hsize).1

/-- The masks of fields that are not reserved. -/
theorem bitMasks?_of_not_reserved {w : Nat} {n immediate : Bool} {imms : Nat} (immr : Nat)
    (hvalid : ¬ MaskReserved w n imms immediate) :
    let size := maskElement n imms
    let last := imms % size
    let turn := immr % size
    bitMasks? w n imms immr immediate =
      some ((((lowOnes size (last + 1)).rotateRight turn).replicate (w / size)).setWidth w,
        ((lowOnes size ((last + size - turn) % size + 1)).replicate (w / size)).setWidth w) := by
  obtain ⟨hsize, hones⟩ := not_or.1 hvalid
  exact (if_neg hsize).trans (if_neg hones)

section OfFields

variable {w : Nat} {n : Bool} {imms : Nat} (immr : Nat) (hvalid : ¬ MaskReserved w n imms true)

/-- The pattern of fields that are not reserved: `imms + 1` ones in an element whose size `n` and
`imms` select, turned by `immr`, all modulo the size. -/
def ofFields : MaskPattern where
  size := maskElement n imms
  ones := imms % maskElement n imms + 1
  turn := immr % maskElement n imms
  size_mem := maskElement_mem hvalid
  ones_pos := Nat.succ_pos _
  ones_lt := by
    have hnotAll : imms % maskElement n imms ≠ maskElement n imms - 1 :=
      fun hall => hvalid (.inr ⟨rfl, hall⟩)
    have hpos : 0 < maskElement n imms := Checked.elementSize_pos _
    have hbelow := Nat.mod_lt imms hpos
    omega

theorem size_ofFields_le : (ofFields immr hvalid).size ≤ w := by
  obtain ⟨hsize, -⟩ := not_or.1 hvalid
  exact Nat.not_lt.1 (not_or.1 (not_or.1 hsize).2).2

end OfFields

/-- The first mask of fields that are not reserved repeats their pattern. -/
theorem ofFields_fills {width : OperandWidth} {n : Bool} {imms immr : Nat}
    {mask other : BitVec width.bits}
    (hmasks : bitMasks? width.bits n imms immr true = some (mask, other))
    (hvalid : ¬ MaskReserved width.bits n imms true) : (ofFields immr hvalid).Fills mask := by
  have hdvd := elementSize_dvd (maskElement_mem hvalid) (size_ofFields_le immr hvalid)
  rw [bitMasks?_of_not_reserved immr hvalid, Option.some.injEq] at hmasks
  intro i hi
  rw [← (Prod.mk.inj hmasks).1]
  exact getLsbD_repeated hdvd _ _ hi

/-! ### From patterns to fields -/

/-- The field of a pattern that tells its size and its ones. -/
def imms (pattern : MaskPattern) : Nat :=
  64 - 2 * pattern.size + (pattern.ones - 1)

/-- Whether the element of a pattern is so large that the selector needs its highest bit. -/
def n (pattern : MaskPattern) : Bool :=
  pattern.size == 64

/-- The fields of a pattern select it again. -/
theorem maskElement_fields (pattern : MaskPattern) :
    pattern.imms < 64 ∧ maskElement pattern.n pattern.imms = pattern.size ∧
      pattern.imms % pattern.size + 1 = pattern.ones := by
  have hall : ∀ size ∈ elementSizes, ∀ ones < size, 0 < ones →
      64 - 2 * size + (ones - 1) < 64 ∧
        maskElement (size == 64) (64 - 2 * size + (ones - 1)) = size ∧
          (64 - 2 * size + (ones - 1)) % size + 1 = ones := by
    decide +kernel
  exact hall pattern.size pattern.size_mem pattern.ones pattern.ones_lt pattern.ones_pos

theorem not_reserved_fields {w : Nat} {pattern : MaskPattern} (hsize : pattern.size ≤ w) :
    ¬ MaskReserved w pattern.n pattern.imms true := by
  obtain ⟨-, helement, hones⟩ := pattern.maskElement_fields
  have hsizes : ∀ size ∈ elementSizes, 2 ≤ size := by decide
  have hlarge := hsizes pattern.size pattern.size_mem
  have hpart := pattern.ones_lt
  have hselector : 64 * pattern.n.toNat + (63 - pattern.imms % 64) ≠ 0 := by
    intro hzero
    have hone : maskElement pattern.n pattern.imms = 1 := by
      rw [maskElement, hzero]
      rfl
    omega
  rw [MaskReserved, helement]
  omega

/-- The pattern with its turn taken modulo its size. -/
def reduced (pattern : MaskPattern) : MaskPattern :=
  { pattern with turn := pattern.turn % pattern.size }

theorem reduced_elementBit (pattern : MaskPattern) (i : Nat) :
    pattern.reduced.elementBit i = pattern.elementBit i := by
  rw [elementBit, elementBit, reduced, Nat.add_mod_mod]

theorem ofFields_eq_reduced {w : Nat} {pattern : MaskPattern}
    (hvalid : ¬ MaskReserved w pattern.n pattern.imms true) :
    ofFields pattern.turn hvalid = pattern.reduced := by
  obtain ⟨-, helement, hones⟩ := pattern.maskElement_fields
  ext
  case size => exact helement
  case ones => rwa [← helement] at hones
  case turn => exact congrArg (pattern.turn % ·) helement

/-- The low six bits of two fields are all that counts. -/
theorem bitMasks?_mod (w : Nat) (n immediate : Bool) (imms immr : Nat) :
    bitMasks? w n imms immr immediate = bitMasks? w n (imms % 64) (immr % 64) immediate := by
  have hall : ∀ n : Bool, ∀ imms < 64, 1 <<< (64 * n.toNat + (63 - imms)).log2 ∣ 64 := by
    decide +kernel
  have hdvd := hall n (imms % 64) (Nat.mod_lt imms (by decide))
  -- the size of the element occurs in types, so it is rewritten everywhere at once
  unfold bitMasks?
  dsimp only
  rw [Nat.mod_mod]
  simp only [Nat.mod_mod_of_dvd _ hdvd]

/-- Every pattern that fits in an operand is encoded. -/
theorem exists_fields {width : OperandWidth} {pattern : MaskPattern} {value : BitVec width.bits}
    (hsize : pattern.size ≤ width.bits) (hfills : pattern.Fills value) :
    ∃ n, ∃ imms < 64, ∃ immr < 64, ∃ other,
      bitMasks? width.bits n imms immr true = some (value, other) := by
  have hvalid := not_reserved_fields hsize
  have hdefined : bitMasks? width.bits pattern.n pattern.imms pattern.turn true ≠ none :=
    mt bitMasks?_eq_none_iff.1 hvalid
  obtain ⟨⟨mask, other⟩, hmasks⟩ := Option.ne_none_iff_exists'.1 hdefined
  have hmask := ofFields_fills hmasks hvalid
  rw [ofFields_eq_reduced] at hmask
  have hsame : pattern.Fills mask := fun i hi => (hmask i hi).trans (pattern.reduced_elementBit _)
  rw [← hfills.eq hsame, bitMasks?_mod] at hmasks
  exact ⟨_, _, Nat.mod_lt _ (by decide), _, Nat.mod_lt _ (by decide), other, hmasks⟩

/-- A mask is what a bit string of the size of the element gives when its low ones are rotated and
repeated. -/
theorem toDoubleword_replicate {width : OperandWidth} {pattern : MaskPattern}
    {mask : BitVec width.bits} (hsize : pattern.size ≤ width.bits) (hfills : pattern.Fills mask) :
    (((BitString.ofDoubleword pattern.size (lowOnes 64 pattern.ones)).rotateRight
      pattern.turn).replicate (width.bits / pattern.size)).toDoubleword =
        .ok (mask.setWidth 64) := by
  have hwidth := Checked.bits_le_64 width
  have hwhole : width.bits / pattern.size * pattern.size = width.bits :=
    Nat.div_mul_cancel (elementSize_dvd pattern.size_mem hsize)
  have helement := BitString.hasBits_ofDoubleword pattern.size (lowOnes 64 pattern.ones)
  have hturned := BitString.hasBits_rotateRight helement.canonical pattern.turn
  have hrepeated := BitString.hasBits_replicate hturned.canonical (width.bits / pattern.size)
  rw [hturned.width_eq, helement.width_eq, hwhole] at hrepeated
  refine hrepeated.toDoubleword_eq hwidth fun i hi => ?_
  rw [BitVec.getLsbD_setWidth, decide_eq_true hi, Bool.true_and]
  by_cases hin : i < width.bits
  · have hplace : i % pattern.size < pattern.size := Nat.mod_lt i pattern.size_pos
    have hturn := Nat.mod_lt (i % pattern.size + pattern.turn) pattern.size_pos
    have hword : (i % pattern.size + pattern.turn) % pattern.size < 64 := by omega
    rw [hfills i hin, elementBit, hturned.bit_eq, helement.bit_eq, helement.width_eq,
      getLsbD_lowOnes]
    simp only [hin, hplace, hturn, hword, decide_true, Bool.true_and, true_and]
  · rw [decide_eq_false hin, Bool.false_and, BitVec.getLsbD_of_ge mask i (Nat.not_lt.1 hin)]

end MaskPattern

/-! ### The instructions -/

/-- What a logical instruction makes of a register and its mask. -/
def Mnemonic.combine {w : Nat} (mnemonic : Mnemonic) (x mask : BitVec w) : BitVec w :=
  match mnemonic with
  | .orrImmW | .orrImmX => x ||| mask
  | .eorImmW | .eorImmX => x ^^^ mask
  | _ => x &&& mask

/-- The flags of a logical result are those of its sign and of zero. -/
theorem logicalFlags_widened (width : OperandWidth) (value : BitVec width.bits) :
    logicalFlags width (value.setWidth 64) =
      { n := value.msb, z := value == 0, c := false, v := false } := by
  have hlast : width.bits - 1 < 64 := by
    have hwidth := Checked.bits_le_64 width
    have hpos := Checked.bits_pos width
    omega
  rw [logicalFlags, Checked.setWidth_beq_zero (Checked.bits_le_64 width), BitVec.getLsbD_setWidth,
    decide_eq_true hlast, Bool.true_and, BitVec.msb_eq_getLsbD_last]

/-- The plan of a logical instruction with a mask. -/
theorem planLogicalImmediate_of_masks {word : Word} {regs : RegisterFile} {mnemonic : Mnemonic}
    (hlogical : mnemonic ∈ InstructionClass.logicalImmediate.operations)
    {mask other : BitVec (Operand.width word).bits}
    (hmasks : immediateMasks word (Operand.width word).bits true = .ok (mask, other)) :
    let result := mnemonic.combine (regs.read (Operand.width word).bits (Operand.rn word)) mask
    planLogicalImmediate word mnemonic regs = .ok (if mnemonic.setsFlags then
      .result regs (Operand.rd word) result
        (some { n := result.msb, z := result == 0, c := false, v := false })
      else .writing regs [.address (Operand.rd word) (result.setWidth 64)]) := by
  simp only [InstructionClass.operations, List.mem_cons, List.not_mem_nil, or_false] at hlogical
  simp only [planLogicalImmediate, hmasks, bind, Except.bind, logicalFlags_widened]
  rcases hlogical with rfl | rfl | rfl | rfl | rfl | rfl | rfl | rfl <;> rfl

/-- A step of a logical instruction with a mask. -/
theorem step_logicalImmediate {regs : RegisterFile} {memory fetched : UnitMemory} {word : Word}
    {instruction : Instruction} (hfetch : memory.fetch regs.pc = .ok (.ok word, fetched))
    (hdecode : decode word = .ok instruction)
    (hlogical : instruction.mnemonic ∈ InstructionClass.logicalImmediate.operations)
    {mask other : BitVec (Operand.width word).bits}
    (hmasks : bitMasks? (Operand.width word).bits (InstructionField.n.extract word == 1)
      (InstructionField.imms.extract word).toNat (InstructionField.immr.extract word).toNat true =
        some (mask, other)) :
    let rd := Operand.rd word
    let result := instruction.mnemonic.combine
      (regs.read (Operand.width word).bits (Operand.rn word)) mask
    let written := if instruction.mnemonic.setsFlags then
        (regs.setGpr rd (result.setWidth 64)).setNzcv
          { n := result.msb, z := result == 0, c := false, v := false }
      else regs.setGprOrSp rd (result.setWidth 64)
    step regs memory = .ok (.retired regs.pc word instruction.group instruction.mnemonic,
      written.setPc (regs.pc + 4), fetched) := by
  intro rd result written
  have hclass : instruction.cls = .logicalImmediate :=
    class_of_operation (by decide) hdecode hlogical
  have hword := (decode_eq_ok hdecode).1
  rcases instruction with ⟨word', group, cls, mnemonic⟩
  obtain rfl : cls = .logicalImmediate := hclass
  obtain rfl : word' = word := hword
  have hfields : immediateMasks word' (Operand.width word').bits true = .ok (mask, other) := by
    rw [immediateMasks, hmasks]
    rfl
  have hplan : plan ⟨word', group, .logicalImmediate, mnemonic⟩ regs = .ok _ :=
    planLogicalImmediate_of_masks hlogical hfields
  have hselected : InstructionClass.logicalImmediate ∈ InstructionClass.widthSelected := by decide
  have hnone := accesses_of_widthSelected hdecode hselected hplan
  rw [step_of_plan hfetch hdecode hplan hnone]
  simp only [written]
  split <;> rfl

/-- Logical immediates are the repeated turned runs.  A value is the mask of some fields exactly when
a pattern fills it, and then it is neither zero nor all ones.  Two 32-bit fields count by their low
six bits alone; what `n` and `imms` select is repeated, with `imms + 1` ones turned by `immr`, as
rotating and repeating a bit string does; and the logical instructions combine a register with it. -/
theorem logicalImmediates_repeat_runs (width : OperandWidth) :
    (∀ value : BitVec width.bits,
      (∃ (n : Bool) (imms immr : Word) (other : BitVec width.bits),
        bitMasks? width.bits n imms.toNat immr.toNat true = some (value, other)) ↔
          ∃ pattern : MaskPattern, pattern.size ≤ width.bits ∧ pattern.Fills value) ∧
    (∀ (value : BitVec width.bits) (pattern : MaskPattern), pattern.size ≤ width.bits →
      pattern.Fills value → value ≠ 0 ∧ value ≠ BitVec.allOnes width.bits) ∧
    (∀ (n : Bool) (imms immr : Word), bitMasks? width.bits n imms.toNat immr.toNat true =
      bitMasks? width.bits n (imms.toNat % 64) (immr.toNat % 64) true) ∧
    (∀ (n : Bool) (imms immr : Word) (mask other : BitVec width.bits),
      bitMasks? width.bits n imms.toNat immr.toNat true = some (mask, other) →
        ∃ pattern : MaskPattern, pattern.size = maskElement n imms.toNat ∧
          pattern.ones = imms.toNat % pattern.size + 1 ∧
          pattern.turn = immr.toNat % pattern.size ∧
          pattern.size ≤ width.bits ∧ pattern.Fills mask ∧
          (((BitString.ofDoubleword pattern.size (lowOnes 64 pattern.ones)).rotateRight
            pattern.turn).replicate (width.bits / pattern.size)).toDoubleword =
              .ok (mask.setWidth 64)) ∧
    (∀ (regs : RegisterFile) (memory fetched : UnitMemory) (word : Word)
      (instruction : Instruction), memory.fetch regs.pc = .ok (.ok word, fetched) →
      decode word = .ok instruction →
      instruction.mnemonic ∈ InstructionClass.logicalImmediate.operations →
      Operand.width word = width → ∀ mask other : BitVec width.bits,
      bitMasks? width.bits (InstructionField.n.extract word == 1)
        (InstructionField.imms.extract word).toNat (InstructionField.immr.extract word).toNat true =
          some (mask, other) →
      let rd := Operand.rd word
      let result := instruction.mnemonic.combine (regs.read width.bits (Operand.rn word)) mask
      let written := if instruction.mnemonic.setsFlags then
          (regs.setGpr rd (result.setWidth 64)).setNzcv
            { n := result.msb, z := result == 0, c := false, v := false }
        else regs.setGprOrSp rd (result.setWidth 64)
      step regs memory = .ok (.retired regs.pc word instruction.group instruction.mnemonic,
        written.setPc (regs.pc + 4), fetched)) := by
  have hpattern {n : Bool} {imms immr : Nat} {mask other : BitVec width.bits}
      (hmasks : bitMasks? width.bits n imms immr true = some (mask, other)) :
      ¬ MaskReserved width.bits n imms true := by
    intro hreserved
    rw [bitMasks?_eq_none_iff.2 hreserved] at hmasks
    contradiction
  refine ⟨?exactly, ?proper, ?lowBits, ?selected, ?instructions⟩
  case exactly =>
    intro value
    constructor
    · rintro ⟨n, imms, immr, other, hmasks⟩
      exact ⟨_, MaskPattern.size_ofFields_le immr.toNat (hpattern hmasks),
        MaskPattern.ofFields_fills hmasks (hpattern hmasks)⟩
    · rintro ⟨pattern, hsize, hfills⟩
      obtain ⟨n, imms, himms, immr, himmr, other, hmasks⟩ :=
        MaskPattern.exists_fields hsize hfills
      refine ⟨n, BitVec.ofNat 32 imms, BitVec.ofNat 32 immr, other, ?_⟩
      rwa [BitVec.toNat_ofNat, BitVec.toNat_ofNat, Nat.mod_eq_of_lt (by omega),
        Nat.mod_eq_of_lt (by omega)]
  case proper =>
    intro value pattern hsize hfills
    exact ⟨hfills.ne_zero hsize, hfills.ne_allOnes hsize⟩
  case lowBits =>
    intro n imms immr
    exact MaskPattern.bitMasks?_mod width.bits n true imms.toNat immr.toNat
  case selected =>
    intro n imms immr mask other hmasks
    have hsize := MaskPattern.size_ofFields_le immr.toNat (hpattern hmasks)
    have hfills := MaskPattern.ofFields_fills hmasks (hpattern hmasks)
    exact ⟨_, rfl, rfl, rfl, hsize, hfills, MaskPattern.toDoubleword_replicate hsize hfills⟩
  case instructions =>
    rintro regs memory fetched word instruction hfetch hdecode hlogical rfl mask other hmasks
    exact step_logicalImmediate hfetch hdecode hlogical hmasks

/-- Three ones in every byte, turned by one, are the mask 0x8383838383838383; ANDS X2, X1 keeps the
first and the last bit of X1 by it, and sets N. -/
theorem logicalImmediates_repeat_runs_bytes :
    ∃ (pattern : MaskPattern) (regs : RegisterFile) (memory : UnitMemory),
      pattern.size = 8 ∧ pattern.ones = 3 ∧ pattern.turn = 1 ∧
      pattern.Fills 0x8383838383838383#64 ∧
      (0x8383838383838383#64 ≠ 0 ∧ 0x8383838383838383#64 ≠ BitVec.allOnes 64) ∧
      (∃ (n : Bool) (imms immr : Word) (other : Doubleword),
        bitMasks? 64 n imms.toNat immr.toNat true = some (0x8383838383838383, other)) ∧
      regs.gpr 1 = 0x9000000000000001 ∧
      ∃ fetched, step regs memory = .ok (.retired 0 0xF201C822 .dataProcessingImmediate .andsImmX,
        ((regs.setGpr 2 0x8000000000000001).setNzcv { n := true }).setPc 4, fetched) := by
  let pattern : MaskPattern := ⟨8, 3, 1, by decide, by decide, by decide⟩
  let regs : RegisterFile := RegisterFile.setGpr {} 1 0x9000000000000001
  let memory : UnitMemory :=
    { hierarchy := .ram { name := "RAM", words := #[0xF201C822] }, stack := .zeroed "STACK" 4 }
  have hfills : pattern.Fills 0x8383838383838383#64 := by decide +kernel
  have hmasks : bitMasks? 64 (InstructionField.n.extract 0xF201C822 == 1)
      (InstructionField.imms.extract 0xF201C822).toNat
      (InstructionField.immr.extract 0xF201C822).toNat true =
        some (0x8383838383838383, 0x0303030303030303) := by
    decide +kernel
  have hdecode : decode 0xF201C822 =
      .ok ⟨0xF201C822, .dataProcessingImmediate, .logicalImmediate, .andsImmX⟩ := rfl
  obtain ⟨fetched, hfetch⟩ : ∃ fetched, memory.fetch regs.pc = .ok (.ok 0xF201C822, fetched) :=
    exists_of_answer (by decide +kernel)
  obtain ⟨hexactly, hproper, -, -, hinstructions⟩ := logicalImmediates_repeat_runs .w64
  have hstep := hinstructions regs memory fetched 0xF201C822 _ hfetch hdecode (by decide) (by decide)
    _ _ hmasks
  have hends {file expected : RegisterFile} (hfile : file = expected)
      (hfirst : step regs memory =
        .ok (.retired 0 0xF201C822 .dataProcessingImmediate .andsImmX, file, fetched)) :
      step regs memory =
        .ok (.retired 0 0xF201C822 .dataProcessingImmediate .andsImmX, expected, fetched) :=
    hfile ▸ hfirst
  exact ⟨pattern, regs, memory, rfl, rfl, rfl, hfills, hproper _ pattern (by decide) hfills,
    (hexactly _).2 ⟨pattern, by decide, hfills⟩, by decide +kernel, fetched,
    hends (by decide +kernel) hstep⟩

end A64Machine
