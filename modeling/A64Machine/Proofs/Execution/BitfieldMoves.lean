import A64Machine.Proofs.Execution.Retirement

/-!
Bitfield moves.  With a rotation `r` and a last bit `s` below the width, the masks of a bitfield move
select one run of bits, and its results are what is expected of taking the run out of the source: the
run alone, the run with its sign, or the run put into the old destination.
-/

namespace A64Machine

/-- A run of bits that is moved: `count` bits from bit `source` on, to bit `target` on. -/
structure BitRun where
  source : Nat
  count : Nat
  target : Nat
  deriving Repr, DecidableEq

/-- The run that a bitfield move of width `w` moves: bits `r` to `s` to the bottom, or the low bits up
to `s` to bit `w - r` on when `s` is below `r`. -/
def BitRun.ofFields (w r s : Nat) : BitRun :=
  if r ≤ s then ⟨r, s - r + 1, 0⟩ else ⟨0, s + 1, w - r⟩

namespace BitRun

variable {w : Nat}

def take (run : BitRun) (x : BitVec w) : BitVec run.count :=
  x.extractLsb' run.source run.count

/-- The run at its target, with zeros around it. -/
def zeroed (run : BitRun) (x : BitVec w) : BitVec w :=
  (run.take x).setWidth w <<< run.target

/-- The run at its target, with its highest bit copied above it and zeros below. -/
def signed (run : BitRun) (x : BitVec w) : BitVec w :=
  (run.take x).signExtend w <<< run.target

/-- The run at its target in `y`, whose other bits stay. -/
def inserted (run : BitRun) (x y : BitVec w) : BitVec w :=
  y &&& ~~~(lowOnes w run.count <<< run.target) ||| run.zeroed x

/-- What a bitfield move makes of the source `x` and the old destination `y`: UBFM the run alone, SBFM
the run with its sign, BFM the old destination with the run in it. -/
def result (run : BitRun) (mnemonic : Mnemonic) (x y : BitVec w) : BitVec w :=
  match mnemonic with
  | .ubfmW | .ubfmX => run.zeroed x
  | .sbfmW | .sbfmX => run.signed x
  | _ => run.inserted x y

/-! ### The bits of the results, below the target and from the target on -/

section Bits

variable {run : BitRun} {x y : BitVec w}

theorem getLsbD_zeroed_below {i : Nat} (hi : i < run.target) :
    (run.zeroed x).getLsbD i = false := by
  simp only [zeroed, BitVec.getLsbD_shiftLeft, hi, decide_true, Bool.not_true, Bool.and_false,
    Bool.false_and]

theorem getLsbD_signed_below {i : Nat} (hi : i < run.target) :
    (run.signed x).getLsbD i = false := by
  simp only [signed, BitVec.getLsbD_shiftLeft, hi, decide_true, Bool.not_true, Bool.and_false,
    Bool.false_and]

theorem getLsbD_inserted_below {i : Nat} (hi : i < run.target) (hw : i < w) :
    (run.inserted x y).getLsbD i = y.getLsbD i := by
  simp only [inserted, BitVec.getLsbD_or, BitVec.getLsbD_and, BitVec.getLsbD_not,
    BitVec.getLsbD_shiftLeft, getLsbD_zeroed_below hi, hi, hw]
  simp

variable {j : Nat} (hj : run.target + j < w)

include hj

theorem getLsbD_zeroed : (run.zeroed x).getLsbD (run.target + j) =
    (decide (j < run.count) && x.getLsbD (run.source + j)) := by
  have hlow : j < w := Nat.lt_of_le_of_lt (Nat.le_add_left j _) hj
  simp only [zeroed, take, BitVec.getLsbD_shiftLeft, BitVec.getLsbD_setWidth,
    BitVec.getLsbD_extractLsb', Nat.add_sub_cancel_left, hj, hlow]
  simp

theorem getLsbD_signed : (run.signed x).getLsbD (run.target + j) =
    if j < run.count then x.getLsbD (run.source + j) else (run.take x).msb := by
  have hlow : j < w := Nat.lt_of_le_of_lt (Nat.le_add_left j _) hj
  simp only [signed, BitVec.getLsbD_shiftLeft, BitVec.getLsbD_signExtend, Nat.add_sub_cancel_left,
    hj, hlow]
  by_cases hcount : j < run.count <;> simp [take, hcount]

theorem getLsbD_inserted : (run.inserted x y).getLsbD (run.target + j) =
    if j < run.count then x.getLsbD (run.source + j) else y.getLsbD (run.target + j) := by
  have hlow : j < w := Nat.lt_of_le_of_lt (Nat.le_add_left j _) hj
  simp only [inserted, BitVec.getLsbD_or, BitVec.getLsbD_and, BitVec.getLsbD_not,
    BitVec.getLsbD_shiftLeft, getLsbD_lowOnes, getLsbD_zeroed hj, Nat.add_sub_cancel_left, hj, hlow,
    Nat.not_lt.2 (Nat.le_add_right run.target j)]
  by_cases hcount : j < run.count <;> simp [hcount]

end Bits

/-! ### What the masks select -/

/-- The masks of a bitfield move select a run of the rotated source: the first mask is clear below the
target and set on it, the second ends where the target ends. -/
structure Selected (run : BitRun) (x moved wmask tmask : BitVec w) : Prop where
  below : ∀ i < run.target, wmask.getLsbD i = false ∧ tmask.getLsbD i = true
  within : ∀ j < run.count, wmask.getLsbD (run.target + j) = true ∧
    tmask.getLsbD (run.target + j) = true ∧
    moved.getLsbD (run.target + j) = x.getLsbD (run.source + j)
  above : ∀ j, run.count ≤ j → tmask.getLsbD (run.target + j) = false

section Results

variable {run : BitRun} {x y moved wmask tmask : BitVec w}
  (hselected : run.Selected x moved wmask tmask)

include hselected

theorem Selected.zeroed_eq : moved &&& wmask &&& tmask = run.zeroed x := by
  apply BitVec.eq_of_getLsbD_eq
  intro i hi
  simp only [BitVec.getLsbD_and]
  rcases Nat.lt_or_ge i run.target with hbelow | hfrom
  · rw [(hselected.below i hbelow).1, getLsbD_zeroed_below hbelow]
    simp
  · obtain ⟨j, rfl⟩ := Nat.exists_eq_add_of_le hfrom
    rw [getLsbD_zeroed hi]
    rcases Nat.lt_or_ge j run.count with hwithin | habove
    · obtain ⟨hw, ht, hmoved⟩ := hselected.within j hwithin
      simp [hw, ht, hmoved, hwithin]
    · simp [hselected.above j habove, Nat.not_lt.2 habove]

theorem Selected.signed_eq {top : BitVec w}
    (htop : top = if (run.take x).msb then BitVec.allOnes w else 0) :
    top &&& ~~~tmask ||| moved &&& wmask &&& tmask = run.signed x := by
  rw [hselected.zeroed_eq]
  apply BitVec.eq_of_getLsbD_eq
  intro i hi
  have hsign : top.getLsbD i = (run.take x).msb := by
    rw [htop]
    cases (run.take x).msb <;> simp [hi]
  simp only [BitVec.getLsbD_or, BitVec.getLsbD_and, BitVec.getLsbD_not, hsign, hi, decide_true,
    Bool.true_and]
  rcases Nat.lt_or_ge i run.target with hbelow | hfrom
  · rw [(hselected.below i hbelow).2, getLsbD_zeroed_below hbelow, getLsbD_signed_below hbelow]
    simp
  · obtain ⟨j, rfl⟩ := Nat.exists_eq_add_of_le hfrom
    rw [getLsbD_zeroed hi, getLsbD_signed hi]
    rcases Nat.lt_or_ge j run.count with hwithin | habove
    · rw [(hselected.within j hwithin).2.1]
      simp [hwithin]
    · rw [hselected.above j habove]
      simp [Nat.not_lt.2 habove]

theorem Selected.inserted_eq :
    y &&& ~~~tmask ||| (y &&& ~~~wmask ||| moved &&& wmask) &&& tmask = run.inserted x y := by
  apply BitVec.eq_of_getLsbD_eq
  intro i hi
  simp only [BitVec.getLsbD_or, BitVec.getLsbD_and, BitVec.getLsbD_not, hi, decide_true,
    Bool.true_and]
  rcases Nat.lt_or_ge i run.target with hbelow | hfrom
  · obtain ⟨hw, ht⟩ := hselected.below i hbelow
    rw [getLsbD_inserted_below hbelow hi, hw, ht]
    simp
  · obtain ⟨j, rfl⟩ := Nat.exists_eq_add_of_le hfrom
    rw [getLsbD_inserted hi]
    rcases Nat.lt_or_ge j run.count with hwithin | habove
    · obtain ⟨hw, ht, hmoved⟩ := hselected.within j hwithin
      rw [hw, ht, hmoved]
      simp [hwithin]
    · rw [hselected.above j habove]
      simp [Nat.not_lt.2 habove]

end Results

/-- The highest bit of the run is bit `s` of the source. -/
theorem msb_take_ofFields (x : BitVec w) (r s : Nat) :
    ((ofFields w r s).take x).msb = x.getLsbD s := by
  rw [BitVec.msb_eq_getLsbD_last, take, BitVec.getLsbD_extractLsb']
  unfold ofFields
  split
  next hle => simp [hle]
  next => simp

section Masks

variable {r s : Nat} (hr : r < w) (hs : s < w) (x : BitVec w)

include hr

theorem getLsbD_rotateRight_low {i : Nat} (hi : i < w - r) :
    (x.rotateRight r).getLsbD i = x.getLsbD (r + i) := by
  rw [BitVec.getLsbD_rotateRight, Nat.mod_eq_of_lt hr]
  simp [hi]

theorem getLsbD_rotateRight_high {j : Nat} (hj : j < r) :
    (x.rotateRight r).getLsbD (w - r + j) = x.getLsbD j := by
  have hw : w - r + j < w := by omega
  have hhigh : ¬ w - r + j < w - r := Nat.not_lt.2 (Nat.le_add_right _ _)
  rw [BitVec.getLsbD_rotateRight, Nat.mod_eq_of_lt hr]
  simp [hw, hhigh]

include hs

/-- The masks of a bitfield move select its run. -/
theorem selected_ofFields :
    (ofFields w r s).Selected x (x.rotateRight r) ((lowOnes w (s + 1)).rotateRight r)
      (lowOnes w ((s + w - r) % w + 1)) := by
  unfold ofFields
  split
  -- the rotation takes the run down to the bottom, and the second mask cuts off what wraps around
  next hle =>
    have hend : (s + w - r) % w = s - r := by
      rw [Nat.sub_add_comm hle, Nat.add_mod_right, Nat.mod_eq_of_lt (by omega)]
    rw [hend]
    refine ⟨?_, ?_, ?_⟩
    · intro i hi
      exact absurd hi (Nat.not_lt_zero i)
    · intro j (hj : j < s - r + 1)
      have hlow : j < w - r := by omega
      rw [Nat.zero_add, getLsbD_rotateRight_low hr _ hlow, getLsbD_rotateRight_low hr _ hlow,
        getLsbD_lowOnes, getLsbD_lowOnes]
      exact ⟨decide_eq_true (by omega), decide_eq_true (by omega), rfl⟩
    · intro j (hj : s - r + 1 ≤ j)
      rw [Nat.zero_add, getLsbD_lowOnes]
      exact decide_eq_false (by omega)
  -- the rotation takes the low bits around to the top, and the first mask clears what is below them
  next hlt =>
    have hend : (s + w - r) % w = s + w - r := Nat.mod_eq_of_lt (by omega)
    rw [hend]
    refine ⟨?_, ?_, ?_⟩
    · intro i (hi : i < w - r)
      rw [getLsbD_rotateRight_low hr _ hi, getLsbD_lowOnes, getLsbD_lowOnes]
      exact ⟨decide_eq_false (by omega), decide_eq_true (by omega)⟩
    · intro j (hj : j < s + 1)
      dsimp only
      have hhigh : j < r := by omega
      rw [getLsbD_rotateRight_high hr _ hhigh, getLsbD_rotateRight_high hr _ hhigh,
        getLsbD_lowOnes, getLsbD_lowOnes, Nat.zero_add]
      exact ⟨decide_eq_true (by omega), decide_eq_true (by omega), rfl⟩
    · intro j (hj : s + 1 ≤ j)
      dsimp only
      rw [getLsbD_lowOnes]
      exact decide_eq_false (by omega)

end Masks

end BitRun

/-- The element of the masks of a bitfield move is the whole operand. -/
theorem maskElement_bitfield : ∀ wide : Bool, ∀ imms < if wide then 64 else 32,
    maskElement wide imms = if wide then 64 else 32 := by
  decide +kernel

/-- The masks of a bitfield move: `imms + 1` ones rotated to the target, and ones up to its end. -/
theorem bitMasks?_bitfield {wide : Bool} {w : Nat} (hw : w = if wide then 64 else 32)
    {imms immr : Nat} (himms : imms < w) (himmr : immr < w) :
    bitMasks? w wide imms immr false = some ((lowOnes w (imms + 1)).rotateRight immr,
      lowOnes w ((imms + w - immr) % w + 1)) := by
  have helement : maskElement wide imms = w := by
    rw [hw] at himms ⊢
    exact maskElement_bitfield wide imms himms
  have hvalid := not_maskReserved_bitfield wide imms (hw ▸ himms)
  rw [← hw, MaskReserved, helement] at hvalid
  obtain ⟨hsize, -⟩ := not_or.1 hvalid
  have hpositive : 0 < w := Nat.lt_of_le_of_lt (Nat.zero_le _) himms
  have honce (value : BitVec w) : (value.replicate 1).setWidth w = value := by
    rw [BitVec.replicate_one, BitVec.setWidth_cast, BitVec.setWidth_eq]
  rw [maskElement] at helement
  -- the size of the element occurs in types, so it is rewritten everywhere at once
  unfold bitMasks?
  dsimp only
  rw [helement, if_neg hsize, if_neg (fun hboth => Bool.noConfusion hboth.1), Nat.mod_eq_of_lt himms,
    Nat.mod_eq_of_lt himmr, Nat.div_self hpositive, honce, honce]

section Plan

variable {word : Word} {regs : RegisterFile}
  (hn : (InstructionField.n.extract word == 1) = word.getLsbD 31)
  (hr : (InstructionField.immr.extract word).toNat < (Operand.width word).bits)
  (hs : (InstructionField.imms.extract word).toNat < (Operand.width word).bits)

include hn hr hs

theorem immediateMasks_bitfield :
    immediateMasks word (Operand.width word).bits false =
      .ok ((lowOnes (Operand.width word).bits
          ((InstructionField.imms.extract word).toNat + 1)).rotateRight
            (InstructionField.immr.extract word).toNat,
        lowOnes (Operand.width word).bits (((InstructionField.imms.extract word).toNat +
          (Operand.width word).bits - (InstructionField.immr.extract word).toNat) %
            (Operand.width word).bits + 1)) := by
  rw [immediateMasks, hn, bitMasks?_bitfield (bits_width word) hs hr]
  rfl

/-- The plan of a bitfield move. -/
theorem planBitfield_of_fields {mnemonic : Mnemonic}
    (hmoves : mnemonic ∈ InstructionClass.bitfield.operations) :
    let w := (Operand.width word).bits
    let run := BitRun.ofFields w (InstructionField.immr.extract word).toNat
      (InstructionField.imms.extract word).toNat
    let x := regs.read w (Operand.rn word)
    let y := regs.read w (Operand.rd word)
    planBitfield word mnemonic regs =
      .ok (.result regs (Operand.rd word) (run.result mnemonic x y)) := by
  intro w run x y
  have hselected := BitRun.selected_ofFields hr hs x
  have htop := BitRun.msb_take_ofFields x (InstructionField.immr.extract word).toNat
    (InstructionField.imms.extract word).toNat
  have hrange := not_or.2 ⟨Nat.not_le.2 hr, Nat.not_le.2 hs⟩
  simp only [InstructionClass.operations, List.mem_cons, List.not_mem_nil, or_false] at hmoves
  simp only [planBitfield, if_neg hrange, immediateMasks_bitfield hn hr hs, bind, Except.bind]
  rcases hmoves with rfl | rfl | rfl | rfl | rfl | rfl
  case inl | inr.inl =>
    dsimp only
    rw [hselected.signed_eq (by rw [htop])]
    rfl
  case inr.inr.inl | inr.inr.inr.inl =>
    dsimp only
    rw [hselected.zeroed_eq]
    rfl
  all_goals
    dsimp only
    rw [hselected.inserted_eq]
    rfl

end Plan

/-- The bitfield moves are in a class of their own, and their mask is as wide as the operand. -/
theorem class_of_bitfield {word : Word} {instruction : Instruction}
    (hdecode : decode word = .ok instruction)
    (hmoves : instruction.mnemonic ∈ InstructionClass.bitfield.operations) :
    instruction.cls = .bitfield ∧ (InstructionField.n.extract word == 1) = word.getLsbD 31 := by
  have hclass : instruction.cls = .bitfield := class_of_operation (by decide) hdecode hmoves
  have hword := (decode_eq_ok hdecode).1
  rcases instruction with ⟨word', group, cls, mnemonic⟩
  obtain rfl : cls = .bitfield := hclass
  obtain rfl : word' = word := hword
  exact ⟨rfl, bitfield_n_of_decode hdecode⟩

/-- Bitfield moves extract and insert.  With fields `r` and `s` below the width a bitfield move
retires and writes, with zeros above the width, what it makes of the run of bits that the fields
name. -/
theorem step_bitfield {regs : RegisterFile} {memory fetched : UnitMemory} {word : Word}
    {instruction : Instruction} (hfetch : memory.fetch regs.pc = .ok (.ok word, fetched))
    (hdecode : decode word = .ok instruction)
    (hmoves : instruction.mnemonic ∈ InstructionClass.bitfield.operations) :
    let w := (Operand.width word).bits
    let r := (InstructionField.immr.extract word).toNat
    let s := (InstructionField.imms.extract word).toNat
    let x := regs.read w (Operand.rn word)
    let y := regs.read w (Operand.rd word)
    let moved : BitVec w := (BitRun.ofFields w r s).result instruction.mnemonic x y
    r < w → s < w →
      step regs memory =
        .ok (.retired regs.pc word instruction.group instruction.mnemonic,
          (regs.setGpr (Operand.rd word) (moved.setWidth 64)).setPc (regs.pc + 4), fetched) := by
  intro w r s x y moved hr hs
  obtain ⟨hclass, hn⟩ := class_of_bitfield hdecode hmoves
  have hplan : plan instruction regs = .ok (.result regs (Operand.rd word) moved) := by
    rw [plan, hclass, (decode_eq_ok hdecode).1]
    exact planBitfield_of_fields hn hr hs hmoves
  rw [step_of_plan hfetch hdecode hplan rfl, Plan.applyTo_result]

/-- UBFM W0, W1, #8, #15 takes out the second byte; SBFM X0, X1, #60, #3 moves four bits up by four
with their sign; BFM W0, W1, #28, #3 puts them into the old value. -/
theorem step_bitfield_nibbles :
    ∃ regs : RegisterFile, ∃ first second third : UnitMemory,
      regs.gpr 0 = 0x33333333 ∧ regs.gpr 1 = 0xABCDEF ∧
      (∃ fetched, step regs first = .ok (.retired 0 0x53083C20 .dataProcessingImmediate .ubfmW,
        (regs.setGpr 0 0xCD).setPc 4, fetched)) ∧
      (∃ fetched, step regs second = .ok (.retired 0 0x937C0C20 .dataProcessingImmediate .sbfmX,
        (regs.setGpr 0 0xFFFFFFFFFFFFFFF0).setPc 4, fetched)) ∧
      (∃ fetched, step regs third = .ok (.retired 0 0x331C0C20 .dataProcessingImmediate .bfmW,
        (regs.setGpr 0 0x333333F3).setPc 4, fetched)) := by
  let regs : RegisterFile := (RegisterFile.setGpr {} 0 0x33333333).setGpr 1 0xABCDEF
  let holding (word : Word) : UnitMemory :=
    { hierarchy := .ram { name := "RAM", words := #[word] }, stack := .zeroed "STACK" 4 }
  have hends {word : Word} {outcome : StepOutcome} {file expected : RegisterFile}
      {fetched : UnitMemory} (hstep : step regs (holding word) = .ok (outcome, file, fetched))
      (hfile : file = expected) :
      ∃ fetched, step regs (holding word) = .ok (outcome, expected, fetched) :=
    ⟨fetched, hfile ▸ hstep⟩
  have htake : decode 0x53083C20 =
      .ok ⟨0x53083C20, .dataProcessingImmediate, .bitfield, .ubfmW⟩ := rfl
  have hsign : decode 0x937C0C20 =
      .ok ⟨0x937C0C20, .dataProcessingImmediate, .bitfield, .sbfmX⟩ := rfl
  have hinsert : decode 0x331C0C20 =
      .ok ⟨0x331C0C20, .dataProcessingImmediate, .bitfield, .bfmW⟩ := rfl
  obtain ⟨_, htaken⟩ : ∃ fetched, (holding 0x53083C20).fetch regs.pc =
      .ok (.ok 0x53083C20, fetched) := exists_of_answer (by decide +kernel)
  obtain ⟨_, hsigned⟩ : ∃ fetched, (holding 0x937C0C20).fetch regs.pc =
      .ok (.ok 0x937C0C20, fetched) := exists_of_answer (by decide +kernel)
  obtain ⟨_, hinserted⟩ : ∃ fetched, (holding 0x331C0C20).fetch regs.pc =
      .ok (.ok 0x331C0C20, fetched) := exists_of_answer (by decide +kernel)
  have hubfm := step_bitfield htaken htake (by decide) (by decide) (by decide)
  have hsbfm := step_bitfield hsigned hsign (by decide) (by decide) (by decide)
  have hbfm := step_bitfield hinserted hinsert (by decide) (by decide) (by decide)
  exact ⟨regs, holding 0x53083C20, holding 0x937C0C20, holding 0x331C0C20, by decide +kernel,
    by decide +kernel, hends hubfm (by decide +kernel), hends hsbfm (by decide +kernel),
    hends hbfm (by decide +kernel)⟩

end A64Machine
