import A64Machine.Execution.Run
import A64Machine.Proofs.Execution.CheckedOperands
import A64Machine.Proofs.Execution.Reachable
import A64Machine.Proofs.Execution.Retirement

/-!
Sequences of instructions that make no access.  A machine that fetches the words of such code one
after the other runs through them without a fault, and only its fetches use memory.
-/

namespace A64Machine

/-! ### Registers after a result was written -/

namespace RegisterFile

variable (regs : RegisterFile) {d : Nat} (pc : Doubleword)

theorem read_written (hd : d < 31) {width : OperandWidth} (value : BitVec width.bits) :
    ((regs.setGpr d (value.setWidth 64)).setPc pc).read width.bits d = value := by
  have hgpr : ((regs.setGpr d (value.setWidth 64)).setPc pc).gpr d = value.setWidth 64 := by
    refine (gpr_setGpr regs d d _).trans ?_
    rw [if_pos ⟨rfl, hd⟩]
  rw [read, hgpr, Checked.setWidth_bits]

theorem read_written_of_ne {n : Nat} (hne : d ≠ n) (value : Doubleword) (w : Nat) :
    ((regs.setGpr d value).setPc pc).read w n = regs.read w n := by
  have hgpr : ((regs.setGpr d value).setPc pc).gpr n = regs.gpr n := by
    refine (gpr_setGpr regs d n _).trans ?_
    rw [if_neg fun hsame => hne hsame.1]
  rw [read, hgpr, read]

theorem setGpr_written (old value : Doubleword) :
    ((regs.setGpr d old).setPc pc).setGpr d value = (regs.setGpr d value).setPc pc := by
  ext1
  case x => exact Vector.setIfInBounds_setIfInBounds old
  all_goals rfl

end RegisterFile

/-! ### Code and its run -/

/-- Whether RAM holds the words of some code from an address on. -/
def UnitWords.Holds (words : UnitWords) (pc : Doubleword) : List Word → Prop
  | [] => True
  | word :: rest => words.fetch pc = .ok word ∧ words.Holds (pc + 4) rest

/-- The words of some code are fetched one after the other from an address on, and leave `after`. -/
def UnitMemory.Fetches (memory : UnitMemory) (pc : Doubleword) (code : List Word)
    (after : UnitMemory) : Prop :=
  match code with
  | [] => after = memory
  | word :: rest =>
    ∃ middle, memory.fetch pc = .ok (.ok word, middle) ∧ middle.Fetches (pc + 4) rest after

/-- The instruction in a word makes no access, goes on in sequence and leaves the registers `after`. -/
structure Advances (word : Word) (before after : RegisterFile) (instruction : Instruction)
    (made : Plan) : Prop where
  decodes : decode word = .ok instruction
  plans : plan instruction before = .ok made
  accesses_eq : made.accesses = []
  applies : made.effects.applyTo before = after
  pc_eq : after.pc = before.pc + 4

/-- The instructions in the words of some code make no access and go on in sequence. -/
inductive AdvancesAll : List Word → RegisterFile → RegisterFile → Prop
  | nil (regs : RegisterFile) : AdvancesAll [] regs regs
  | cons {word : Word} {code : List Word} {before middle after : RegisterFile}
      {instruction : Instruction} {made : Plan} (hfirst : Advances word before middle instruction made)
      (hrest : AdvancesAll code middle after) : AdvancesAll (word :: code) before after

/-- An instruction that only writes a result. -/
theorem Advances.of_result {w : Nat} {word : Word} {regs : RegisterFile} {instruction : Instruction}
    {reg : Nat} {value : BitVec w} (hdecode : decode word = .ok instruction)
    (hplan : plan instruction regs = .ok (.result regs reg value)) :
    Advances word regs ((regs.setGpr reg (value.setWidth 64)).setPc (regs.pc + 4)) instruction
      (.result regs reg value) :=
  ⟨hdecode, hplan, rfl, Plan.applyTo_result regs reg value, rfl⟩

namespace UnitWords

/-- A fetch answers a word when what it answers is that word. -/
theorem fetch_eq_ok_iff {words : UnitWords} {pc : Doubleword} {word : Word} :
    (words.fetch pc).toOption = some word ↔ words.fetch pc = .ok word := by
  cases words.fetch pc <;> simp [Except.toOption]

instance decidableHolds (words : UnitWords) : (pc : Doubleword) → (code : List Word) →
    Decidable (words.Holds pc code)
  | _, [] => .isTrue trivial
  | pc, word :: rest =>
    have := decidableHolds words (pc + 4) rest
    decidable_of_iff ((words.fetch pc).toOption = some word ∧ words.Holds (pc + 4) rest)
      (and_congr fetch_eq_ok_iff Iff.rfl)

end UnitWords

/-- Code that RAM holds is fetched through caches that agree with RAM. -/
theorem UnitMemory.exists_fetches {memory : UnitMemory} (hformed : memory.WellFormed)
    (hcoherent : memory.Coherent) {pc : Doubleword} {code : List Word}
    (hholds : memory.words.Holds pc code) : ∃ after, memory.Fetches pc code after := by
  induction code generalizing memory pc with
  | nil => exact ⟨memory, rfl⟩
  | cons word rest ih =>
    obtain ⟨hfirst, hrest⟩ := hholds
    obtain ⟨answer, middle, hfetch, hserves⟩ := memory.fetch_serves hformed pc
    obtain rfl : answer = .ok word := (hserves.value_eq hcoherent).trans hfirst
    rw [← hserves.words_eq hcoherent] at hrest
    obtain ⟨after, hafter⟩ := ih hserves.wellFormed (hserves.coherent hcoherent) hrest
    exact ⟨after, middle, hfetch, hafter⟩

/-- A machine runs through the code that it fetches, as far as the code makes no access. -/
theorem Machine.run_of_advancesAll {code : List Word} {before after : RegisterFile}
    (hadvances : AdvancesAll code before after) {memory final : UnitMemory}
    (hfetches : memory.Fetches before.pc code final) :
    ∃ records, run (fun _ => false) code.length ⟨before, memory⟩ =
      .ok (.limit, records, ⟨after, final⟩) := by
  induction hadvances generalizing memory with
  | nil regs =>
    obtain rfl : final = memory := hfetches
    exact ⟨[], rfl⟩
  | @cons word code before middle after instruction made hfirst _ ih =>
    obtain ⟨fetched, hfetch, hlater⟩ := hfetches
    rw [← hfirst.pc_eq] at hlater
    obtain ⟨records, hrun⟩ := ih hlater
    have hstep := step_of_plan hfetch hfirst.decodes hfirst.plans hfirst.accesses_eq
    rw [hfirst.applies] at hstep
    let outcome := StepOutcome.retired before.pc word instruction.group instruction.mnemonic
    refine ⟨⟨before, outcome, middle⟩ :: records, ?_⟩
    simp only [List.length_cons, run, hstep, bind, Except.bind, hrun]
    rfl

end A64Machine
