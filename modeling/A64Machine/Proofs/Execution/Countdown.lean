import Mathlib.Data.Nat.Choose.Basic
import A64Machine.Proofs.Execution.Comparisons
import A64Machine.Proofs.Execution.Constants
import A64Machine.Proofs.Execution.FlatSteps

/-!
The countdown.  Its loop adds the counter to the sum and subtracts one from the counter, until the
subtraction leaves zero.  Between two rounds the sum and the numbers that are left come to the same
total, so every round retires three instructions and the sum is complete when none is left.
-/

namespace A64Machine

/-- Adds the numbers from `n` down to 1 in W0, with W1 as the counter, and returns.  The bundled
program counts down from 10. -/
def Program.countdown (n : Nat) : Program :=
  { words := #[0x52800000, 0x52800001 ||| (BitVec.ofNat 32 n <<< 5), 0x0B010000, 0x71000421,
      0x54FFFFC1, 0xD65F03C0]
    entry := 0 }

example : Program.countdown 10 = .countdownSum := by decide

namespace Countdown

/-! ### Its instructions -/

section Instructions

/-- The second word moves the number that the countdown starts from into W1. -/
theorem word_start {n : Nat} (hn : n < 2 ^ 16) :
    (0x52800001 ||| (BitVec.ofNat 32 n <<< 5) : Word) =
      HalfwordMove.zeroed.word .w32 1 (BitVec.ofNat 16 n) 0 := by
  have hwide : (BitVec.ofNat 16 n).setWidth 32 = BitVec.ofNat 32 n := by
    apply BitVec.eq_of_toNat_eq
    rw [BitVec.toNat_setWidth, BitVec.toNat_ofNat, BitVec.toNat_ofNat]
    omega
  have himm : InstructionField.imm16.place (BitVec.ofNat 16 n) = BitVec.ofNat 32 n <<< 5 := by
    rw [← hwide]
    rfl
  rw [HalfwordMove.word, himm, BitVec.or_assoc, BitVec.or_comm (BitVec.ofNat 32 n <<< 5),
    ← BitVec.or_assoc]
  rfl

theorem decode_add : decode 0x0B010000 =
    .ok ⟨0x0B010000, .dataProcessingRegister, .addSubtractShiftedRegister, .addW⟩ := rfl

theorem decode_subtract : decode 0x71000421 =
    .ok ⟨0x71000421, .dataProcessingImmediate, .addSubtractImmediate, .subsImmW⟩ := rfl

theorem decode_branch : decode 0x54FFFFC1 =
    .ok ⟨0x54FFFFC1, .branchExceptionSystem, .conditionalBranch, .bCond⟩ := rfl

theorem decode_return : decode 0xD65F03C0 =
    .ok ⟨0xD65F03C0, .branchExceptionSystem, .unconditionalBranchRegister, .ret⟩ := rfl

/-- The branch goes back to the addition. -/
theorem target_branch {regs : RegisterFile} (hpc : regs.pc = 16) :
    target19 0x54FFFFC1 regs = 8 := by
  rw [target19, branchTarget, hpc]
  decide

/-- The value of a sum that fits the width. -/
theorem toNat_add {x y : BitVec 32} (hsum : x.toNat + y.toNat < 2 ^ 32) :
    ((addOrSubtract false x y).1.setWidth 64).toNat = x.toNat + y.toNat := by
  have hvalue : (addOrSubtract false x y).1 = x + y := BitVec.add_zero (x + y)
  rw [hvalue, BitVec.toNat_setWidth, BitVec.toNat_add]
  omega

/-- A counter that is not zero, less one. -/
theorem subtract_one {left : Nat} (hleft : left < 2 ^ 32) :
    (addOrSubtract true (BitVec.ofNat 32 (left + 1)) 1#32).1.setWidth 64 =
      BitVec.ofNat 64 left := by
  have hvalue : (addOrSubtract true (BitVec.ofNat 32 (left + 1)) 1#32).1 =
      BitVec.ofNat 32 (left + 1) - 1#32 := add_not_add_one _ _
  apply BitVec.eq_of_toNat_eq
  rw [hvalue, BitVec.toNat_setWidth, BitVec.toNat_sub, BitVec.toNat_ofNat, BitVec.toNat_ofNat,
    BitVec.toNat_ofNat]
  omega

/-- The flags of the subtraction say whether something is left. -/
theorem holds_ne {left : Nat} (hleft : left + 1 < 2 ^ 32) :
    Condition.ne.holds (addOrSubtract true (BitVec.ofNat 32 (left + 1)) 1#32).2 =
      decide (left ≠ 0) := by
  rw [Bool.eq_iff_iff, holds_subtract_iff (by decide) .ne, decide_eq_true_iff]
  refine not_congr ?_
  rw [← BitVec.toNat_inj, BitVec.toNat_ofNat, BitVec.toNat_ofNat]
  omega

end Instructions

/-! ### Its registers -/

/-- The registers after the move of a halfword into a cleared register. -/
def moved (regs : RegisterFile) (d : Nat) (imm : BitVec 16) : RegisterFile :=
  (regs.setGpr d (imm.setWidth 64)).setPc (regs.pc + 4)

def added (regs : RegisterFile) : RegisterFile :=
  (regs.setGpr 0 ((addOrSubtract false (regs.read 32 0) (regs.read 32 1)).1.setWidth 64)).setPc
    (regs.pc + 4)

def subtracted (regs : RegisterFile) : RegisterFile :=
  let (difference, flags) := addOrSubtract true (regs.read 32 1) 1#32
  ((regs.setGpr 1 (difference.setWidth 64)).setNzcv flags).setPc (regs.pc + 4)

def branched (regs : RegisterFile) : RegisterFile :=
  regs.setPc (if Condition.ne.holds regs.nzcv then 8 else regs.pc + 4)

theorem gpr_moved (regs : RegisterFile) (d : Nat) (imm : BitVec 16) (m : Nat) :
    (moved regs d imm).gpr m = if d = m ∧ m < 31 then imm.setWidth 64 else regs.gpr m :=
  RegisterFile.gpr_setGpr regs d m _

theorem gpr_added (regs : RegisterFile) (m : Nat) : (added regs).gpr m =
    if 0 = m ∧ m < 31 then (addOrSubtract false (regs.read 32 0) (regs.read 32 1)).1.setWidth 64
    else regs.gpr m :=
  RegisterFile.gpr_setGpr regs 0 m _

theorem gpr_subtracted (regs : RegisterFile) (m : Nat) : (subtracted regs).gpr m =
    if 1 = m ∧ m < 31 then (addOrSubtract true (regs.read 32 1) 1#32).1.setWidth 64
    else regs.gpr m :=
  RegisterFile.gpr_setGpr regs 1 m _

theorem gpr_branched (regs : RegisterFile) (m : Nat) : (branched regs).gpr m = regs.gpr m := rfl

def rounded (regs : RegisterFile) : RegisterFile :=
  branched (subtracted (added regs))

theorem gpr_rounded_of_ne (regs : RegisterFile) {m : Nat} (hsum : 0 ≠ m) (hcounter : 1 ≠ m) :
    (rounded regs).gpr m = regs.gpr m := by
  rw [rounded, gpr_branched, gpr_subtracted, if_neg fun hsame => hcounter hsame.1, gpr_added,
    if_neg fun hsame => hsum hsame.1]

section Round

variable {regs : RegisterFile} {left : Nat} (hleft : left + 1 < 2 ^ 32)
  (hcounter : regs.gpr 1 = BitVec.ofNat 64 (left + 1))

include hcounter

theorem read_counter : regs.read 32 1 = BitVec.ofNat 32 (left + 1) := by
  rw [RegisterFile.read, hcounter, BitVec.setWidth_ofNat_of_le (by decide)]

theorem read_counter_added : (added regs).read 32 1 = BitVec.ofNat 32 (left + 1) := by
  rw [added, RegisterFile.read_written_of_ne _ _ (by decide), read_counter hcounter]

include hleft

/-- The counter is added to the sum, which does not wrap around. -/
theorem sum_rounded (hfits : (regs.gpr 0).toNat + (left + 1) < 2 ^ 32) :
    ((rounded regs).gpr 0).toNat = (regs.gpr 0).toNat + (left + 1) := by
  have hsum : (regs.read 32 0).toNat = (regs.gpr 0).toNat := by
    rw [RegisterFile.read, BitVec.toNat_setWidth]
    omega
  have hadded : (regs.read 32 1).toNat = left + 1 := by
    rw [read_counter hcounter, BitVec.toNat_ofNat]
    omega
  rw [rounded, gpr_branched, gpr_subtracted, if_neg (by decide), gpr_added, if_pos (by decide),
    toNat_add (by omega), hsum, hadded]

theorem counter_rounded : (rounded regs).gpr 1 = BitVec.ofNat 64 left := by
  rw [rounded, gpr_branched, gpr_subtracted, if_pos (by decide), read_counter_added hcounter]
  exact subtract_one (by omega)

/-- The branch is taken as long as something is left. -/
theorem pc_rounded (hpc : regs.pc = 8) : (rounded regs).pc = if left = 0 then 20 else 8 := by
  have hflags : (subtracted (added regs)).nzcv =
      (addOrSubtract true (BitVec.ofNat 32 (left + 1)) 1#32).2 := by
    rw [← read_counter_added hcounter]
    rfl
  have hnext : (subtracted (added regs)).pc = 16 := congrArg (· + 4 + 4) hpc
  rw [rounded, branched, RegisterFile.setPc, hflags, holds_ne hleft, hnext]
  by_cases hlast : left = 0
  · simp [hlast]
  · simp [hlast]

end Round

/-! ### Its run -/

section Run

variable {n left : Nat} {words : UnitWords} {machine : FlatMachine}

theorem retires_move {i d : Nat} {imm : BitVec 16} (hd : d < 31)
    (hat : machine.At (.countdown n) words i (HalfwordMove.zeroed.word .w32 d imm 0)) :
    FlatMachine.Retires (.countdown n) 1 machine ⟨moved machine.regs d imm, machine.words⟩ := by
  have hencodes := HalfwordMove.word_encodes .zeroed .w32 d imm hd (show 0 < 2 by decide)
  obtain ⟨instruction, made, hadvances⟩ := hencodes.advances (by decide) machine.regs
  have hvalue (old : BitVec 32) :
      (HalfwordMove.zeroed.result old imm 0).setWidth 64 = imm.setWidth 64 := by
    rw [HalfwordMove.result, BitVec.shiftLeft_zero, BitVec.setWidth_setWidth (by decide)]
  rw [moved, ← hvalue]
  exact hat.advances hadvances

theorem retires_add (hat : machine.At (.countdown n) words 2 0x0B010000) :
    FlatMachine.Retires (.countdown n) 1 machine ⟨added machine.regs, machine.words⟩ := by
  have hplan : plan ⟨0x0B010000, .dataProcessingRegister, .addSubtractShiftedRegister, .addW⟩
      machine.regs = .ok (.result machine.regs 0
        (addOrSubtract false (machine.regs.read 32 0) (machine.regs.read 32 1 <<< 0)).1) := rfl
  rw [BitVec.shiftLeft_zero] at hplan
  exact hat.retires decode_add hplan rfl

theorem retires_subtract (hat : machine.At (.countdown n) words 3 0x71000421) :
    FlatMachine.Retires (.countdown n) 1 machine ⟨subtracted machine.regs, machine.words⟩ := by
  let difference := addOrSubtract true (machine.regs.read 32 1) 1#32
  have hplan : plan ⟨0x71000421, .dataProcessingImmediate, .addSubtractImmediate, .subsImmW⟩
      machine.regs = .ok (.result machine.regs 1 difference.1 (some difference.2)) := rfl
  exact hat.retires decode_subtract hplan rfl

theorem retires_branch (hat : machine.At (.countdown n) words 4 0x54FFFFC1)
    (hpc : machine.regs.pc = 16) :
    FlatMachine.Retires (.countdown n) 1 machine ⟨branched machine.regs, machine.words⟩ := by
  have hplan : plan ⟨0x54FFFFC1, .branchExceptionSystem, .conditionalBranch, .bCond⟩
      machine.regs = .ok (.branch machine.regs (Condition.ne.holds machine.regs.nzcv)
        (target19 0x54FFFFC1 machine.regs)) := rfl
  have hretires := hat.retires decode_branch hplan (Plan.accesses_branch _ _)
  rwa [Plan.applyTo_branch, target_branch hpc] at hretires

theorem retires_round (hfits : 6 ≤ words.ram.size)
    (hwords : machine.words = (FlatMachine.start (.countdown n) words).words)
    (hpc : machine.regs.pc = 8) :
    FlatMachine.Retires (.countdown n) 3 machine ⟨rounded machine.regs, machine.words⟩ := by
  obtain ⟨regs, current⟩ := machine
  have hadded : (added regs).pc = 12 := congrArg (· + 4) hpc
  have hsubtracted : (subtracted (added regs)).pc = 16 := congrArg (· + 4) hadded
  have hadd : FlatMachine.Retires (.countdown n) 1 ⟨regs, current⟩ ⟨added regs, current⟩ :=
    retires_add ⟨hfits, hwords, rfl, congrArg BitVec.toNat hpc⟩
  have hsubtract : FlatMachine.Retires (.countdown n) 1 ⟨added regs, current⟩
      ⟨subtracted (added regs), current⟩ :=
    retires_subtract ⟨hfits, hwords, rfl, congrArg BitVec.toNat hadded⟩
  have hbranch : FlatMachine.Retires (.countdown n) 1 ⟨subtracted (added regs), current⟩
      ⟨rounded regs, current⟩ :=
    retires_branch ⟨hfits, hwords, rfl, congrArg BitVec.toNat hsubtracted⟩ hsubtracted
  exact hadd.trans (hsubtract.trans hbranch)

/-- The countdown from `n` between two rounds, when `left` numbers are still to be added: it is at
the head of its loop, or past the loop when none is left. -/
structure Between (n : Nat) (words : UnitWords) (left : Nat) (machine : FlatMachine) : Prop where
  words_eq : machine.words = (FlatMachine.start (.countdown n) words).words
  pc_eq : machine.regs.pc = if left = 0 then 20 else 8
  sum : (machine.regs.gpr 0).toNat + left * (left + 1) / 2 = n * (n + 1) / 2
  counter : machine.regs.gpr 1 = BitVec.ofNat 64 left
  link : machine.regs.gpr linkRegister = programExit
  sp_eq : machine.regs.sp = BitVec.ofNat 64 words.map.stackTop

theorem sum_succ (left : Nat) :
    (left + 1) * (left + 2) / 2 = left * (left + 1) / 2 + (left + 1) := by
  rw [Nat.mul_comm (left + 1), Nat.mul_comm left]
  exact Nat.triangle_succ (left + 1)

/-- The sum fits 32 bits. -/
theorem sum_lt (hn : n < 2 ^ 16) : n * (n + 1) / 2 < 2 ^ 32 := by
  have hproduct : n * (n + 1) ≤ 2 ^ 16 * 2 ^ 16 := Nat.mul_le_mul (by omega) (by omega)
  omega

/-- One round: the addition, the subtraction and the branch. -/
theorem Between.round (hn : n < 2 ^ 16) (hfits : 6 ≤ words.ram.size)
    (hbetween : Between n words (left + 1) machine) (hleft : left < n) :
    ∃ after, FlatMachine.Retires (.countdown n) 3 machine after ∧ Between n words left after := by
  obtain ⟨hwords, hpc, hsum, hcounter, hlink, hsp⟩ := hbetween
  rw [if_neg (Nat.succ_ne_zero left)] at hpc
  rw [sum_succ] at hsum
  have hbound := sum_lt hn
  have hless : left + 1 < 2 ^ 32 := by omega
  refine ⟨⟨rounded machine.regs, machine.words⟩, retires_round hfits hwords hpc, hwords,
    pc_rounded hless hcounter hpc, ?_, counter_rounded hless hcounter,
    (gpr_rounded_of_ne machine.regs (by decide) (by decide)).trans hlink, hsp⟩
  rw [sum_rounded hless hcounter (by omega)]
  omega

/-- The rounds that are left. -/
theorem Between.rounds (hn : n < 2 ^ 16) (hfits : 6 ≤ words.ram.size) (hleft : left ≤ n)
    (hbetween : Between n words left machine) :
    ∃ last, FlatMachine.Retires (.countdown n) (3 * left) machine last ∧
      Between n words 0 last := by
  induction left generalizing machine with
  | zero => exact ⟨machine, .nothing machine, hbetween⟩
  | succ left ih =>
    obtain ⟨middle, hround, hmiddle⟩ := hbetween.round hn hfits hleft
    obtain ⟨last, hrounds, hlast⟩ := ih (Nat.le_of_succ_le hleft) hmiddle
    exact ⟨last, hround.trans hrounds, hlast⟩

/-- Before the loop the sum is cleared and the counter is set. -/
theorem exists_between_start (hfirst : 1 ≤ n) (hn : n < 2 ^ 16) (hfits : 6 ≤ words.ram.size) :
    ∃ machine, FlatMachine.Retires (.countdown n) 2 (.start (.countdown n) words) machine ∧
      Between n words n machine := by
  let start := FlatMachine.start (.countdown n) words
  let cleared := moved start.regs 0 0
  have hclear : FlatMachine.Retires (.countdown n) 1 start ⟨cleared, start.words⟩ :=
    retires_move (by decide) (i := 0) ⟨hfits, rfl, rfl, rfl⟩
  have hset : FlatMachine.Retires (.countdown n) 1 ⟨cleared, start.words⟩
      ⟨moved cleared 1 (BitVec.ofNat 16 n), start.words⟩ := by
    refine retires_move (by decide) (i := 1) ⟨hfits, rfl, ?_, rfl⟩
    rw [← word_start hn]
    rfl
  refine ⟨_, hclear.trans hset, rfl, ?pc, ?sum, ?counter, ?link, rfl⟩
  case pc =>
    rw [if_neg (by omega)]
    rfl
  case sum =>
    rw [gpr_moved, if_neg (by decide), gpr_moved, if_pos (by decide)]
    exact Nat.zero_add _
  case counter =>
    rw [gpr_moved, if_pos (by decide)]
    apply BitVec.eq_of_toNat_eq
    rw [BitVec.toNat_setWidth, BitVec.toNat_ofNat, BitVec.toNat_ofNat]
    omega
  case link =>
    rw [gpr_moved, if_neg (by decide), gpr_moved, if_neg (by decide)]
    rfl

/-- The return. -/
theorem Between.returns (hfits : 6 ≤ words.ram.size) (hbetween : Between n words 0 machine) :
    FlatMachine.Retires (.countdown n) 1 machine
      ⟨machine.regs.setPc programExit, machine.words⟩ := by
  have hat : machine.At (.countdown n) words 5 0xD65F03C0 := by
    refine ⟨hfits, hbetween.words_eq, rfl, ?_⟩
    rw [hbetween.pc_eq]
    rfl
  have hplan : plan ⟨0xD65F03C0, .branchExceptionSystem, .unconditionalBranchRegister, .ret⟩
      machine.regs = .ok (.jump (machine.regs.gpr linkRegister)) := rfl
  rw [hbetween.link] at hplan
  exact hat.retires decode_return hplan rfl

/-- The countdown on the flat view of memory. -/
theorem exists_retires (hfirst : 1 ≤ n) (hn : n < 2 ^ 16) (hfits : 6 ≤ words.ram.size) :
    ∃ last, FlatMachine.Retires (.countdown n) (3 * n + 3) (.start (.countdown n) words) last ∧
      last.regs.pc = programExit ∧ (last.regs.gpr 0).toNat = n * (n + 1) / 2 ∧
      last.regs.gpr 1 = 0 ∧ last.regs.sp = BitVec.ofNat 64 words.map.stackTop := by
  obtain ⟨machine, hbegins, hbetween⟩ := exists_between_start hfirst hn hfits
  obtain ⟨done, hrounds, hdone⟩ := hbetween.rounds hn hfits (Nat.le_refl n)
  refine ⟨⟨done.regs.setPc programExit, done.words⟩, ?_, rfl, ?_, hdone.counter, hdone.sp_eq⟩
  · have hretires := (hbegins.trans hrounds).trans (hdone.returns hfits)
    rwa [show 1 + (3 * n + 2) = 3 * n + 3 by omega] at hretires
  · exact hdone.sum

end Run

end Countdown

end A64Machine
