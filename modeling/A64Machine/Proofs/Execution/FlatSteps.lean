import A64Machine.Proofs.Execution.FlatRun
import A64Machine.Proofs.Execution.Sequences
import A64Machine.Proofs.Memory.ImageLoading

/-!
Instructions of a program that retire one after the other inside its image, on the flat view of
memory.  Such stretches are put together, and the code of a program that makes no access is fetched
from the image throughout.
-/

namespace A64Machine

/-- An instruction that makes no access retires with the effects of its plan and leaves the words
alone. -/
theorem UnitWords.step_of_plan {words : UnitWords} {regs : RegisterFile} {word : Word}
    {instruction : Instruction} {made : Plan} (hfetch : words.fetch regs.pc = .ok word)
    (hdecode : decode word = .ok instruction) (hplan : plan instruction regs = .ok made)
    (hnone : made.accesses = []) :
    words.step regs = ((.retired regs.pc word instruction.group instruction.mnemonic,
      made.effects.applyTo regs), words) := by
  obtain ⟨hloads, hstores⟩ := List.append_eq_nil_iff.1 hnone
  rw [List.map_eq_nil_iff] at hloads hstores
  have hexecute : words.execute instruction regs = .ok made.effects := by
    rw [execute, hplan]
    change (words.performLoads made.loads >>= made.checked words.map) = .ok made.effects
    rw [hloads]
    change made.checked words.map [] = .ok made.effects
    rw [Plan.checked, hstores]
    rfl
  obtain ⟨hword, -⟩ := decode_eq_ok hdecode
  rw [step, hfetch]
  simp only [stepFrom, hdecode, hexecute, conclude, hword, hstores]
  rfl

namespace FlatMachine

/-- So many instructions of a program retire one after the other inside its image. -/
inductive Retires (program : Program) : Nat → FlatMachine → FlatMachine → Prop
  | nothing (machine : FlatMachine) : Retires program 0 machine machine
  | one {count : Nat} {first last : FlatMachine} (hstays : ¬first.Leaves program)
      {pc : Doubleword} {word : Word} {group : InstructionGroup} {mnemonic : Mnemonic}
      (houtcome : first.outcome = .retired pc word group mnemonic)
      (hlater : Retires program count first.next last) : Retires program (count + 1) first last

variable {program : Program} {words : UnitWords} {first middle last : FlatMachine}

/-- Two stretches of a run are one. -/
theorem Retires.trans {count later : Nat} (hfirst : Retires program count first middle)
    (hlater : Retires program later middle last) :
    Retires program (later + count) first last := by
  induction hfirst with
  | nothing machine => exact hlater
  | one hstays houtcome _ ih => exact .one hstays houtcome (ih hlater)

/-- Whether a machine is at a word of the image of a program, which is as it was loaded. -/
structure At (program : Program) (words : UnitWords) (i : Nat) (word : Word)
    (machine : FlatMachine) : Prop where
  fits : program.length ≤ words.ram.size
  words_eq : machine.words = (start program words).words
  word_eq : program.words[i]? = some word
  pc_eq : machine.regs.pc.toNat = i * wordBytes

variable {i : Nat} {word : Word}

theorem At.fetch_eq (hat : first.At program words i word) :
    first.words.fetch first.regs.pc = .ok word := by
  have hword : program.words.toList[i]? = some word := Array.getElem?_toList.trans hat.word_eq
  rw [hat.words_eq]
  exact UnitWords.fetch_loadImage hat.fits hword hat.pc_eq

/-- The exit address is no address of a word, so a machine at one has not left its image. -/
theorem At.stays (hat : first.At program words i word) : ¬first.Leaves program := by
  obtain ⟨hi, -⟩ := Array.getElem?_eq_some_iff.1 hat.word_eq
  have hpc := hat.pc_eq
  rintro (hexit | hend)
  · rw [hexit, programExit, BitVec.toNat_allOnes, wordBytes] at hpc
    omega
  · rw [hpc, Program.endAddress, Program.length, wordBytes] at hend
    omega

/-- An instruction of the image that makes no access retires. -/
theorem At.retires {instruction : Instruction} {made : Plan} (hat : first.At program words i word)
    (hdecode : decode word = .ok instruction) (hplan : plan instruction first.regs = .ok made)
    (hnone : made.accesses = []) :
    Retires program 1 first ⟨made.effects.applyTo first.regs, first.words⟩ := by
  have hstep := UnitWords.step_of_plan hat.fetch_eq hdecode hplan hnone
  have hnext : first.next = ⟨made.effects.applyTo first.regs, first.words⟩ := by
    rw [next, hstep]
  have houtcome : first.outcome = .retired first.regs.pc word instruction.group
      instruction.mnemonic := by
    rw [outcome, hstep]
  rw [← hnext]
  exact .one hat.stays houtcome (.nothing first.next)

/-- An instruction of the image that goes on in sequence. -/
theorem At.advances {after : RegisterFile} {instruction : Instruction} {made : Plan}
    (hat : first.At program words i word)
    (hadvances : Advances word first.regs after instruction made) :
    Retires program 1 first ⟨after, first.words⟩ := by
  rw [← hadvances.applies]
  exact hat.retires hadvances.decodes hadvances.plans hadvances.accesses_eq

end FlatMachine

end A64Machine
