import A64Machine.Execution.Run
import A64Machine.Proofs.Execution.Reachable

/-!
Faults are precise.  A step that faults, and any execution that is not committed, leaves registers,
stack and RAM as they were, and nothing that is asked of the memory afterwards tells the difference.
-/

namespace A64Machine

namespace UnitMemory

/-- Two memories between which no program can tell: the same stack words and RAM words, and the same
answers to every sequence of calls. -/
structure Indistinguishable (memory other : UnitMemory) : Prop where
  stack_eq : other.stack.words = memory.stack.words
  ram_eq : other.hierarchy.ramWords = memory.hierarchy.ramWords
  answers_eq (calls : List UnitCall) (hallowed : ∀ call ∈ calls, call.Allowed memory.map) :
    ∃ given, memory.answers calls = .ok given ∧ other.answers calls = .ok given

/-- What leaves the flat view alone cannot be told. -/
theorem Serves.indistinguishable {α : Type} {memory after : UnitMemory} {answer value : α}
    (hformed : memory.WellFormed) (hcoherent : memory.Coherent)
    (hserves : memory.Serves answer after value memory.words) :
    memory.Indistinguishable after := by
  have hwords := hserves.words_eq hcoherent
  refine ⟨congrArg UnitWords.stack hwords, congrArg UnitWords.ram hwords, ?_⟩
  intro calls hallowed
  refine ⟨memory.words.answers calls, UnitMemory.answers_eq hformed hcoherent calls hallowed, ?_⟩
  rw [← hwords]
  refine UnitMemory.answers_eq hserves.wellFormed (hserves.coherent hcoherent) calls ?_
  rw [hserves.map_eq]
  exact hallowed

end UnitMemory

/-- A step of the flat machine that faults changes neither registers nor words. -/
theorem UnitWords.step_of_fault {words : UnitWords} {regs : RegisterFile}
    (hfault : (words.step regs).1.1.isFault) :
    (words.step regs).1.2 = regs ∧ (words.step regs).2 = words := by
  unfold step stepFrom at hfault ⊢
  cases hfetch : words.fetch regs.pc with
  | error cause => exact ⟨rfl, rfl⟩
  | ok word =>
    simp only [hfetch] at hfault ⊢
    cases hdecode : decode word with
    | error fault => exact ⟨rfl, rfl⟩
    | ok instruction =>
      simp only [hdecode] at hfault ⊢
      cases hexecute : words.execute instruction regs with
      | error cause => exact ⟨rfl, rfl⟩
      | ok effects =>
        simp only [hexecute, conclude, StepOutcome.isFault] at hfault
        contradiction

/-- In every state that a unit's memory can come to, a step that faults changes no register and no
word, and the execution of any instruction, also of one that no word decodes to, changes no word. -/
theorem UnitMemory.faults_are_precise {memory : UnitMemory} (hreachable : memory.Reachable) :
    (∀ regs, ∃ outcome regs' after, step regs memory = .ok (outcome, regs', after) ∧
      (outcome.isFault → regs' = regs ∧ memory.Indistinguishable after)) ∧
    (∀ instruction regs, ∃ answer after,
      execute instruction regs memory = .ok (answer, after) ∧ memory.Indistinguishable after) := by
  obtain ⟨hformed, hcoherent⟩ := hreachable.coherent
  constructor
  · intro regs
    obtain ⟨outcome, regs', after, hstep, hserves⟩ := step_serves regs hformed
    refine ⟨outcome, regs', after, hstep, ?_⟩
    intro hfault
    have hvalue := hserves.value_eq hcoherent
    have houtcome : outcome = (memory.words.step regs).1.1 := congrArg Prod.fst hvalue
    have hregs' : regs' = (memory.words.step regs).1.2 := congrArg Prod.snd hvalue
    rw [houtcome] at hfault
    obtain ⟨hregs, hwords⟩ := UnitWords.step_of_fault hfault
    rw [hwords] at hserves
    exact ⟨hregs'.trans hregs, hserves.indistinguishable hformed hcoherent⟩
  · intro instruction regs
    obtain ⟨answer, after, hexecute, -, -, hserves⟩ := execute_serves instruction regs hformed
    exact ⟨answer, after, hexecute, hserves.indistinguishable hformed hcoherent⟩

/-- A load pair at the end of 64 words: its first half is mapped and fills the line of the cache, its
second half is not. -/
theorem UnitMemory.faults_are_precise_load_pair :
    ∃ memory : UnitMemory, memory.Reachable ∧ ∃ after,
      step {} memory = .ok (.faulted 0 (some 0xA94F8801) .dataAbort, {}, after) ∧
        memory.Indistinguishable after := by
  let store : Ram := { name := "RAM", words := #[0xA94F8801] ++ Array.replicate 63 0 }
  let hierarchy : Memory :=
    .cache { name := "L1", capacity := 64, lines := Vector.replicate 1 {} } (.ram store)
  let memory : UnitMemory := { hierarchy, stack := .zeroed "STACK" 4 }
  have hbuild : (Memory.ram store).withCache "L1" {} 64 = .ok hierarchy := rfl
  have hreachable : memory.Reachable := .start (.cache (.ram store) hbuild) _ _
  have houtcome : (step {} memory).toOption.map (fun ended => (ended.1, ended.2.1)) =
      some (.faulted 0 (some 0xA94F8801) .dataAbort, {}) := by decide +kernel
  obtain ⟨outcome, regs, after, hstep, hprecise⟩ :=
    (UnitMemory.faults_are_precise hreachable).1 {}
  rw [hstep] at houtcome
  obtain ⟨rfl, rfl⟩ := Prod.mk.inj (Option.some.inj houtcome)
  exact ⟨memory, hreachable, after, hstep, (hprecise rfl).2⟩

end A64Machine
