import A64Machine.Proofs.Execution.Retirement
import A64Machine.Proofs.Execution.StepFaults

/-!
Instruction words executed one after the other, wherever they come from.  What a step does after its
fetch is the execution of the fetched word, so that statements about words hold at every program
counter and not only where there is memory to fetch from.
-/

namespace A64Machine

/-- Executes the instruction in a word, from decoding to the commit. -/
def executeWord (word : Word) (regs : RegisterFile) (memory : UnitMemory) :
    Except Violation (Answer RegisterFile) :=
  match decode word with
  | .error fault => pure (.error fault.code, memory)
  | .ok instruction => do
    match ← execute instruction regs memory with
    | (.error cause, memory) => pure (.error cause, memory)
    | (.ok effects, memory) =>
      let (regs, memory) ← commit effects regs memory
      pure (.ok regs, memory)

/-- Executes the instructions in some words in order; the first that faults ends it. -/
def executeWords : List Word → RegisterFile → UnitMemory →
    Except Violation (Answer RegisterFile)
  | [], regs, memory => pure (.ok regs, memory)
  | word :: rest, regs, memory => do
    match ← executeWord word regs memory with
    | (.error cause, memory) => pure (.error cause, memory)
    | (.ok regs, memory) => executeWords rest regs memory

section Step

variable {regs regs' : RegisterFile} {memory middle after : UnitMemory} {word : Word}

/-- A step is a fetch and the execution of the fetched word. -/
theorem step_of_fetch (hfetch : memory.fetch regs.pc = .ok (.ok word, middle)) :
    (step regs memory).map (fun ended => (ended.1.fault?, ended.2)) =
      (executeWord word regs middle).map fun ended =>
        (faultOf ended.1, ended.1.toOption.getD regs, ended.2) := by
  rw [executeWord]
  cases hdecode : decode word with
  | error fault =>
    rw [step_of_decode_fault hfetch hdecode]
    rfl
  | ok instruction =>
    simp only [step, hfetch, bind, Except.bind, hdecode]
    cases execute instruction regs middle with
    | error violation => rfl
    | ok executed =>
      obtain ⟨answer, executed⟩ := executed
      cases answer with
      | error cause => rfl
      | ok effects =>
        simp only
        cases commit effects regs executed <;> rfl

/-- What it means that a word is executed without a fault. -/
theorem executeWord_eq_ok (hexecute : executeWord word regs memory = .ok (.ok regs', after)) :
    ∃ instruction effects middle, decode word = .ok instruction ∧
      execute instruction regs memory = .ok (.ok effects, middle) ∧
      commitStores effects.stores middle = .ok after ∧ regs' = effects.applyTo regs := by
  unfold executeWord at hexecute
  cases hdecode : decode word with
  | error fault =>
    rw [hdecode] at hexecute
    cases hexecute
  | ok instruction =>
    rw [hdecode] at hexecute
    obtain ⟨⟨answer, middle⟩, hanswer, hrest⟩ := bind_eq_ok hexecute
    cases answer with
    | error cause => cases hrest
    | ok effects =>
      obtain ⟨⟨committed, final⟩, hcommit, hend⟩ := bind_eq_ok hrest
      obtain ⟨stored, hstored, hcommitted⟩ := bind_eq_ok hcommit
      obtain ⟨rfl, rfl⟩ := Prod.mk.inj (Except.ok.inj hcommitted)
      obtain ⟨hregs, rfl⟩ := Prod.mk.inj (Except.ok.inj hend)
      exact ⟨instruction, effects, middle, rfl, hanswer, hstored, (Except.ok.inj hregs).symm⟩

/-- A word that is executed without a fault in a coherent memory has the effects that it has on the
flat view. -/
theorem executeWord_serves (hformed : memory.WellFormed) (hcoherent : memory.Coherent)
    (hexecute : executeWord word regs memory = .ok (.ok regs', after)) :
    ∃ instruction effects, decode word = .ok instruction ∧
      memory.words.execute instruction regs = .ok effects ∧ regs' = effects.applyTo regs ∧
      memory.Serves () after () (memory.words.commitStores effects.stores) := by
  obtain ⟨instruction, effects, middle, hdecode, hanswer, hcommit, rfl⟩ :=
    executeWord_eq_ok hexecute
  obtain ⟨answer, middle', hanswer', -, hmapped, hserves⟩ :=
    UnitMemory.execute_serves instruction regs hformed
  obtain ⟨rfl, rfl⟩ := Prod.mk.inj (Except.ok.inj (hanswer'.symm.trans hanswer))
  obtain ⟨after', hcommit', hafter⟩ :=
    UnitMemory.commitStores_serves effects.stores hserves.wellFormed fun pending hpending => by
      rw [hserves.map_eq]
      exact hmapped effects rfl pending hpending
  obtain rfl := Except.ok.inj (hcommit'.symm.trans hcommit)
  exact ⟨instruction, effects, hdecode, (hserves.value_eq hcoherent).symm, rfl,
    hserves.bind (fun _ words => ((), words.commitStores effects.stores)) hafter⟩

/-- A word whose instruction makes no access has the effects of its plan. -/
theorem executeWord_of_plan {instruction : Instruction} {made : Plan}
    (hdecode : decode word = .ok instruction) (hplan : plan instruction regs = .ok made)
    (hnone : made.accesses = []) :
    executeWord word regs memory = .ok (.ok (made.effects.applyTo regs), memory) := by
  have hexecute : execute instruction regs memory = .ok (.ok made.effects, memory) := by
    rw [execute, hplan]
    exact Plan.perform_of_accesses_eq_nil hnone memory
  have hstores : made.effects.stores = [] :=
    List.map_eq_nil_iff.1 (List.append_eq_nil_iff.1 hnone).2
  simp only [executeWord, hdecode, hexecute, bind, Except.bind, commit, hstores]
  rfl

/-- A word whose instruction makes one load has what memory answers in its register. -/
theorem executeWord_of_load {instruction : Instruction} {request : LoadRequest}
    (hdecode : decode word = .ok instruction)
    (hplan : plan instruction regs = .ok (.loading regs [request])) :
    executeWord word regs memory = (memory.load request.address request.bytes).map fun loaded =>
      (loaded.1.map fun value =>
        (regs.setGpr request.reg (request.result value)).setPc (regs.pc + 4), loaded.2) := by
  simp only [executeWord, hdecode, execute, hplan, Plan.perform, Plan.loading, performLoads]
  cases memory.load request.address request.bytes with
  | error violation => rfl
  | ok loaded =>
    obtain ⟨answer, middle⟩ := loaded
    cases answer <;> rfl

end Step

end A64Machine
