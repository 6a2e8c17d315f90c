import A64Machine.Proofs.Execution.NarrowForms

/-!
Steps that retire.  The effects of an instruction that succeeds are those of its plan, after the
writes of its loads; when the plan makes no access, the step retires and leaves memory to its fetch.
-/

namespace A64Machine

/-- A call on memory that is found to answer with a value leaves some memory behind. -/
theorem exists_of_answer {α : Type} {call : Except Violation (Answer α)} {value : α}
    (hfound : call.toOption.map (·.1.toOption) = some (some value)) :
    ∃ after, call = .ok (.ok value, after) := by
  obtain ⟨⟨answer, after⟩, hcall, hanswer⟩ := Option.map_eq_some_iff.1 hfound
  obtain rfl : answer = .ok value := eq_ok_of_toOption hanswer
  exact ⟨after, eq_ok_of_toOption hcall⟩

/-- An operation whose width bit 31 selects belongs to one class. -/
theorem class_of_operation {cls : InstructionClass} (hselected : cls ∈ InstructionClass.widthSelected)
    {word : Word} {instruction : Instruction} (hdecode : decode word = .ok instruction)
    (hoperation : instruction.mnemonic ∈ cls.operations) : instruction.cls = cls :=
  forall_rows_of_decode (p := fun own mnemonic => ∀ cls ∈ InstructionClass.widthSelected,
    mnemonic ∈ cls.operations → own = cls) (by decide +kernel) hdecode cls hselected hoperation

/-- The effects of an instruction that succeeds are those of its plan, with the writes of its loads
before the others. -/
theorem effects_of_execute {instruction : Instruction} {regs : RegisterFile}
    {memory after : UnitMemory} {effects : Effects}
    (hexecute : execute instruction regs memory = .ok (.ok effects, after)) :
    ∃ made loaded middle, plan instruction regs = .ok made ∧
      performLoads made.loads memory = .ok (.ok loaded, middle) ∧
      effects = { made.effects with writes := loaded ++ made.effects.writes } := by
  unfold execute at hexecute
  split at hexecute
  · cases hexecute
  next made hplan =>
    obtain ⟨⟨answer, middle⟩, hperform, hrest⟩ := bind_eq_ok hexecute
    cases answer with
    | error cause => cases hrest
    | ok loaded =>
      simp only at hrest
      split at hrest
      · cases hrest
      · obtain ⟨heffects, -⟩ := Prod.mk.inj (Except.ok.inj hrest)
        exact ⟨made, loaded, middle, hplan, hperform, (Except.ok.inj heffects).symm⟩

/-- What it means that a step retires an instruction. -/
theorem retired_of_step {regs regs' : RegisterFile} {memory after : UnitMemory} {pc : Doubleword}
    {word : Word} {group : InstructionGroup} {mnemonic : Mnemonic}
    (hstep : step regs memory = .ok (.retired pc word group mnemonic, regs', after)) :
    ∃ instruction made loaded, decode word = .ok instruction ∧ instruction.mnemonic = mnemonic ∧
      plan instruction regs = .ok made ∧
      regs' = { made.effects with writes := loaded ++ made.effects.writes }.applyTo regs := by
  obtain ⟨⟨fetched, middle⟩, -, hrest⟩ := bind_eq_ok hstep
  cases fetched with
  | error cause => cases hrest
  | ok word' =>
    simp only at hrest
    split at hrest
    · cases hrest
    next instruction hdecode =>
      obtain ⟨⟨answer, executed⟩, hexecute, hlast⟩ := bind_eq_ok hrest
      cases answer with
      | error cause => cases hlast
      | ok effects =>
        obtain ⟨made, loaded, -, hplan, -, heffects⟩ := effects_of_execute hexecute
        obtain ⟨⟨committed, final⟩, hcommit, hend⟩ := bind_eq_ok hlast
        obtain ⟨hretired, hstate⟩ := Prod.mk.inj (Except.ok.inj hend)
        obtain ⟨-, rfl, -, rfl⟩ := StepOutcome.retired.inj hretired
        obtain ⟨stored, -, hcommitted⟩ := bind_eq_ok hcommit
        obtain ⟨rfl, -⟩ := Prod.mk.inj (Except.ok.inj hcommitted)
        refine ⟨instruction, made, loaded, hdecode, rfl, hplan, ?_⟩
        rw [← heffects]
        exact (Prod.mk.inj hstate).1.symm

/-- An instruction that makes no access retires with the effects of its plan. -/
theorem step_of_plan {regs : RegisterFile} {memory middle : UnitMemory} {word : Word}
    {instruction : Instruction} {made : Plan}
    (hfetch : memory.fetch regs.pc = .ok (.ok word, middle))
    (hdecode : decode word = .ok instruction) (hplan : plan instruction regs = .ok made)
    (hnone : made.accesses = []) :
    step regs memory = .ok (.retired regs.pc word instruction.group instruction.mnemonic,
      made.effects.applyTo regs, middle) := by
  have hexecute : execute instruction regs middle = .ok (.ok made.effects, middle) := by
    rw [execute, hplan]
    exact Plan.perform_of_accesses_eq_nil hnone middle
  have hcommit : commitStores made.effects.stores middle = .ok middle := by
    rw [List.map_eq_nil_iff.1 (List.append_eq_nil_iff.1 hnone).2]
    rfl
  exact step_of_execute hfetch hdecode hexecute hcommit

namespace Plan

theorem applyTo_result {w : Nat} (regs : RegisterFile) (reg : Nat) (value : BitVec w) :
    (result regs reg value).effects.applyTo regs =
      (regs.setGpr reg (value.setWidth 64)).setPc (regs.pc + 4) := rfl

theorem applyTo_branch (regs : RegisterFile) (taken : Bool) (target : Doubleword) :
    (branch regs taken target).effects.applyTo regs =
      regs.setPc (if taken then target else regs.pc + 4) := by
  cases taken <;> rfl

end Plan

end A64Machine
