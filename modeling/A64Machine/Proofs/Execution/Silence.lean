import A64Machine.Execution.Step

/-!
Events are reports and nothing else: what a unit's memory answers, and what a step does, depends on
the hierarchy and the stack alone, whatever was reported before.
-/

namespace A64Machine

/-- Two programs whose results look the same, followed by programs that look the same whenever they
start from results that do. -/
theorem map_bind_congr {ε α β γ δ : Type} {first second : Except ε α} {next later : α → Except ε γ}
    (look : α → β) (look' : γ → δ) (hfirst : first.map look = second.map look)
    (hnext : ∀ a b, look a = look b → (next a).map look' = (later b).map look') :
    (first >>= next).map look' = (second >>= later).map look' := by
  cases first with
  | error cause =>
    cases second with
    | error cause' =>
      rw [Except.error.inj hfirst]
      rfl
    | ok b => contradiction
  | ok a =>
    cases second with
    | error cause => contradiction
    | ok b => exact hnext a b (Except.ok.inj hfirst)

theorem exists_of_map_eq {ε α β : Type} {first second : Except ε α} {look : α → β} {a : α}
    (hmap : first.map look = second.map look) (hfirst : first = .ok a) :
    ∃ b, second = .ok b ∧ look a = look b := by
  subst hfirst
  cases second with
  | error cause => contradiction
  | ok b => exact ⟨b, rfl, Except.ok.inj hmap⟩

namespace UnitMemory

/-- A memory without its events. -/
def silent (memory : UnitMemory) : UnitMemory :=
  { memory with events := #[] }

def silently {α : Type} (answer : α × UnitMemory) : α × UnitMemory :=
  (answer.1, answer.2.silent)

theorem eq_of_silently_eq {α : Type} {value value' : α} {memory other : UnitMemory}
    (hlook : silently (value, memory) = silently (value', other)) :
    value = value' ∧ memory.silent = other.silent :=
  Prod.mk.inj hlook

variable {memory other : UnitMemory}

theorem map_of_silent_eq (hsilent : memory.silent = other.silent) : memory.map = other.map := by
  have hmap := congrArg map hsilent
  exact hmap

theorem onHierarchy_silent (hsilent : memory.silent = other.silent) {α : Type}
    (call : Memory → Except Violation (Reply Memory α)) :
    (memory.onHierarchy call).map silently = (other.onHierarchy call).map silently := by
  obtain ⟨hierarchy, stack, events⟩ := memory
  obtain ⟨hierarchy', stack', events'⟩ := other
  obtain ⟨rfl, rfl, -⟩ := UnitMemory.mk.inj hsilent
  unfold onHierarchy
  cases call hierarchy with
  | error violation => rfl
  | ok reply => rfl

theorem onStack_silent (hsilent : memory.silent = other.silent) {α : Type}
    (call : Ram → Except Violation (Reply Ram α)) :
    (memory.onStack call).map silently = (other.onStack call).map silently := by
  obtain ⟨hierarchy, stack, events⟩ := memory
  obtain ⟨hierarchy', stack', events'⟩ := other
  obtain ⟨rfl, rfl, -⟩ := UnitMemory.mk.inj hsilent
  unfold onStack
  cases call stack with
  | error violation => rfl
  | ok reply => rfl

theorem readWord_silent (hsilent : memory.silent = other.silent) (location : Location) :
    (memory.readWord location).map silently = (other.readWord location).map silently := by
  unfold readWord
  cases location.region with
  | stack => exact onStack_silent hsilent _
  | hierarchy => exact onHierarchy_silent hsilent _

theorem writeWord_silent (hsilent : memory.silent = other.silent) (location : Location)
    (value : Word) :
    (memory.writeWord location value).map silently =
      (other.writeWord location value).map silently := by
  unfold writeWord
  cases location.region with
  | stack => exact onStack_silent hsilent _
  | hierarchy => exact onHierarchy_silent hsilent _

/-- An answer that leaves the memory as it is. -/
theorem pure_silent (hsilent : memory.silent = other.silent) {α : Type} (value : α) :
    (pure (value, memory) : Except Violation (α × UnitMemory)).map silently =
      (pure (value, other) : Except Violation (α × UnitMemory)).map silently :=
  congrArg (fun rest => Except.ok (value, rest)) hsilent

theorem fetch_silent (hsilent : memory.silent = other.silent) (pc : Doubleword) :
    (memory.fetch pc).map silently = (other.fetch pc).map silently := by
  have hsize : memory.hierarchy.size = other.hierarchy.size :=
    congrArg AddressMap.hierarchyWords (map_of_silent_eq hsilent)
  unfold fetch
  rw [hsize]
  split
  · exact pure_silent hsilent _
  split
  · exact pure_silent hsilent _
  refine map_bind_congr silently silently (onHierarchy_silent hsilent _) ?_
  intro ⟨word, after⟩ ⟨word', after'⟩ hlook
  obtain ⟨rfl, hafter⟩ := eq_of_silently_eq hlook
  exact pure_silent hafter _

theorem load_silent (hsilent : memory.silent = other.silent) (address : Doubleword)
    (bytes : Nat) : (memory.load address bytes).map silently =
      (other.load address bytes).map silently := by
  unfold load
  rw [map_of_silent_eq hsilent]
  cases other.map.resolve address bytes with
  | error cause => exact pure_silent hsilent _
  | ok location =>
    refine map_bind_congr silently silently (readWord_silent hsilent location) ?_
    intro ⟨low, after⟩ ⟨low', after'⟩ hlook
    obtain ⟨rfl, hafter⟩ := eq_of_silently_eq hlook
    simp only
    split
    · exact pure_silent hafter _
    · refine map_bind_congr silently silently (readWord_silent hafter _) ?_
      intro ⟨high, last⟩ ⟨high', last'⟩ hlook'
      obtain ⟨rfl, hlast⟩ := eq_of_silently_eq hlook'
      exact pure_silent hlast _

theorem store_silent (hsilent : memory.silent = other.silent) (address : Doubleword)
    (bytes : Nat) (value : Doubleword) :
    (memory.store address bytes value).map silent = (other.store address bytes value).map silent := by
  unfold store
  rw [map_of_silent_eq hsilent]
  cases other.map.resolve address bytes with
  | error cause => rfl
  | ok location =>
    refine map_bind_congr silently silent (writeWord_silent hsilent location _) ?_
    intro ⟨_, after⟩ ⟨_, after'⟩ hlook
    obtain ⟨-, hafter⟩ := eq_of_silently_eq hlook
    simp only
    split
    · exact congrArg Except.ok hafter
    · refine map_bind_congr silently silent (writeWord_silent hafter _ _) ?_
      intro ⟨_, last⟩ ⟨_, last'⟩ hlook'
      obtain ⟨-, hlast⟩ := eq_of_silently_eq hlook'
      exact congrArg Except.ok hlast

theorem loadLines_silent (image : List Word) (lines : List Nat)
    (hsilent : memory.silent = other.silent) :
    (loadLines image lines memory).1 = (loadLines image lines other).1 ∧
      (loadLines image lines memory).2.silent = (loadLines image lines other).2.silent := by
  induction lines generalizing memory other with
  | nil => exact ⟨rfl, hsilent⟩
  | cons line rest ih =>
    have hcall := onHierarchy_silent hsilent
      (·.writeBlock (line * lineSize) ((image.drop (line * lineSize)).take lineSize))
    simp only [loadLines]
    revert hcall
    cases memory.onHierarchy
      (·.writeBlock (line * lineSize) ((image.drop (line * lineSize)).take lineSize)) with
    | error violation =>
      cases other.onHierarchy
        (·.writeBlock (line * lineSize) ((image.drop (line * lineSize)).take lineSize)) with
      | error violation' =>
        intro hcall
        exact ⟨congrArg Except.error (Except.error.inj hcall), hsilent⟩
      | ok written =>
        intro hcall
        contradiction
    | ok written =>
      cases other.onHierarchy
        (·.writeBlock (line * lineSize) ((image.drop (line * lineSize)).take lineSize)) with
      | error violation =>
        intro hcall
        contradiction
      | ok written' =>
        intro hcall
        exact ih (eq_of_silently_eq (Except.ok.inj hcall)).2

theorem resetStack_silent (hsilent : memory.silent = other.silent) :
    memory.resetStack.map silent = other.resetStack.map silent := by
  have hsize : memory.stack.size = other.stack.size :=
    congrArg AddressMap.stackWords (map_of_silent_eq hsilent)
  unfold resetStack
  rw [hsize]
  refine map_bind_congr silently silent (onStack_silent hsilent _) ?_
  intro ⟨_, after⟩ ⟨_, after'⟩ hlook
  exact congrArg Except.ok (eq_of_silently_eq hlook).2

theorem performLoads_silent (loads : List LoadRequest) (hsilent : memory.silent = other.silent) :
    (performLoads loads memory).map silently = (performLoads loads other).map silently := by
  induction loads generalizing memory other with
  | nil => exact pure_silent hsilent _
  | cons request rest ih =>
    refine map_bind_congr silently silently (load_silent hsilent _ _) ?_
    intro ⟨answer, after⟩ ⟨answer', after'⟩ hlook
    obtain ⟨rfl, hafter⟩ := eq_of_silently_eq hlook
    cases answer with
    | error cause => exact pure_silent hafter _
    | ok value =>
      refine map_bind_congr silently silently (ih hafter) ?_
      intro ⟨loaded, last⟩ ⟨loaded', last'⟩ hlook'
      obtain ⟨rfl, hlast⟩ := eq_of_silently_eq hlook'
      cases loaded with
      | error cause => exact pure_silent hlast _
      | ok writes => exact pure_silent hlast _

theorem probeStores_silent (stores : List PendingStore) (hsilent : memory.silent = other.silent) :
    probeStores memory stores = probeStores other stores := by
  induction stores with
  | nil => rfl
  | cons pending rest ih => simp only [probeStores, probe, map_of_silent_eq hsilent, ih]

theorem perform_silent (plan : Plan) (hsilent : memory.silent = other.silent) :
    (plan.perform memory).map silently = (plan.perform other).map silently := by
  refine map_bind_congr silently silently (performLoads_silent plan.loads hsilent) ?_
  intro ⟨loaded, after⟩ ⟨loaded', after'⟩ hlook
  obtain ⟨rfl, hafter⟩ := eq_of_silently_eq hlook
  cases loaded with
  | error cause => exact pure_silent hafter _
  | ok writes =>
    simp only [probeStores_silent plan.effects.stores hafter]
    cases probeStores after' plan.effects.stores with
    | error cause => exact pure_silent hafter _
    | ok _ => exact pure_silent hafter _

theorem execute_silent (instruction : Instruction) (regs : RegisterFile)
    (hsilent : memory.silent = other.silent) :
    (execute instruction regs memory).map silently =
      (execute instruction regs other).map silently := by
  unfold execute
  cases plan instruction regs with
  | error cause => exact pure_silent hsilent _
  | ok plan => exact perform_silent plan hsilent

theorem commitStores_silent (stores : List PendingStore) (hsilent : memory.silent = other.silent) :
    (commitStores stores memory).map silent = (commitStores stores other).map silent := by
  induction stores generalizing memory other with
  | nil => exact congrArg Except.ok hsilent
  | cons pending rest ih =>
    refine map_bind_congr silent silent (store_silent hsilent _ _ _) ?_
    intro after after' hafter
    exact ih hafter

/-- How a step ends and the registers after it, without the events of the memory. -/
def stepLook (ended : StepOutcome × RegisterFile × UnitMemory) :
    StepOutcome × RegisterFile × UnitMemory :=
  (ended.1, ended.2.1, ended.2.2.silent)

/-- What was reported before a step makes no difference to it. -/
theorem step_silent (regs : RegisterFile) (hsilent : memory.silent = other.silent) :
    (step regs memory).map stepLook = (step regs other).map stepLook := by
  have hstay {memory other : UnitMemory} (hsilent : memory.silent = other.silent)
      (outcome : StepOutcome) (regs : RegisterFile) :
      (Except.ok (outcome, regs, memory) : Except Violation _).map stepLook =
        (Except.ok (outcome, regs, other) : Except Violation _).map stepLook :=
    congrArg (fun rest => Except.ok (outcome, regs, rest)) hsilent
  refine map_bind_congr silently stepLook (fetch_silent hsilent regs.pc) ?_
  intro ⟨fetched, after⟩ ⟨fetched', after'⟩ hlook
  obtain ⟨rfl, hafter⟩ := eq_of_silently_eq hlook
  cases fetched with
  | error cause => exact hstay hafter _ _
  | ok word =>
    simp only
    cases decode word with
    | error fault => exact hstay hafter _ _
    | ok instruction =>
      refine map_bind_congr silently stepLook (execute_silent instruction regs hafter) ?_
      intro ⟨answer, done⟩ ⟨answer', done'⟩ hlook'
      obtain ⟨rfl, hdone⟩ := eq_of_silently_eq hlook'
      cases answer with
      | error cause => exact hstay hdone _ _
      | ok effects =>
        simp only [commit]
        refine map_bind_congr (fun ended => (ended.1, ended.2.silent)) stepLook ?_ ?_
        · refine map_bind_congr silent _ (commitStores_silent effects.stores hdone) ?_
          intro last last' hlast
          exact congrArg (fun rest => Except.ok (effects.applyTo regs, rest)) hlast
        · intro ⟨committed, last⟩ ⟨committed', last'⟩ hlook''
          obtain ⟨rfl, hlast⟩ := Prod.mk.inj hlook''
          exact hstay hlast _ _

end UnitMemory

end A64Machine
