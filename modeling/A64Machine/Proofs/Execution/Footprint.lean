import A64Machine.Execution.Step
import A64Machine.Proofs.Memory.Reports

/-!
What execution leaves alone.  Everything that an instruction does to the memory of its unit is done
by accesses, which change neither the make of the chain of caches nor what was reported about
programs.
-/

namespace A64Machine

namespace UnitMemory

def programEvents (memory : UnitMemory) : List Event :=
  memory.events.toList.filter Event.ofProgram

/-- What was reported about programs, after more events about them. -/
theorem programEvents_eq_append {memory after : UnitMemory} {events : List Event}
    (hevents : after.events = memory.events.appendList events)
    (hprogram : events.all Event.ofProgram = true) :
    after.programEvents = memory.programEvents ++ events := by
  have hall := List.filter_eq_self.mpr (List.all_eq_true.mp hprogram)
  rw [programEvents, hevents, Array.appendList_eq_append, Array.toList_appendList,
    List.filter_append, hall]
  rfl

/-- Whether a memory can have become another one by accesses. -/
structure Accessed (memory after : UnitMemory) : Prop where
  depth_eq : after.hierarchy.depth = memory.hierarchy.depth
  events_eq : after.programEvents = memory.programEvents

theorem Accessed.refl (memory : UnitMemory) : memory.Accessed memory := ⟨rfl, rfl⟩

theorem Accessed.trans {memory middle after : UnitMemory} (hfirst : memory.Accessed middle)
    (hsecond : middle.Accessed after) : memory.Accessed after :=
  ⟨hsecond.depth_eq.trans hfirst.depth_eq, hsecond.events_eq.trans hfirst.events_eq⟩

theorem filter_appendList (events : Array Event) {more : List Event}
    (hquiet : ∀ event ∈ more, event.ofProgram = false) :
    (events.appendList more).toList.filter Event.ofProgram =
      events.toList.filter Event.ofProgram := by
  have hnone : more.filter Event.ofProgram = [] := by
    rw [List.filter_eq_nil_iff]
    intro event hevent
    rw [hquiet event hevent]
    exact Bool.false_ne_true
  simp [hnone]

variable {memory after : UnitMemory}

theorem onHierarchy_accessed {α : Type} {call : Memory → Except Violation (Reply Memory α)}
    (haccess : ∀ reply, call memory.hierarchy = .ok reply → reply.AccessOf memory.hierarchy)
    {value : α} (hcall : memory.onHierarchy call = .ok (value, after)) : memory.Accessed after := by
  obtain ⟨reply, hreply, hlast⟩ := bind_eq_ok hcall
  obtain ⟨-, rfl⟩ := Prod.mk.inj (Except.ok.inj hlast)
  exact ⟨(haccess reply hreply).depth_eq, filter_appendList _ (haccess reply hreply).quiet⟩

theorem onStack_accessed {α : Type} {call : Ram → Except Violation (Reply Ram α)}
    (hquiet : ∀ reply, call memory.stack = .ok reply →
      ∀ event ∈ reply.events, event.ofProgram = false)
    {value : α} (hcall : memory.onStack call = .ok (value, after)) : memory.Accessed after := by
  obtain ⟨reply, hreply, hlast⟩ := bind_eq_ok hcall
  obtain ⟨-, rfl⟩ := Prod.mk.inj (Except.ok.inj hlast)
  exact ⟨rfl, filter_appendList _ (hquiet reply hreply)⟩

theorem readWord_accessed {location : Location} {word : Word}
    (hread : memory.readWord location = .ok (word, after)) : memory.Accessed after := by
  unfold readWord at hread
  split at hread
  · exact onStack_accessed (fun _ => Ram.read_quiet) hread
  · exact onHierarchy_accessed (fun _ => Memory.read_accessOf) hread

theorem writeWord_accessed {location : Location} {value : Word} {answer : Unit}
    (hwrite : memory.writeWord location value = .ok (answer, after)) : memory.Accessed after := by
  unfold writeWord at hwrite
  split at hwrite
  · exact onStack_accessed (fun _ => Ram.write_quiet) hwrite
  · exact onHierarchy_accessed (fun _ => Memory.write_accessOf) hwrite

theorem fetch_accessed {pc : Doubleword} {answer : Except FaultCode Word}
    (hfetch : memory.fetch pc = .ok (answer, after)) : memory.Accessed after := by
  unfold fetch at hfetch
  split at hfetch
  · obtain ⟨-, rfl⟩ := Prod.mk.inj (Except.ok.inj hfetch)
    exact .refl memory
  split at hfetch
  · obtain ⟨-, rfl⟩ := Prod.mk.inj (Except.ok.inj hfetch)
    exact .refl memory
  obtain ⟨⟨word, middle⟩, hread, hlast⟩ := bind_eq_ok hfetch
  obtain ⟨-, rfl⟩ := Prod.mk.inj (Except.ok.inj hlast)
  exact onHierarchy_accessed (fun _ => Memory.read_accessOf) hread

theorem load_accessed {address : Doubleword} {bytes : Nat} {answer : Except FaultCode Doubleword}
    (hload : memory.load address bytes = .ok (answer, after)) : memory.Accessed after := by
  unfold load at hload
  split at hload
  · obtain ⟨-, rfl⟩ := Prod.mk.inj (Except.ok.inj hload)
    exact .refl memory
  obtain ⟨⟨low, middle⟩, hlow, hrest⟩ := bind_eq_ok hload
  simp only at hrest
  split at hrest
  · obtain ⟨-, rfl⟩ := Prod.mk.inj (Except.ok.inj hrest)
    exact readWord_accessed hlow
  obtain ⟨⟨high, last⟩, hhigh, hlast⟩ := bind_eq_ok hrest
  obtain ⟨-, rfl⟩ := Prod.mk.inj (Except.ok.inj hlast)
  exact (readWord_accessed hlow).trans (readWord_accessed hhigh)

theorem store_accessed {address : Doubleword} {bytes : Nat} {value : Doubleword}
    (hstore : memory.store address bytes value = .ok after) : memory.Accessed after := by
  unfold store at hstore
  split at hstore
  · contradiction
  obtain ⟨⟨_, middle⟩, hlow, hrest⟩ := bind_eq_ok hstore
  simp only at hrest
  split at hrest
  · obtain rfl := Except.ok.inj hrest
    exact writeWord_accessed hlow
  obtain ⟨⟨_, last⟩, hhigh, hlast⟩ := bind_eq_ok hrest
  obtain rfl := Except.ok.inj hlast
  exact (writeWord_accessed hlow).trans (writeWord_accessed hhigh)

theorem loadLines_accessed (image : List Word) (lines : List Nat) (memory : UnitMemory) :
    memory.Accessed (loadLines image lines memory).2 := by
  induction lines generalizing memory with
  | nil => exact .refl memory
  | cons line rest ih =>
    rw [loadLines]
    split
    · exact .refl memory
    next middle hwrite =>
      exact (onHierarchy_accessed (fun _ => Memory.writeBlock_accessOf) hwrite).trans (ih _)

theorem loadImage_accessed {image : List Word} {answer : Except Violation Unit}
    (hload : memory.loadImage image = (answer, after)) : memory.Accessed after := by
  have hlines := loadLines_accessed image
    (List.range ((image.length + lineSize - 1) / lineSize)) memory
  rwa [← UnitMemory.loadImage, hload] at hlines

theorem resetStack_accessed (hreset : memory.resetStack = .ok after) : memory.Accessed after := by
  obtain ⟨⟨_, middle⟩, hwrite, hlast⟩ := bind_eq_ok hreset
  obtain rfl := Except.ok.inj hlast
  exact onStack_accessed (fun _ => Ram.writeBlock_quiet) hwrite

theorem performLoads_accessed {loads : List LoadRequest}
    {answer : Except FaultCode (List RegisterWrite)}
    (hloads : performLoads loads memory = .ok (answer, after)) : memory.Accessed after := by
  induction loads generalizing memory answer with
  | nil =>
    obtain ⟨-, rfl⟩ := Prod.mk.inj (Except.ok.inj hloads)
    exact .refl memory
  | cons request rest ih =>
    obtain ⟨⟨first, middle⟩, hfirst, hrest⟩ := bind_eq_ok hloads
    cases first with
    | error cause =>
      obtain ⟨-, rfl⟩ := Prod.mk.inj (Except.ok.inj hrest)
      exact load_accessed hfirst
    | ok value =>
      obtain ⟨⟨loaded, last⟩, hloaded, hlast⟩ := bind_eq_ok hrest
      cases loaded with
      | error cause =>
        obtain ⟨-, rfl⟩ := Prod.mk.inj (Except.ok.inj hlast)
        exact (load_accessed hfirst).trans (ih hloaded)
      | ok writes =>
        obtain ⟨-, rfl⟩ := Prod.mk.inj (Except.ok.inj hlast)
        exact (load_accessed hfirst).trans (ih hloaded)

theorem execute_accessed {instruction : Instruction} {regs : RegisterFile}
    {answer : Except FaultCode Effects}
    (hexecute : execute instruction regs memory = .ok (answer, after)) : memory.Accessed after := by
  unfold execute at hexecute
  split at hexecute
  · obtain ⟨-, rfl⟩ := Prod.mk.inj (Except.ok.inj hexecute)
    exact .refl memory
  obtain ⟨⟨loaded, middle⟩, hloads, hrest⟩ := bind_eq_ok hexecute
  cases loaded with
  | error cause =>
    obtain ⟨-, rfl⟩ := Prod.mk.inj (Except.ok.inj hrest)
    exact performLoads_accessed hloads
  | ok writes =>
    simp only at hrest
    split at hrest
    · obtain ⟨-, rfl⟩ := Prod.mk.inj (Except.ok.inj hrest)
      exact performLoads_accessed hloads
    · obtain ⟨-, rfl⟩ := Prod.mk.inj (Except.ok.inj hrest)
      exact performLoads_accessed hloads

theorem commitStores_accessed {stores : List PendingStore}
    (hcommit : commitStores stores memory = .ok after) : memory.Accessed after := by
  induction stores generalizing memory with
  | nil =>
    obtain rfl := Except.ok.inj hcommit
    exact .refl memory
  | cons pending rest ih =>
    obtain ⟨middle, hstore, hrest⟩ := bind_eq_ok hcommit
    exact (store_accessed hstore).trans (ih hrest)

/-- A step makes accesses and nothing else. -/
theorem step_accessed {regs regs' : RegisterFile} {outcome : StepOutcome}
    (hstep : step regs memory = .ok (outcome, regs', after)) : memory.Accessed after := by
  obtain ⟨⟨fetched, middle⟩, hfetch, hrest⟩ := bind_eq_ok hstep
  cases fetched with
  | error cause =>
    obtain ⟨-, hlast⟩ := Prod.mk.inj (Except.ok.inj hrest)
    obtain ⟨-, rfl⟩ := Prod.mk.inj hlast
    exact fetch_accessed hfetch
  | ok word =>
    simp only at hrest
    split at hrest
    · obtain ⟨-, hlast⟩ := Prod.mk.inj (Except.ok.inj hrest)
      obtain ⟨-, rfl⟩ := Prod.mk.inj hlast
      exact fetch_accessed hfetch
    next instruction hdecode =>
      obtain ⟨⟨answer, executed⟩, hexecute, hlast⟩ := bind_eq_ok hrest
      have hdone := (fetch_accessed hfetch).trans (execute_accessed hexecute)
      cases answer with
      | error cause =>
        obtain ⟨-, hlast⟩ := Prod.mk.inj (Except.ok.inj hlast)
        obtain ⟨-, rfl⟩ := Prod.mk.inj hlast
        exact hdone
      | ok effects =>
        obtain ⟨⟨committed, final⟩, hcommit, hend⟩ := bind_eq_ok hlast
        obtain ⟨-, hend⟩ := Prod.mk.inj (Except.ok.inj hend)
        obtain ⟨-, rfl⟩ := Prod.mk.inj hend
        obtain ⟨stored, hstores, hcommitted⟩ := bind_eq_ok hcommit
        obtain ⟨-, rfl⟩ := Prod.mk.inj (Except.ok.inj hcommitted)
        exact hdone.trans (commitStores_accessed hstores)

end UnitMemory

end A64Machine
