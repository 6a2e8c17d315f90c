import A64Machine.Execution.Step
import A64Machine.Proofs.Encoding.Decoded
import A64Machine.Proofs.Memory.UnitWords

/-!
The machine over the flat view of memory, and that the machine over caches refines it: a step always
ends, and when the caches agree with RAM it ends as the step of the flat machine does.
-/

namespace A64Machine

/-- The fault of the first of some accesses that has one. -/
def AddressMap.firstFault? (map : AddressMap) (accesses : List Access) : Option FaultCode :=
  accesses.findSome? fun access => map.fault? access.address access.bytes

/-- The fault of an instruction that asks for some accesses or faults before it asks. -/
def AddressMap.requestFault (map : AddressMap) : Except FaultCode (List Access) → Option FaultCode
  | .error cause => some cause
  | .ok accesses => map.firstFault? accesses

/-- The effects of a plan whose loads lead to the register writes `loaded`, when its stores are
mapped. -/
def Plan.checked (plan : Plan) (map : AddressMap) (loaded : List RegisterWrite) :
    Except FaultCode Effects :=
  match map.firstFault? (plan.effects.stores.map PendingStore.access) with
  | some cause => .error cause
  | none => .ok { plan.effects with writes := loaded ++ plan.effects.writes }

namespace UnitWords

def performLoads (words : UnitWords) : List LoadRequest → Except FaultCode (List RegisterWrite)
  | [] => pure []
  | request :: rest => do
    let value ← words.load request.address request.bytes
    (performLoads words rest).map (.data request.reg (request.result value) :: ·)

def perform (words : UnitWords) (plan : Plan) : Except FaultCode Effects := do
  let loaded ← words.performLoads plan.loads
  plan.checked words.map loaded

def execute (words : UnitWords) (instruction : Instruction) (regs : RegisterFile) :
    Except FaultCode Effects := do
  let plan ← plan instruction regs
  words.perform plan

def commitStores (words : UnitWords) (stores : List PendingStore) : UnitWords :=
  stores.foldl (fun words pending => words.store pending.address pending.bytes pending.value) words

/-- The end of a step whose instruction has the given effects or fault. -/
def conclude (words : UnitWords) (regs : RegisterFile) (instruction : Instruction) :
    Except FaultCode Effects → (StepOutcome × RegisterFile) × UnitWords
  | .error cause => ((.faulted regs.pc (some instruction.word) cause, regs), words)
  | .ok effects =>
    ((.retired regs.pc instruction.word instruction.group instruction.mnemonic,
      effects.applyTo regs), words.commitStores effects.stores)

/-- The rest of a step after its fetch. -/
def stepFrom (words : UnitWords) (regs : RegisterFile) :
    Except FaultCode Word → (StepOutcome × RegisterFile) × UnitWords
  | .error cause => ((.faulted regs.pc none cause, regs), words)
  | .ok word =>
    match decode word with
    | .error fault => ((.faulted regs.pc (some word) fault.code, regs), words)
    | .ok instruction => words.conclude regs instruction (words.execute instruction regs)

def step (words : UnitWords) (regs : RegisterFile) : (StepOutcome × RegisterFile) × UnitWords :=
  words.stepFrom regs (words.fetch regs.pc)

end UnitWords

section Step

variable {regs regs' : RegisterFile} {memory middle after final : UnitMemory} {cause : FaultCode}
  {word : Word} {instruction : Instruction} {effects : Effects}

theorem step_of_fetch_fault (hfetch : memory.fetch regs.pc = .ok (.error cause, middle)) :
    step regs memory = .ok (.faulted regs.pc none cause, regs, middle) := by
  simp only [step, hfetch]
  rfl

theorem step_of_decode_fault {fault : DecodeFault}
    (hfetch : memory.fetch regs.pc = .ok (.ok word, middle)) (hdecode : decode word = .error fault) :
    step regs memory = .ok (.faulted regs.pc (some word) fault.code, regs, middle) := by
  simp only [step, hfetch, bind, Except.bind, hdecode]
  rfl

theorem step_of_execute_fault (hfetch : memory.fetch regs.pc = .ok (.ok word, middle))
    (hdecode : decode word = .ok instruction)
    (hexecute : execute instruction regs middle = .ok (.error cause, after)) :
    step regs memory = .ok (.faulted regs.pc (some word) cause, regs, after) := by
  simp only [step, hfetch, bind, Except.bind, hdecode, hexecute]
  rfl

theorem step_of_execute (hfetch : memory.fetch regs.pc = .ok (.ok word, middle))
    (hdecode : decode word = .ok instruction)
    (hexecute : execute instruction regs middle = .ok (.ok effects, after))
    (hcommit : commitStores effects.stores after = .ok final) :
    step regs memory = .ok (.retired regs.pc word instruction.group instruction.mnemonic,
      effects.applyTo regs, final) := by
  simp only [step, hfetch, bind, Except.bind, hdecode, hexecute, commit, hcommit]
  rfl

end Step

namespace UnitMemory

/-- Loads answer as those of the flat view do; the first that is not mapped decides. -/
theorem performLoads_serves (loads : List LoadRequest) {memory : UnitMemory}
    (hformed : memory.WellFormed) (hbytes : ∀ request ∈ loads, 0 < request.bytes) :
    ∃ answer after, performLoads loads memory = .ok (answer, after) ∧
      faultOf answer = memory.map.firstFault? (loads.map LoadRequest.access) ∧
      memory.Serves answer after (memory.words.performLoads loads) memory.words := by
  induction loads generalizing memory with
  | nil => exact ⟨.ok [], memory, rfl, rfl, serves_self hformed _⟩
  | cons request rest ih =>
    obtain ⟨answer, middle, hload, hfault, hserves⟩ :=
      load_serves hformed request.address (hbytes request List.mem_cons_self)
    simp only [List.map_cons, AddressMap.firstFault?, List.findSome?_cons, LoadRequest.access]
    rw [← hfault]
    cases answer with
    | error cause =>
      refine ⟨.error cause, middle, ?_, rfl, hserves.error _⟩
      simp only [performLoads, hload]
      rfl
    | ok value =>
      obtain ⟨loaded, after, hrest, hlater, hserves'⟩ := ih hserves.wellFormed
        fun later hlater => hbytes later (List.mem_cons_of_mem request hlater)
      rw [hserves.map_eq] at hlater
      refine ⟨loaded.map (.data request.reg (request.result value) :: ·), after, ?_, ?_,
        hserves.ok (fun words value =>
          (words.performLoads rest).map (.data request.reg (request.result value) :: ·))
          (hserves'.map (Except.map _))⟩
      · simp only [performLoads, hload, bind, Except.bind, hrest]
        cases loaded <;> rfl
      · rw [← AddressMap.firstFault?, ← hlater]
        cases loaded <;> rfl

theorem probeStores_eq (memory : UnitMemory) (stores : List PendingStore) :
    probeStores memory stores =
      match memory.map.firstFault? (stores.map PendingStore.access) with
      | some cause => .error cause
      | none => .ok () := by
  induction stores with
  | nil => rfl
  | cons pending rest ih =>
    simp only [probeStores, probe, List.map_cons, AddressMap.firstFault?, List.findSome?_cons,
      AddressMap.fault?, PendingStore.access]
    cases memory.map.resolve pending.address pending.bytes with
    | error cause => rfl
    | ok location => exact ih

/-- A plan leads to the effects that it has on the flat view.  Whether it faults depends on the
address map alone, and the stores among its effects are those of the plan. -/
theorem perform_serves (plan : Plan) {memory : UnitMemory} (hformed : memory.WellFormed)
    (hbytes : ∀ access ∈ plan.accesses, 0 < access.bytes) :
    ∃ answer after, plan.perform memory = .ok (answer, after) ∧
      faultOf answer = memory.map.firstFault? plan.accesses ∧
      (∀ effects, answer = .ok effects → effects.stores = plan.effects.stores) ∧
      memory.Serves answer after (memory.words.perform plan) memory.words := by
  have hloads : ∀ request ∈ plan.loads, 0 < request.bytes := fun request hrequest =>
    hbytes request.access (List.mem_append_left _ (List.mem_map_of_mem hrequest))
  obtain ⟨answer, after, hperform, hfault, hserves⟩ := performLoads_serves plan.loads hformed hloads
  have hboth : memory.map.firstFault? plan.accesses = (faultOf answer).or
      (memory.map.firstFault? (plan.effects.stores.map PendingStore.access)) := by
    rw [hfault]
    exact List.findSome?_append
  rw [hboth]
  cases answer with
  | error cause =>
    refine ⟨.error cause, after, ?_, rfl, ?_, hserves.error _⟩
    · simp only [Plan.perform, hperform]
      rfl
    · intro effects heffects
      contradiction
  | ok loaded =>
    have hchecked : plan.perform memory = .ok (plan.checked memory.map loaded, after) := by
      simp only [Plan.perform, hperform, bind, Except.bind, probeStores_eq, hserves.map_eq,
        Plan.checked]
      cases memory.map.firstFault? (plan.effects.stores.map PendingStore.access) <;> rfl
    refine ⟨_, after, hchecked, ?_, ?_, ?_⟩
    · unfold Plan.checked
      cases memory.map.firstFault? (plan.effects.stores.map PendingStore.access) <;> rfl
    · intro effects heffects
      unfold Plan.checked at heffects
      split at heffects
      · contradiction
      · rw [← Except.ok.inj heffects]
    · refine hserves.ok (fun words loaded => plan.checked words.map loaded) ?_
      rw [map_words, hserves.map_eq]
      exact serves_self hserves.wellFormed _

/-- An instruction has the effects that it has on the flat view, and its stores are mapped. -/
theorem execute_serves (instruction : Instruction) (regs : RegisterFile) {memory : UnitMemory}
    (hformed : memory.WellFormed) :
    ∃ answer after, execute instruction regs memory = .ok (answer, after) ∧
      faultOf answer = memory.map.requestFault (instruction.survey regs) ∧
      (∀ effects, answer = .ok effects → ∀ pending ∈ effects.stores,
        0 < pending.bytes ∧ memory.map.fault? pending.address pending.bytes = none) ∧
      memory.Serves answer after (memory.words.execute instruction regs) memory.words := by
  rw [← plan_accesses]
  unfold execute UnitWords.execute
  cases hplan : plan instruction regs with
  | error cause =>
    refine ⟨.error cause, memory, rfl, rfl, ?_, serves_self hformed _⟩
    intro effects heffects
    contradiction
  | ok made =>
    have hbytes : ∀ access ∈ made.accesses, 0 < access.bytes :=
      fun access haccess => Plan.bytes_pos_of_mem_accesses hplan haccess
    obtain ⟨answer, after, hperform, hfault, hstores, hserves⟩ := perform_serves made hformed hbytes
    refine ⟨answer, after, hperform, hfault, ?_, hserves⟩
    intro effects heffects pending hpending
    rw [hstores effects heffects] at hpending
    have hmem : pending.access ∈ made.accesses :=
      List.mem_append_right _ (List.mem_map_of_mem hpending)
    refine ⟨hbytes _ hmem, ?_⟩
    rw [heffects] at hfault
    exact List.findSome?_eq_none_iff.1 hfault.symm pending.access hmem

/-- Stores that are mapped write into the flat view. -/
theorem commitStores_serves (stores : List PendingStore) {memory : UnitMemory}
    (hformed : memory.WellFormed) (hmapped : ∀ pending ∈ stores,
      0 < pending.bytes ∧ memory.map.fault? pending.address pending.bytes = none) :
    ∃ after, commitStores stores memory = .ok after ∧
      memory.Serves () after () (memory.words.commitStores stores) := by
  induction stores generalizing memory with
  | nil => exact ⟨memory, rfl, serves_self hformed _⟩
  | cons pending rest ih =>
    obtain ⟨hbytes, hprobe⟩ := hmapped pending List.mem_cons_self
    obtain ⟨middle, hstore, hserves⟩ := store_serves hformed hbytes pending.value hprobe
    obtain ⟨after, hrest, hafter⟩ := ih hserves.wellFormed fun later hlater => by
      rw [hserves.map_eq]
      exact hmapped later (List.mem_cons_of_mem pending hlater)
    refine ⟨after, ?_, hserves.bind (fun _ words => ((), words.commitStores rest)) hafter⟩
    simp only [commitStores, hstore]
    exact hrest

/-- A step always ends, and it ends as on the flat view. -/
theorem step_serves (regs : RegisterFile) {memory : UnitMemory} (hformed : memory.WellFormed) :
    ∃ outcome regs' after, step regs memory = .ok (outcome, regs', after) ∧
      memory.Serves (outcome, regs') after (memory.words.step regs).1 (memory.words.step regs).2 := by
  obtain ⟨fetched, middle, hfetch, hmiddle⟩ := memory.fetch_serves hformed regs.pc
  have hrest {outcome : StepOutcome} {regs' : RegisterFile} {after : UnitMemory}
      (hserves : middle.Serves (outcome, regs') after (middle.words.stepFrom regs fetched).1
        (middle.words.stepFrom regs fetched).2) :=
    hmiddle.bind (fun fetched words => words.stepFrom regs fetched) hserves
  cases fetched with
  | error cause =>
    exact ⟨_, _, middle, step_of_fetch_fault hfetch, hrest (serves_self hmiddle.wellFormed _)⟩
  | ok word =>
    simp only [UnitWords.stepFrom] at hrest
    cases hdecode : decode word with
    | error fault =>
      simp only [hdecode] at hrest
      exact ⟨_, _, middle, step_of_decode_fault hfetch hdecode,
        hrest (serves_self hmiddle.wellFormed _)⟩
    | ok instruction =>
      simp only [hdecode] at hrest
      obtain ⟨answer, after, hexecute, -, hmapped, hserves⟩ :=
        execute_serves instruction regs hmiddle.wellFormed
      have hword := (decode_eq_ok hdecode).1
      cases answer with
      | error cause =>
        refine ⟨_, _, after, step_of_execute_fault hfetch hdecode hexecute, hrest ?_⟩
        rw [← hword]
        exact hserves.bind (fun answer words => words.conclude regs instruction answer)
          (serves_self hserves.wellFormed _)
      | ok effects =>
        obtain ⟨final, hcommit, hfinal⟩ :=
          commitStores_serves effects.stores hserves.wellFormed fun pending hpending => by
            rw [hserves.map_eq]
            exact hmapped effects rfl pending hpending
        refine ⟨_, _, final, step_of_execute hfetch hdecode hexecute hcommit, hrest ?_⟩
        rw [← hword]
        exact hserves.bind (fun answer words => words.conclude regs instruction answer)
          (hfinal.map fun _ => (StepOutcome.retired regs.pc instruction.word instruction.group
            instruction.mnemonic, effects.applyTo regs))

end UnitMemory

end A64Machine
