import A64Machine.Proofs.Cpu.Construction
import A64Machine.Proofs.Cpu.Validation
import A64Machine.Proofs.Execution.Footprint
import A64Machine.Proofs.Memory.UnitWords

/-!
The first unit of a CPU.  Building puts the three caches of the first unit directly on RAM, before
any others, and what is built after it is newer.  So the first unit keeps its part of the hierarchy,
and a call on it changes that part and nothing else.
-/

namespace A64Machine

namespace Cpu

def programEvents (cpu : Cpu) : List Event :=
  cpu.events.toList.filter Event.ofProgram

theorem programEvents_of_build {config : CpuConfig} {cpu : Cpu} (hbuild : build config = .ok cpu) :
    cpu.programEvents = [] := by
  rw [programEvents, (new_of_build hbuild).events_eq, List.filter_eq_nil_iff]
  intro event hmem
  rw [CpuConfig.ofProgram_of_mem_constructions hmem]
  exact Bool.false_ne_true

variable {cpu added : Cpu}

theorem exists_range_eq_cons {count : Nat} (hpositive : 0 < count) :
    ∃ others, List.range count = 0 :: others := by
  obtain ⟨more, hmore⟩ := Nat.exists_eq_succ_of_ne_zero (Nat.ne_of_gt hpositive)
  rw [hmore, List.range_succ_eq_map]
  exact ⟨_, rfl⟩

/-- The first unit is the first thing that is added, and it stays at its place. -/
theorem addModules_first {config : CpuConfig} {behind : Nat} {rest : List Nat}
    (hl3 : cpu.hierarchy.HasCache "L3" cpu.l3 behind)
    (hthreads : 0 < config.threadsPerCore.toNat)
    (hadd : addModules config (0 :: rest) cpu = .ok added) (hnone : cpu.modules.toList = []) :
    ∃ l2 cached core filled events modules,
      cpu.addCache "L2[0]" config.l2Size.toNat cpu.l3 = .ok (l2, cached) ∧
      cached.addCore 0 config.l1Size.toNat config.privateSize.toNat l2 = .ok (core, filled) ∧
      filled.Adds events modules added ∧ added.core? 0 0 = some core := by
  obtain ⟨units, hunits⟩ : ∃ units, unitIndices config.threadsPerCore.toNat 0 = 0 :: units := by
    obtain ⟨others, hothers⟩ := exists_range_eq_cons hthreads
    rw [unitIndices, hothers, List.map_cons, Nat.zero_mul]
    exact ⟨_, rfl⟩
  obtain ⟨l2, cached, cores, done, hcache, hcores, hrest⟩ := addModules_cons_eq_ok hadd
  obtain ⟨hmodule, -⟩ := addModule_adds hl3 hcache hcores
  obtain ⟨others, hgrown, -⟩ := addModules_adds (hmodule.hasCache_l3 hl3) hrest
  rw [hunits] at hcores
  obtain ⟨core, filled, hcore, hmore⟩ := addCores_cons_eq_ok hcores
  obtain ⟨-, hl2⟩ := addCache_adds hl3.name_eq hcache
  obtain ⟨hfilled, -⟩ := addCore_adds hl2.name_eq hcore
  obtain ⟨hdone, more, hcores_eq, -⟩ := addCores_adds (hfilled.hasCache hl2) hmore
  refine ⟨l2, cached, core, filled, _, _, hcache, hcore, (hdone.push _).trans hgrown, ?_⟩
  have hfirst : added.modules[0]? = some { index := 0, l2, cores } := by
    rw [← Array.getElem?_toList, (hmodule.trans hgrown).modules_eq, hnone]
    rfl
  have hcore : cores[0]? = some core := by
    rw [← Array.getElem?_toList, hcores_eq]
    rfl
  rw [core?, hfirst]
  exact hcore

end Cpu

theorem CpuConfig.positive_of_validate {config : CpuConfig} (hvalid : config.validate = .ok ()) :
    0 < config.cores.toNat ∧ 0 < config.threadsPerCore.toNat := by
  obtain ⟨hpositive, -⟩ := validate_eq_ok_iff.1 hvalid
  have hpos (count : UInt32) (hextent : 0 < count.toUInt64) : 0 < count.toNat := by
    rw [UInt64.lt_iff_toNat_lt, UInt32.toNat_toUInt64] at hextent
    exact hextent
  exact ⟨hpos _ (hpositive .cores), hpos _ (hpositive .threadsPerCore)⟩

namespace Cpu

variable {cpu : Cpu}

/-- The unit that a CPU has first, with the part of the hierarchy that it stands on. -/
structure FirstUnit (cpu : Cpu) (unit : ExecutionUnit) : Prop where
  chain : ∃ newer l1 l2 l3 store,
    cpu.hierarchy.levels = newer ++ [.cache l1 0, .cache l2 0, .cache l3 0, .ram store] ∧
      unit.memory.hierarchy = .cache l1 (.cache l2 (.cache l3 (.ram store)))
  core_eq : cpu.core? 0 0 = some { l1 := 3, stack := unit.memory.stack, worker := unit.worker }
  ram_eq : cpu.ram = 0
  events_eq : unit.memory.events = cpu.events

/-- Building comes to the first unit before any other one. -/
theorem firstUnit_of_build {config : CpuConfig} (hbuild : build config = .ok cpu) :
    ∃ unit, cpu.FirstUnit unit ∧ unit.worker = { index := 0 } ∧
      unit.memory.WellFormed ∧ unit.memory.Coherent ∧
      unit.memory.words = ⟨Array.replicate config.privateSize.toNat 0,
        Array.replicate config.ramSize.toNat 0⟩ ∧
      unit.memory.programEvents = [] := by
  have hevents := programEvents_of_build hbuild
  obtain ⟨ram, started, l3, cached, grown, hvalid, hram, hl3, hmodules, rfl⟩ := build_eq_ok hbuild
  obtain ⟨hcores, hthreads⟩ := CpuConfig.positive_of_validate hvalid
  obtain ⟨others, hothers⟩ := exists_range_eq_cons hcores
  rw [hothers] at hmodules
  obtain ⟨-, rfl, rfl⟩ := addRam_eq_ok hram
  obtain ⟨hcached, hfront⟩ := addCache_adds (show _ = some "RAM" from rfl) hl3
  obtain ⟨l2, middle, core, filled, _, _, hl2, hcore, hgrown, hfirst⟩ :=
    addModules_first hfront hthreads hmodules hcached.modules_eq
  -- The levels of the hierarchy when the first unit is complete: RAM and the three caches on it.
  obtain ⟨front3, hbuild3, rfl, rfl⟩ := addCache_eq_ok hl3
  obtain ⟨front2, hbuild2, rfl, rfl⟩ := addCache_eq_ok hl2
  obtain ⟨_, hl1, hstack, hworker, rfl⟩ := addCore_eq_ok hcore
  obtain ⟨front1, hbuild1, hlevel, rfl⟩ := addCache_eq_ok hl1
  obtain ⟨newer, hnewer⟩ := hgrown.levels
  obtain ⟨hfits3, hempty3⟩ := Cache.build_eq_ok hbuild3
  obtain ⟨hfits2, hempty2⟩ := Cache.build_eq_ok hbuild2
  obtain ⟨hfits1, hempty1⟩ := Cache.build_eq_ok hbuild1
  let store := Ram.zeroed "RAM" config.ramSize.toNat
  let memory : Memory := .cache front1 (.cache front2 (.cache front3 (.ram store)))
  have hcore : core = { l1 := 3, stack := core.stack, worker := { index := 0 } } := by
    obtain ⟨l1, stack, worker⟩ := core
    obtain rfl : worker = { index := 0 } := hworker
    obtain rfl : l1 = 3 := hlevel
    rfl
  refine ⟨⟨{ index := 0 }, ⟨memory, core.stack, _⟩⟩, ?_, rfl, ?_, ?_, ?_, hevents⟩
  · exact ⟨⟨newer, front1, front2, front3, store, hnewer, rfl⟩, hfirst.trans (congrArg some hcore),
      hgrown.ram_eq, rfl⟩
  · exact ⟨hfits1, hfits2, hfits3, trivial⟩
  · exact ⟨Cache.mirrors_of_empty _ hempty1, Cache.mirrors_of_empty _ hempty2,
      Cache.mirrors_of_empty _ hempty3, trivial⟩
  · rw [UnitMemory.words, hstack]
    rfl

def withFirst (cpu : Cpu) (unit : ExecutionUnit) : Cpu :=
  { cpu.setCore 0 0 { l1 := 3, stack := unit.memory.stack, worker := unit.worker } with
    hierarchy := cpu.hierarchy.replace 3 unit.memory.hierarchy
    events := unit.memory.events }

theorem exists_of_depth_succ {memory : Memory} {depth : Nat} (hdepth : memory.depth = depth + 1) :
    ∃ front backing, memory = .cache front backing ∧ backing.depth = depth := by
  cases memory with
  | ram store => contradiction
  | cache front backing => exact ⟨front, backing, rfl, Nat.succ.inj hdepth⟩

theorem exists_of_depth_zero {memory : Memory} (hdepth : memory.depth = 0) :
    ∃ store, memory = .ram store := by
  cases memory with
  | ram store => exact ⟨store, rfl⟩
  | cache front backing => contradiction

theorem core?_setCore {index thread : Nat} {core : Core}
    (hcore : cpu.core? index thread = some core) (after : Core) :
    (cpu.setCore index thread after).core? index thread = some after := by
  obtain ⟨m, hm, hthread⟩ := Option.bind_eq_some_iff.mp hcore
  have hlt : thread < m.cores.size := (Array.getElem?_eq_some_iff.mp hthread).1
  simp [core?, setCore, Array.getElem?_modify, hm, hlt]

namespace FirstUnit

variable {unit after : ExecutionUnit}

theorem depth_eq (hfirst : cpu.FirstUnit unit) : unit.memory.hierarchy.depth = 3 := by
  obtain ⟨newer, l1, l2, l3, store, -, hchain⟩ := hfirst.chain
  rw [hchain]
  rfl

theorem hierarchy_eq (hfirst : cpu.FirstUnit unit) :
    cpu.hierarchy.memory 3 = unit.memory.hierarchy := by
  obtain ⟨newer, l1, l2, l3, store, hlevels, hchain⟩ := hfirst.chain
  have hhierarchy : cpu.hierarchy = ⟨newer ++ _⟩ := congrArg Hierarchy.mk hlevels
  rw [hhierarchy, hchain]
  apply Hierarchy.memory_eq
  exact Hierarchy.memory?_append newer (Nat.lt_succ_self 3)

theorem ramWords_eq (hfirst : cpu.FirstUnit unit) :
    (cpu.hierarchy.memory cpu.ram).ramWords = unit.memory.words.ram := by
  obtain ⟨newer, l1, l2, l3, store, hlevels, hchain⟩ := hfirst.chain
  have hhierarchy : cpu.hierarchy = ⟨newer ++ _⟩ := congrArg Hierarchy.mk hlevels
  have hram : cpu.hierarchy.memory 0 = .ram store := by
    rw [hhierarchy]
    apply Hierarchy.memory_eq
    exact Hierarchy.memory?_append newer (Nat.zero_lt_succ 3)
  rw [hfirst.ram_eq, hram, UnitMemory.words, hchain]
  rfl

/-- A unit with as many caches takes the place of the first one. -/
theorem withFirst (hfirst : cpu.FirstUnit unit) (hdepth : after.memory.hierarchy.depth = 3) :
    (cpu.withFirst after).FirstUnit after := by
  refine ⟨?_, core?_setCore hfirst.core_eq _, hfirst.ram_eq, rfl⟩
  obtain ⟨newer, l1, l2, l3, store, hlevels, -⟩ := hfirst.chain
  obtain ⟨l1, _, hchain, hrest⟩ := exists_of_depth_succ hdepth
  obtain ⟨l2, _, rfl, hrest'⟩ := exists_of_depth_succ hrest
  obtain ⟨l3, _, rfl, hlast⟩ := exists_of_depth_succ hrest'
  obtain ⟨store, rfl⟩ := exists_of_depth_zero hlast
  have hhierarchy : cpu.hierarchy = ⟨newer ++ _⟩ := congrArg Hierarchy.mk hlevels
  refine ⟨newer, l1, l2, l3, store, ?_, hchain⟩
  rw [Cpu.withFirst, hchain, hhierarchy, Hierarchy.replace_append newer (Nat.lt_succ_self 3)]
  rfl

/-- A call on the first unit is a call on the unit alone, which is put back where it was. -/
theorem onUnit_eq (hfirst : cpu.FirstUnit unit) {α : Type}
    (call : ExecutionUnit → Except Violation (α × ExecutionUnit)) :
    cpu.onUnit 0 0 call = (do
      let (value, after) ← call unit
      pure (some value, cpu.withFirst after)) := by
  have hjoined : unit = { worker := unit.worker, memory :=
      { hierarchy := cpu.hierarchy.memory 3, stack := unit.memory.stack,
        events := cpu.events } } := by
    rw [hfirst.hierarchy_eq, ← hfirst.events_eq]
  rw [Cpu.onUnit, hfirst.core_eq]
  simp only [← hjoined]
  rfl

end FirstUnit

end Cpu

end A64Machine
