import Mathlib.Data.List.Forall2
import A64Machine.Cpu.Topology
import A64Machine.Proofs.Memory.Residency
import A64Machine.Proofs.Memory.Traffic

/-!
How a CPU is built.  Caches, cores and modules are added one after the other, and what is added
leaves everything in place that is there.  One relation says what an addition keeps and what it
brings; the loops over cores and over modules carry it from the bare RAM to the complete CPU.
-/

namespace A64Machine

/-- Newer levels do not move a cache away from the level that it stands in front of. -/
theorem mem_frontsOf_append (newer : List Level) {older : List Level} {number front : Nat}
    (hmem : front ∈ frontsOf older number) : front ∈ frontsOf (newer ++ older) number := by
  induction newer with
  | nil => exact hmem
  | cons level rest ih =>
    cases level with
    | ram store => exact ih
    | cache cache backing =>
      rw [List.cons_append, frontsOf]
      split
      · exact List.mem_cons_of_mem _ ih
      · exact ih

/-- Whether every level of a hierarchy, with the levels behind it, is a chain of caches in front of
a RAM of `size` words. -/
def Hierarchy.Chains (size : Nat) (hierarchy : Hierarchy) : Prop :=
  ∀ number < hierarchy.next, ∃ memory, hierarchy.memory? number = some memory ∧
    memory.Reachable ∧ memory.size = size

namespace Hierarchy

variable {hierarchy : Hierarchy} {name : String} {size front behind : Nat}

theorem chains_addRam (name : String) (size : Nat) :
    (({} : Hierarchy).addRam (.zeroed name size)).Chains size := by
  intro number hlt
  obtain rfl : number = 0 := Nat.lt_one_iff.1 hlt
  exact ⟨.ram (.zeroed name size), rfl, .ram _, Array.size_replicate⟩

/-- A cache that was built for the level behind it. -/
theorem Chains.withFront (hchains : hierarchy.Chains size) (hbehind : behind < hierarchy.next)
    {policy : CachePolicy} {capacity : Nat} {cache : Cache}
    (hbuild : Cache.build name policy capacity (hierarchy.memory behind).size = .ok cache) :
    (hierarchy.withFront cache behind).Chains size := by
  intro number hlt
  rcases Nat.lt_succ_iff_lt_or_eq.1 hlt with hold | rfl
  · rw [memory?_withFront cache behind hold]
    exact hchains number hold
  · obtain ⟨memory, hmemory, hreachable, hsize⟩ := hchains behind hbehind
    rw [memory_eq hmemory] at hbuild
    have hcache : memory.withCache name policy capacity = .ok (.cache cache memory) := by
      rw [Memory.withCache, hbuild]
      rfl
    have hfound := memory?_withFront_next cache hbehind
    rw [hmemory] at hfound
    exact ⟨.cache cache memory, hfound, .cache hreachable hcache, hsize⟩

def name? (hierarchy : Hierarchy) (number : Nat) : Option String :=
  (hierarchy.memory? number).map (·.name)

/-- Whether level `front` is a cache of this name directly in front of level `behind`. -/
structure HasCache (hierarchy : Hierarchy) (name : String) (front behind : Nat) : Prop where
  name_eq : hierarchy.name? front = some name
  mem_frontsOf : front ∈ frontsOf hierarchy.levels behind

theorem HasCache.lt_next (hcache : hierarchy.HasCache name front behind) :
    front < hierarchy.next :=
  lt_of_mem_frontsOf hcache.mem_frontsOf

theorem HasCache.append {older : List Level} (hcache : HasCache ⟨older⟩ name front behind)
    (newer : List Level) : HasCache ⟨newer ++ older⟩ name front behind := by
  refine ⟨?_, mem_frontsOf_append newer hcache.mem_frontsOf⟩
  rw [name?, memory?_append newer hcache.lt_next]
  exact hcache.name_eq

/-- A cache that is added stands in front of the level that it was added to. -/
theorem hasCache_withFront {behindName : String} (hbehind : hierarchy.name? behind = some behindName)
    (cache : Cache) :
    (hierarchy.withFront cache behind).HasCache cache.name hierarchy.next behind := by
  obtain ⟨memory, hmemory, -⟩ := Option.map_eq_some_iff.1 hbehind
  have hlt := lt_next_of_memory? hmemory
  constructor
  · rw [name?, memory?_withFront_next cache hlt, hmemory]
    rfl
  · rw [withFront, frontsOf, if_pos (number_eq hlt).symm]
    exact List.mem_cons_self

end Hierarchy

theorem Cache.name_of_build {name : String} {policy : CachePolicy} {size backing : Nat}
    {cache : Cache} (hbuild : build name policy size backing = .ok cache) : cache.name = name := by
  grind [build]

def Event.newRam (name : String) (size : Nat) : Event :=
  .construction name s!"{size} units"

def Event.newCache (name : String) (size : Nat) (behind : String) : Event :=
  .construction name s!"{size} units in front of {behind}"

def Event.newWorker (index : Nat) : Event :=
  .construction s!"PU[{index}]" "worker started"

theorem Ram.constructed_zeroed (name : String) (size : Nat) :
    (zeroed name size).constructed = .newRam name size := by
  rw [constructed, zeroed, Array.size_replicate]
  rfl

namespace CpuConfig

/-- What the construction of unit `index` reports, which is one of module `place`. -/
def unitConstructions (config : CpuConfig) (place index : Nat) : List Event :=
  [.newCache s!"L1[{index}]" config.l1Size.toNat s!"L2[{place}]",
    .newRam s!"STACK[{index}]" config.privateSize.toNat, .newWorker index]

/-- What the construction of a module reports: its second-level cache, then its units in order. -/
def moduleConstructions (config : CpuConfig) (place : Nat) : List Event :=
  .newCache s!"L2[{place}]" config.l2Size.toNat "L3" ::
    (Cpu.unitIndices config.threadsPerCore.toNat place).flatMap (config.unitConstructions place)

/-- What the construction of a CPU reports, from the bottom up. -/
def constructions (config : CpuConfig) : List Event :=
  .newRam "RAM" config.ramSize.toNat :: .newCache "L3" config.l3Size.toNat "RAM" ::
    (List.range config.cores.toNat).flatMap config.moduleConstructions ++
    [.construction "CPU" s!"{config.cores.toNat} cores x {config.threadsPerCore.toNat} threads"]

variable {config : CpuConfig} {event : Event} {place index : Nat}

theorem ofProgram_of_mem_unitConstructions (hmem : event ∈ config.unitConstructions place index) :
    event.ofProgram = false := by
  simp only [unitConstructions, List.mem_cons, List.not_mem_nil, or_false] at hmem
  rcases hmem with rfl | rfl | rfl <;> rfl

theorem ofProgram_of_mem_moduleConstructions (hmem : event ∈ config.moduleConstructions place) :
    event.ofProgram = false := by
  rcases List.mem_cons.1 hmem with rfl | hmem
  · rfl
  · obtain ⟨index, -, hmem⟩ := List.mem_flatMap.1 hmem
    exact ofProgram_of_mem_unitConstructions hmem

/-- No construction is an event about a program. -/
theorem ofProgram_of_mem_constructions (hmem : event ∈ config.constructions) :
    event.ofProgram = false := by
  simp only [constructions, List.mem_append, List.mem_cons, List.mem_flatMap, List.not_mem_nil,
    or_false] at hmem
  obtain (rfl | rfl | ⟨place, -, hmem⟩) | rfl := hmem
  · rfl
  · rfl
  · exact ofProgram_of_mem_moduleConstructions hmem
  · rfl

end CpuConfig

/-- A core as unit `index` is built in front of level `l2`: its worker has nothing to do, and its
stack is clear. -/
structure Core.NewAt (config : CpuConfig) (hierarchy : Hierarchy) (l2 index : Nat) (core : Core) :
    Prop where
  worker_eq : core.worker = { index }
  stack_eq : core.stack = .zeroed s!"STACK[{index}]" config.privateSize.toNat
  l1 : hierarchy.HasCache s!"L1[{index}]" core.l1 l2

/-- A module as it is built in front of level `l3`, with a core for each of its threads. -/
structure CoreModule.NewAt (config : CpuConfig) (hierarchy : Hierarchy) (l3 index : Nat)
    (m : CoreModule) : Prop where
  index_eq : m.index = index
  l2 : hierarchy.HasCache s!"L2[{index}]" m.l2 l3
  cores : List.Forall₂ (fun unit core => core.NewAt config hierarchy m.l2 unit)
    (Cpu.unitIndices config.threadsPerCore.toNat index) m.cores.toList

namespace Cpu

/-- What adding to a CPU leaves in place, and the events and modules that it adds.  The levels that
are there keep their numbers, and where they were chains, the new ones are chains too. -/
structure Adds (start : Cpu) (events : List Event) (modules : List CoreModule) (cpu : Cpu) :
    Prop where
  levels : ∃ newer, cpu.hierarchy.levels = newer ++ start.hierarchy.levels
  chains (size : Nat) (hchains : start.hierarchy.Chains size) : cpu.hierarchy.Chains size
  events_eq : cpu.events.toList = start.events.toList ++ events
  modules_eq : cpu.modules.toList = start.modules.toList ++ modules
  config_eq : cpu.config = start.config
  ram_eq : cpu.ram = start.ram
  l3_eq : cpu.l3 = start.l3

namespace Adds

variable {start middle cpu : Cpu} {first second events : List Event}
variable {modules modules' : List CoreModule}

theorem refl (cpu : Cpu) : cpu.Adds [] [] cpu :=
  ⟨⟨[], rfl⟩, fun _ => id, (List.append_nil _).symm, (List.append_nil _).symm, rfl, rfl, rfl⟩

theorem trans (hfirst : start.Adds first modules middle)
    (hsecond : middle.Adds second modules' cpu) :
    start.Adds (first ++ second) (modules ++ modules') cpu where
  levels := by
    obtain ⟨newer, hnewer⟩ := hfirst.levels
    obtain ⟨newest, hnewest⟩ := hsecond.levels
    exact ⟨newest ++ newer, by rw [hnewest, hnewer, List.append_assoc]⟩
  chains size hchains := hsecond.chains size (hfirst.chains size hchains)
  events_eq := by rw [hsecond.events_eq, hfirst.events_eq, List.append_assoc]
  modules_eq := by rw [hsecond.modules_eq, hfirst.modules_eq, List.append_assoc]
  config_eq := hsecond.config_eq.trans hfirst.config_eq
  ram_eq := hsecond.ram_eq.trans hfirst.ram_eq
  l3_eq := hsecond.l3_eq.trans hfirst.l3_eq

theorem report (cpu : Cpu) (event : Event) : cpu.Adds [event] [] (cpu.report event) :=
  ⟨⟨[], rfl⟩, fun _ => id, Array.toList_push, (List.append_nil _).symm, rfl, rfl, rfl⟩

variable (hadds : start.Adds events modules cpu)

include hadds

/-- The cores that were added are put together to a module. -/
theorem push (m : CoreModule) :
    start.Adds events (modules ++ [m]) { cpu with modules := cpu.modules.push m } := by
  obtain ⟨hlevels, hchains, hevents, hmodules, hconfig, hram, hl3⟩ := hadds
  refine ⟨hlevels, hchains, hevents, ?_, hconfig, hram, hl3⟩
  rw [Array.toList_push, hmodules, List.append_assoc]

theorem hasCache {name : String} {front behind : Nat}
    (hcache : start.hierarchy.HasCache name front behind) :
    cpu.hierarchy.HasCache name front behind := by
  obtain ⟨newer, hnewer⟩ := hadds.levels
  have hlater := hcache.append newer
  rw [← hnewer] at hlater
  exact hlater

theorem hasCache_l3 {behind : Nat} (hl3 : start.hierarchy.HasCache "L3" start.l3 behind) :
    cpu.hierarchy.HasCache "L3" cpu.l3 behind := by
  rw [hadds.l3_eq]
  exact hadds.hasCache hl3

theorem core_newAt {config : CpuConfig} {l2 index : Nat} {core : Core}
    (hcore : core.NewAt config start.hierarchy l2 index) :
    core.NewAt config cpu.hierarchy l2 index :=
  ⟨hcore.worker_eq, hcore.stack_eq, hadds.hasCache hcore.l1⟩

theorem module_newAt {config : CpuConfig} {l3 index : Nat} {m : CoreModule}
    (hmodule : m.NewAt config start.hierarchy l3 index) : m.NewAt config cpu.hierarchy l3 index :=
  ⟨hmodule.index_eq, hadds.hasCache hmodule.l2, hmodule.cores.imp fun _ _ => hadds.core_newAt⟩

end Adds

variable {cpu added : Cpu} {config : CpuConfig}

theorem addCache_eq_ok {name : String} {size backing level : Nat}
    (hadd : cpu.addCache name size backing = .ok (level, added)) :
    ∃ front, Cache.build name {} size (cpu.hierarchy.memory backing).size = .ok front ∧
      level = cpu.hierarchy.next ∧
      added = ({ cpu with hierarchy := cpu.hierarchy.withFront front backing } : Cpu).report
        (front.constructed (cpu.hierarchy.memory backing).name) := by
  obtain ⟨⟨hierarchy, event⟩, hcache, hlast⟩ := bind_eq_ok hadd
  obtain ⟨hlevel, hadded⟩ := Prod.mk.inj (Except.ok.inj hlast)
  obtain ⟨front, hbuild, rfl, rfl⟩ := Hierarchy.addCache_eq_ok hcache
  exact ⟨front, hbuild, hlevel.symm, hadded.symm⟩

theorem addCache_adds {name behindName : String} {size backing level : Nat}
    (hbehind : cpu.hierarchy.name? backing = some behindName)
    (hadd : cpu.addCache name size backing = .ok (level, added)) :
    cpu.Adds [.newCache name size behindName] [] added ∧
      added.hierarchy.HasCache name level backing := by
  obtain ⟨front, hbuild, rfl, rfl⟩ := addCache_eq_ok hadd
  have hfront := Hierarchy.hasCache_withFront hbehind front
  rw [Cache.name_of_build hbuild] at hfront
  obtain ⟨memory, hmemory, rfl⟩ := Option.map_eq_some_iff.1 hbehind
  have hlt := Hierarchy.lt_next_of_memory? hmemory
  refine ⟨⟨⟨[_], rfl⟩, fun _ hchains => hchains.withFront hlt hbuild, ?_,
    (List.append_nil _).symm, rfl, rfl, rfl⟩, hfront⟩
  rw [report, Array.toList_push, Cache.constructed, Cache.name_of_build hbuild,
    Cache.capacity_of_build hbuild, Hierarchy.memory_eq hmemory]
  rfl

theorem addCore_eq_ok {index l1Size stackSize l2 : Nat} {core : Core}
    (hadd : cpu.addCore index l1Size stackSize l2 = .ok (core, added)) :
    ∃ cached, cpu.addCache s!"L1[{index}]" l1Size l2 = .ok (core.l1, cached) ∧
      core.stack = Ram.zeroed s!"STACK[{index}]" stackSize ∧ core.worker = { index } ∧
      added = (cached.report core.stack.constructed).report core.worker.constructed := by
  obtain ⟨⟨l1, cached⟩, hcache, hlast⟩ := bind_eq_ok hadd
  obtain ⟨rfl, rfl⟩ := Prod.mk.inj (Except.ok.inj hlast)
  exact ⟨cached, hcache, rfl, rfl, rfl⟩

theorem addCore_adds {place index l2 : Nat} {core : Core}
    (hl2 : cpu.hierarchy.name? l2 = some s!"L2[{place}]")
    (hadd : cpu.addCore index config.l1Size.toNat config.privateSize.toNat l2 = .ok (core, added)) :
    cpu.Adds (config.unitConstructions place index) [] added ∧
      core.NewAt config added.hierarchy l2 index := by
  obtain ⟨cached, hcache, hstack, hworker, rfl⟩ := addCore_eq_ok hadd
  obtain ⟨hcached, hl1⟩ := addCache_adds hl2 hcache
  have hevents : config.unitConstructions place index =
      ([.newCache s!"L1[{index}]" config.l1Size.toNat s!"L2[{place}]"] ++
        [core.stack.constructed]) ++ [core.worker.constructed] := by
    rw [hstack, hworker, Ram.constructed_zeroed]
    rfl
  rw [hevents]
  exact ⟨(hcached.trans (.report _ _)).trans (.report _ _), hworker, hstack, hl1⟩

/-- The first core that is added, and the others. -/
theorem addCores_cons_eq_ok {l1Size stackSize l2 index : Nat} {rest : List Nat}
    {cores cores' : Array Core}
    (hadd : addCores l1Size stackSize l2 (index :: rest) cores cpu = .ok (cores', added)) :
    ∃ core middle, cpu.addCore index l1Size stackSize l2 = .ok (core, middle) ∧
      addCores l1Size stackSize l2 rest (cores.push core) middle = .ok (cores', added) := by
  rw [addCores] at hadd
  split at hadd
  · contradiction
  next core middle hcore => exact ⟨core, middle, hcore, hadd⟩

/-- The units of a module, by induction on their indices. -/
theorem addCores_adds {place l2 behind : Nat} {indices : List Nat} {cores cores' : Array Core}
    (hl2 : cpu.hierarchy.HasCache s!"L2[{place}]" l2 behind)
    (hadd : addCores config.l1Size.toNat config.privateSize.toNat l2 indices cores cpu =
      .ok (cores', added)) :
    cpu.Adds (indices.flatMap (config.unitConstructions place)) [] added ∧
      ∃ more, cores'.toList = cores.toList ++ more ∧
        List.Forall₂ (fun unit core => core.NewAt config added.hierarchy l2 unit) indices more := by
  induction indices generalizing cores cpu with
  | nil =>
    obtain ⟨rfl, rfl⟩ := Prod.mk.inj (Except.ok.inj hadd)
    exact ⟨.refl _, [], (List.append_nil _).symm, .nil⟩
  | cons index rest ih =>
    obtain ⟨core, middle, hcore, hothers⟩ := addCores_cons_eq_ok hadd
    obtain ⟨hfirst, hnew⟩ := addCore_adds hl2.name_eq hcore
    obtain ⟨hrest, more, hmore, hcores⟩ := ih (hfirst.hasCache hl2) hothers
    refine ⟨hfirst.trans hrest, core :: more, ?_, .cons (hrest.core_newAt hnew) hcores⟩
    rw [hmore, Array.toList_push, List.append_assoc]
    rfl

/-- The first module that is added, its second-level cache before its cores, and the others. -/
theorem addModules_cons_eq_ok {index : Nat} {rest : List Nat}
    (hadd : addModules config (index :: rest) cpu = .ok added) :
    ∃ l2 cached cores filled,
      cpu.addCache s!"L2[{index}]" config.l2Size.toNat cpu.l3 = .ok (l2, cached) ∧
      addCores config.l1Size.toNat config.privateSize.toNat l2
        (unitIndices config.threadsPerCore.toNat index) #[] cached = .ok (cores, filled) ∧
      addModules config rest { filled with
        modules := filled.modules.push { index, l2, cores } } = .ok added := by
  rw [addModules] at hadd
  split at hadd
  · contradiction
  next l2 cached hcache =>
    split at hadd
    · contradiction
    next cores filled hcores => exact ⟨l2, cached, cores, filled, hcache, hcores, hadd⟩

/-- One module, with its second-level cache and its cores. -/
theorem addModule_adds {index l2 behind : Nat} {cached filled : Cpu} {cores : Array Core}
    (hl3 : cpu.hierarchy.HasCache "L3" cpu.l3 behind)
    (hcache : cpu.addCache s!"L2[{index}]" config.l2Size.toNat cpu.l3 = .ok (l2, cached))
    (hcores : addCores config.l1Size.toNat config.privateSize.toNat l2
      (unitIndices config.threadsPerCore.toNat index) #[] cached = .ok (cores, filled)) :
    cpu.Adds (config.moduleConstructions index) [{ index, l2, cores }]
        { filled with modules := filled.modules.push { index, l2, cores } } ∧
      CoreModule.NewAt config filled.hierarchy cpu.l3 index { index, l2, cores } := by
  obtain ⟨hcached, hl2⟩ := addCache_adds hl3.name_eq hcache
  obtain ⟨hfilled, built, hbuilt, hnew⟩ := addCores_adds hl2 hcores
  obtain rfl : cores.toList = built := hbuilt
  exact ⟨(hcached.trans hfilled).push _, rfl, hfilled.hasCache hl2, hnew⟩

/-- The modules, by induction on their indices. -/
theorem addModules_adds {behind : Nat} {indices : List Nat}
    (hl3 : cpu.hierarchy.HasCache "L3" cpu.l3 behind)
    (hadd : addModules config indices cpu = .ok added) :
    ∃ modules, cpu.Adds (indices.flatMap config.moduleConstructions) modules added ∧
      List.Forall₂ (fun index m => m.NewAt config added.hierarchy added.l3 index)
        indices modules := by
  induction indices generalizing cpu with
  | nil =>
    obtain rfl := Except.ok.inj hadd
    exact ⟨[], .refl _, .nil⟩
  | cons index rest ih =>
    obtain ⟨l2, cached, cores, filled, hcache, hcores, hothers⟩ := addModules_cons_eq_ok hadd
    obtain ⟨hfirst, hmodule⟩ := addModule_adds hl3 hcache hcores
    obtain ⟨modules, hrest, hmodules⟩ := ih (hfirst.hasCache_l3 hl3) hothers
    have hall := hfirst.trans hrest
    rw [← hall.l3_eq] at hmodule
    exact ⟨{ index, l2, cores } :: modules, hall, .cons (hrest.module_newAt hmodule) hmodules⟩

theorem addRam_eq_ok {name : String} {size level : Nat}
    (hadd : cpu.addRam name size = .ok (level, added)) :
    size ≤ Ram.maxWords ∧ level = cpu.hierarchy.next ∧
      added = ({ cpu with hierarchy := cpu.hierarchy.addRam (Ram.zeroed name size) } : Cpu).report
        (Ram.zeroed name size).constructed := by
  obtain ⟨store, hstore, hlast⟩ := bind_eq_ok hadd
  obtain ⟨rfl, rfl⟩ := Prod.mk.inj (Except.ok.inj hlast)
  unfold Ram.allocate at hstore
  split at hstore
  next hle =>
    obtain rfl := Except.ok.inj hstore
    exact ⟨hle, rfl, rfl⟩
  next => contradiction

/-- The parts that are built one after the other. -/
theorem build_eq_ok (hbuild : build config = .ok cpu) :
    ∃ ram started l3 cached grown, config.validate = .ok () ∧
      ({ config } : Cpu).addRam "RAM" config.ramSize.toNat = .ok (ram, started) ∧
      started.addCache "L3" config.l3Size.toNat ram = .ok (l3, cached) ∧
      addModules config (List.range config.cores.toNat) { cached with ram, l3 } = .ok grown ∧
      cpu = grown.report (.construction "CPU"
        s!"{config.cores.toNat} cores x {config.threadsPerCore.toNat} threads") := by
  unfold build at hbuild
  split at hbuild
  · contradiction
  next hvalid =>
    split at hbuild
    · contradiction
    next ram started hram =>
      split at hbuild
      · contradiction
      next l3 cached hl3 =>
        split at hbuild
        · contradiction
        next grown hmodules =>
          exact ⟨ram, started, l3, cached, grown, hvalid, hram, hl3, hmodules,
            (Except.ok.inj hbuild).symm⟩

theorem exists_of_isOk (hok : (build config).isOk = true) : ∃ cpu, build config = .ok cpu := by
  cases hbuild : build config with
  | error cause =>
    rw [hbuild] at hok
    contradiction
  | ok cpu => exact ⟨cpu, rfl⟩

/-- A CPU as building leaves it. -/
structure New (config : CpuConfig) (cpu : Cpu) : Prop where
  config_eq : cpu.config = config
  events_eq : cpu.events.toList = config.constructions
  chains : cpu.hierarchy.Chains config.ramSize.toNat
  modules : List.Forall₂ (fun index m => m.NewAt config cpu.hierarchy cpu.l3 index)
    (List.range config.cores.toNat) cpu.modules.toList

/-- Building lays RAM and the shared cache, and then the modules on them. -/
theorem new_of_build (hbuild : build config = .ok cpu) : cpu.New config := by
  obtain ⟨ram, started, l3, cached, grown, -, hram, hl3, hmodules, rfl⟩ := build_eq_ok hbuild
  obtain ⟨-, rfl, rfl⟩ := addRam_eq_ok hram
  obtain ⟨hcached, hfront⟩ := addCache_adds (show _ = some "RAM" from rfl) hl3
  obtain ⟨modules, hgrown, hnew⟩ := addModules_adds hfront hmodules
  have hnone : cached.modules.toList = [] := hcached.modules_eq
  have hmodules_eq : grown.modules.toList = modules := by
    rw [hgrown.modules_eq, hnone, List.nil_append]
  refine ⟨hgrown.config_eq.trans hcached.config_eq, ?_, ?_, ?_⟩
  · have hbased : cached.events.toList =
        [.newRam "RAM" config.ramSize.toNat, .newCache "L3" config.l3Size.toNat "RAM"] := by
      rw [hcached.events_eq, Ram.constructed_zeroed]
      rfl
    rw [report, Array.toList_push, hgrown.events_eq, hbased]
    rfl
  · exact hgrown.chains _ (hcached.chains _ (Hierarchy.chains_addRam _ _))
  · rw [report, hmodules_eq]
    exact hnew

/-- RAM has room for the line that the shared cache fetches. -/
theorem lineSize_le_of_build (hbuild : build config = .ok cpu) :
    lineSize ≤ config.ramSize.toNat := by
  obtain ⟨ram, started, l3, cached, grown, -, hram, hl3, -⟩ := build_eq_ok hbuild
  obtain ⟨-, rfl, rfl⟩ := addRam_eq_ok hram
  obtain ⟨front, hfront, -⟩ := addCache_eq_ok hl3
  have hwords : (Hierarchy.memory (({} : Hierarchy).addRam (.zeroed "RAM" config.ramSize.toNat))
      0).size = config.ramSize.toNat := Array.size_replicate
  obtain ⟨hfits, -⟩ := Cache.build_eq_ok hfront
  rw [← hwords]
  exact Nat.le_trans (Nat.le_of_dvd hfits.positive hfits.aligned) hfits.le_size

end Cpu

end A64Machine
