import A64Machine.Proofs.Cpu.Units
import A64Machine.Proofs.Unit.History

/-!
How the units of a CPU are numbered.  Units are built module by module and get their numbers in that
order; a unit is found again from its number by division.  The two agree for every shape of a CPU,
each first-level cache stands in front of the second-level cache of its own module, and no later
request moves a unit.
-/

namespace A64Machine

/-- A core as unit `index` is built in front of level `l2`. -/
structure Core.BuiltAs (hierarchy : Hierarchy) (l2 index : Nat) (core : Core) : Prop where
  worker_eq : core.worker = { index }
  stack_name : core.stack.name = s!"STACK[{index}]"
  l1 : hierarchy.HasCache s!"L1[{index}]" core.l1 l2

/-- A module as it is built in front of level `l3`, with a unit for each of its threads. -/
structure CoreModule.BuiltAs (hierarchy : Hierarchy) (l3 threads index : Nat) (m : CoreModule) :
    Prop where
  index_eq : m.index = index
  l2 : hierarchy.HasCache s!"L2[{index}]" m.l2 l3
  cores : List.Forall₂ (fun unit core => core.BuiltAs hierarchy m.l2 unit)
    (Cpu.unitIndices threads index) m.cores.toList

theorem Core.NewAt.builtAs {config : CpuConfig} {hierarchy : Hierarchy} {l2 index : Nat}
    {core : Core} (hnew : core.NewAt config hierarchy l2 index) :
    core.BuiltAs hierarchy l2 index :=
  ⟨hnew.worker_eq, congrArg Ram.name hnew.stack_eq, hnew.l1⟩

theorem CoreModule.NewAt.builtAs {config : CpuConfig} {hierarchy : Hierarchy} {l3 index : Nat}
    {m : CoreModule} (hnew : m.NewAt config hierarchy l3 index) :
    m.BuiltAs hierarchy l3 config.threadsPerCore.toNat index :=
  ⟨hnew.index_eq, hnew.l2, hnew.cores.imp fun _ _ hcore => hcore.builtAs⟩

namespace Cpu

variable {cpu : Cpu} {config : CpuConfig}

/-- A CPU as a configuration describes it. -/
structure BuiltAs (config : CpuConfig) (cpu : Cpu) : Prop where
  config_eq : cpu.config = config
  events_eq : cpu.events.toList = config.constructions
  modules : List.Forall₂ (fun index m => m.BuiltAs cpu.hierarchy cpu.l3
    config.threadsPerCore.toNat index) (List.range config.cores.toNat) cpu.modules.toList

theorem New.builtAs (hnew : cpu.New config) : cpu.BuiltAs config :=
  ⟨hnew.config_eq, hnew.events_eq, hnew.modules.imp fun _ _ hmodule => hmodule.builtAs⟩

namespace BuiltAs

variable (hbuilt : cpu.BuiltAs config)

include hbuilt

theorem moduleCount_eq : cpu.moduleCount = config.cores.toNat := by
  rw [moduleCount, ← Array.length_toList, ← hbuilt.modules.length_eq, List.length_range]

theorem unitCount_eq :
    cpu.unitCount = config.cores.toNat * config.threadsPerCore.toNat := by
  have hsum {hierarchy : Hierarchy} {l3 : Nat} {indices : List Nat} {modules : List CoreModule}
      (hall : List.Forall₂ (fun index m => m.BuiltAs hierarchy l3 config.threadsPerCore.toNat index)
        indices modules) (total : Nat) :
      modules.foldl (fun total m => total + m.cores.size) total =
        total + indices.length * config.threadsPerCore.toNat := by
    induction hall generalizing total with
    | nil => rw [List.length_nil, Nat.zero_mul]; rfl
    | cons hfirst hrest ih =>
      have hsize := hfirst.cores.length_eq
      rw [unitIndices, List.length_map, List.length_range, Array.length_toList] at hsize
      rw [List.foldl_cons, ih, List.length_cons, Nat.succ_mul, ← hsize]
      omega
  rw [unitCount, ← Array.foldl_toList, hsum hbuilt.modules, List.length_range, Nat.zero_add]

/-- The number of a unit gives its module and its place there. -/
theorem exists_unit {unit : Nat}
    (hlt : unit < config.cores.toNat * config.threadsPerCore.toNat) :
    ∃ m core, cpu.modules[unit / config.threadsPerCore.toNat]? = some m ∧
      m.BuiltAs cpu.hierarchy cpu.l3 config.threadsPerCore.toNat
        (unit / config.threadsPerCore.toNat) ∧
      cpu.unit? unit = some core ∧ core.BuiltAs cpu.hierarchy m.l2 unit := by
  let threads := config.threadsPerCore.toNat
  have hthreads : 0 < threads := Nat.pos_of_mul_pos_left (Nat.zero_lt_of_lt hlt)
  have hrange : (List.range config.cores.toNat)[unit / threads]? = some (unit / threads) :=
    List.getElem?_range (Nat.div_lt_of_lt_mul (Nat.mul_comm _ threads ▸ hlt))
  have hplace : (unitIndices threads (unit / threads))[unit % threads]? = some unit := by
    rw [unitIndices, List.getElem?_map, List.getElem?_range (Nat.mod_lt _ hthreads)]
    exact congrArg some (Nat.div_add_mod' unit threads)
  obtain ⟨m, hm, hmodule⟩ := exists_getElem?_of_forall₂ hbuilt.modules hrange
  obtain ⟨core, hcore, hunit⟩ := exists_getElem?_of_forall₂ hmodule.cores hplace
  refine ⟨m, core, hm, hmodule, ?_, hunit⟩
  rw [unit?, hbuilt.config_eq, core?, hm]
  exact hcore

variable (hthreads : 0 < config.threadsPerCore.toNat)

include hthreads

theorem unit?_eq_none {unit : Nat}
    (hle : config.cores.toNat * config.threadsPerCore.toNat ≤ unit) : cpu.unit? unit = none := by
  have hsize : cpu.modules.size = config.cores.toNat := hbuilt.moduleCount_eq
  have hplace : config.cores.toNat ≤ unit / config.threadsPerCore.toNat :=
    (Nat.le_div_iff_mul_le hthreads).2 hle
  rw [unit?, hbuilt.config_eq, core?, Array.getElem?_eq_none (hsize.symm ▸ hplace)]
  rfl

theorem exists_of_unit? {unit : Nat} {core : Core} (hunit : cpu.unit? unit = some core) :
    ∃ l2, core.BuiltAs cpu.hierarchy l2 unit := by
  rcases Nat.lt_or_ge unit (config.cores.toNat * config.threadsPerCore.toNat) with hlt | hle
  · obtain ⟨m, core', -, -, hfound, hcore⟩ := hbuilt.exists_unit hlt
    obtain rfl := Option.some.inj (hfound.symm.trans hunit)
    exact ⟨m.l2, hcore⟩
  · rw [hbuilt.unit?_eq_none hthreads hle] at hunit
    contradiction

end BuiltAs

end Cpu

/-- An entry that keeps its image makes no difference to the images of all entries. -/
theorem map_modify_eq {α β : Type} {f : α → β} {g : α → α} {xs : Array α} {i : Nat}
    (hsame : ∀ x, xs[i]? = some x → f (g x) = f x) : (xs.modify i g).map f = xs.map f := by
  apply Array.ext_getElem?
  intro j
  rw [Array.getElem?_map, Array.getElem?_map, Array.getElem?_modify]
  split
  next hij =>
    subst hij
    cases hx : xs[i]? with
    | none => rfl
    | some x => exact congrArg some (hsame x hx)
  next => rfl

theorem map_setIfInBounds_eq {α β : Type} {f : α → β} {xs : Array α} {i : Nat} {x after : α}
    (hx : xs[i]? = some x) (hsame : f after = f x) :
    (xs.setIfInBounds i after).map f = xs.map f := by
  apply Array.ext_getElem?
  intro j
  rw [Array.getElem?_map, Array.getElem?_map, Array.getElem?_setIfInBounds]
  split
  next hij =>
    subst hij
    rw [if_pos (Array.getElem?_eq_some_iff.1 hx).1, hx]
    exact congrArg some hsame
  next => rfl

theorem Hierarchy.frontsOf_replace (hierarchy : Hierarchy) (number : Nat) (after : Memory)
    (behind : Nat) :
    frontsOf (hierarchy.replace number after).levels behind = frontsOf hierarchy.levels behind := by
  unfold replace
  split
  · exact frontsOf_replaceChain _ _ _ _
  · rfl

namespace ExecutionUnit

variable {unit after : ExecutionUnit} {fuel : Nat}

/-- A unit that is asked for something, left to itself, and then asked for the answer. -/
theorem index_of_ask (request : UnitRequest) {α : Type} {answer : ExecutionUnit → α} {value : α}
    (hcall : (do
      let settled ← settle fuel (unit.ask request)
      pure (answer settled, settled)) = Except.ok (value, after)) :
    after.worker.index = unit.worker.index := by
  obtain ⟨settled, hsettle, hlast⟩ := bind_eq_ok hcall
  obtain ⟨-, rfl⟩ := Prod.mk.inj (Except.ok.inj hlast)
  have hasked : History (fun _ _ => True) unit [request] (unit.ask request) :=
    History.nothing.asks trivial
  exact (hasked.settle hsettle).index_eq

theorem index_stepTicket {number : Nat} {answer : Option (Except StepError Frame)}
    (hstep : unit.stepTicket fuel number = .ok (answer, after)) :
    after.worker.index = unit.worker.index := by
  have hsame (answer' : Option (Except StepError Frame))
      (hanswer : (pure (answer', unit) : Except Violation _) = .ok (answer, after)) :
      after.worker.index = unit.worker.index := by
    obtain ⟨-, rfl⟩ := Prod.mk.inj (Except.ok.inj hanswer)
    rfl
  unfold stepTicket at hstep
  split at hstep
  · exact hsame _ hstep
  split at hstep
  · exact hsame _ hstep
  split at hstep
  · exact hsame _ hstep
  · exact index_of_ask (.step number) hstep

end ExecutionUnit

/-- What no request changes about a unit: its index and the level of its first-level cache. -/
structure UnitSite where
  index : Nat
  l1 : Nat

/-- What no request changes about a module: its index, the level of its second-level cache, and its
units. -/
structure ModuleSite where
  index : Nat
  l2 : Nat
  units : Array UnitSite

def Core.site (core : Core) : UnitSite :=
  ⟨core.worker.index, core.l1⟩

def CoreModule.site (m : CoreModule) : ModuleSite :=
  ⟨m.index, m.l2, m.cores.map Core.site⟩

namespace Cpu

variable {start cpu after : Cpu}

def sites (cpu : Cpu) : Array ModuleSite :=
  cpu.modules.map CoreModule.site

/-- A core that is put back in its place. -/
theorem sites_setCore {index thread : Nat} {core core' : Core}
    (hcore : cpu.core? index thread = some core) (hsite : core'.site = core.site) :
    (cpu.setCore index thread core').sites = cpu.sites := by
  obtain ⟨m, hm, hthread⟩ := Option.bind_eq_some_iff.mp hcore
  simp only [sites, setCore]
  refine map_modify_eq fun m' hm' => ?_
  obtain rfl := Option.some.inj (hm.symm.trans hm')
  rw [CoreModule.site, CoreModule.site, map_setIfInBounds_eq hthread hsite]

/-- Whether two CPUs have the same units at the same places, with their caches in front of the same
levels. -/
structure KeepsUnits (start cpu : Cpu) : Prop where
  config_eq : cpu.config = start.config
  sites_eq : cpu.sites = start.sites
  frontsOf_eq (behind : Nat) :
    frontsOf cpu.hierarchy.levels behind = frontsOf start.hierarchy.levels behind

theorem KeepsUnits.refl (cpu : Cpu) : cpu.KeepsUnits cpu := ⟨rfl, rfl, fun _ => rfl⟩

theorem KeepsUnits.trans {middle : Cpu} (hfirst : start.KeepsUnits middle)
    (hsecond : middle.KeepsUnits cpu) : start.KeepsUnits cpu :=
  ⟨hsecond.config_eq.trans hfirst.config_eq, hsecond.sites_eq.trans hfirst.sites_eq,
    fun behind => (hsecond.frontsOf_eq behind).trans (hfirst.frontsOf_eq behind)⟩

theorem KeepsUnits.symm (hkeeps : start.KeepsUnits cpu) : cpu.KeepsUnits start :=
  ⟨hkeeps.config_eq.symm, hkeeps.sites_eq.symm, fun behind => (hkeeps.frontsOf_eq behind).symm⟩

/-- A call that leaves the index of a unit alone. -/
theorem onUnit_keeps {α : Type} {index thread : Nat}
    {call : ExecutionUnit → Except Violation (α × ExecutionUnit)}
    (hcall : ∀ unit value unit', call unit = .ok (value, unit') →
      unit'.worker.index = unit.worker.index)
    {answer : Option α} (hon : cpu.onUnit index thread call = .ok (answer, after)) :
    cpu.KeepsUnits after := by
  unfold onUnit at hon
  split at hon
  · obtain ⟨-, rfl⟩ := Prod.mk.inj (Except.ok.inj hon)
    exact .refl _
  next core hcore =>
    obtain ⟨⟨value, unit⟩, hvalue, hlast⟩ := bind_eq_ok hon
    obtain ⟨-, rfl⟩ := Prod.mk.inj (Except.ok.inj hlast)
    have hsite : ({ core with stack := unit.memory.stack, worker := unit.worker } : Core).site =
        core.site := by
      rw [Core.site, Core.site, hcall _ _ _ hvalue]
    exact ⟨rfl, sites_setCore hcore hsite, cpu.hierarchy.frontsOf_replace _ _⟩

/-- The CPUs that one comes to from `start` by requests, each made of some unit, which then makes at
most `fuel` moves. -/
inductive Leads (start : Cpu) : Cpu → Prop
  | built : Leads start start
  | submits {cpu after : Cpu} {fuel index thread : Nat} {program : Program} {mode : RunMode}
      {number : Option Nat} (hcpu : Leads start cpu)
      (hsubmit : cpu.submit fuel index thread program mode = .ok (number, after)) :
      Leads start after
  | steps {cpu after : Cpu} {fuel index thread number : Nat}
      {answer : Option (Option (Except StepError Frame))} (hcpu : Leads start cpu)
      (hstep : cpu.stepTicket fuel index thread number = .ok (answer, after)) : Leads start after
  | drops {cpu after : Cpu} {fuel index thread number : Nat} {answer : Option Unit}
      (hcpu : Leads start cpu)
      (hdrop : cpu.dropTicket fuel index thread number = .ok (answer, after)) : Leads start after
  | stops {cpu after : Cpu} {fuel index thread : Nat} (hcpu : Leads start cpu)
      (hstop : cpu.stopUnit fuel index thread = .ok after) : Leads start after

theorem Leads.keeps (hleads : start.Leads cpu) : start.KeepsUnits cpu := by
  induction hleads with
  | built => exact .refl _
  | submits _ hsubmit ih =>
    exact ih.trans (onUnit_keeps (fun _ _ _ => ExecutionUnit.index_of_ask (.submit _ _)) hsubmit)
  | steps _ hstep ih =>
    exact ih.trans (onUnit_keeps (fun _ _ _ => ExecutionUnit.index_stepTicket) hstep)
  | drops _ hdrop ih =>
    exact ih.trans (onUnit_keeps (fun _ _ _ => ExecutionUnit.index_of_ask (.drop _)) hdrop)
  | stops _ hstop ih =>
    obtain ⟨⟨answer, stopped⟩, hon, hlast⟩ := bind_eq_ok hstop
    obtain rfl := Except.ok.inj hlast
    exact ih.trans (onUnit_keeps (fun _ _ _ => ExecutionUnit.index_of_ask .stop) hon)

/-- The place of a unit gives its site. -/
theorem site_unit? (cpu : Cpu) (unit : Nat) :
    (cpu.unit? unit).map Core.site =
      cpu.sites[unit / cpu.config.threadsPerCore.toNat]?.bind
        (·.units[unit % cpu.config.threadsPerCore.toNat]?) := by
  rw [unit?, core?, sites, Array.getElem?_map]
  cases cpu.modules[unit / cpu.config.threadsPerCore.toNat]? with
  | none => rfl
  | some m => exact (Array.getElem?_map).symm

theorem moduleCount_eq (cpu : Cpu) : cpu.moduleCount = cpu.sites.size :=
  Array.size_map.symm

theorem unitCount_eq (cpu : Cpu) :
    cpu.unitCount = cpu.sites.foldl (fun total m => total + m.units.size) 0 := by
  rw [unitCount, sites, Array.foldl_map]
  simp only [CoreModule.site, Array.size_map]

namespace KeepsUnits

variable (hkeeps : start.KeepsUnits cpu)

include hkeeps

theorem site_unit?_eq (unit : Nat) :
    (cpu.unit? unit).map Core.site = (start.unit? unit).map Core.site := by
  rw [site_unit?, site_unit?, hkeeps.sites_eq, hkeeps.config_eq]

theorem exists_unit {unit : Nat} {first : Core} (hfirst : start.unit? unit = some first) :
    ∃ core, cpu.unit? unit = some core ∧ core.site = first.site := by
  have hsite := hkeeps.site_unit?_eq unit
  rw [hfirst] at hsite
  exact Option.map_eq_some_iff.1 hsite

theorem exists_module {index : Nat} {first : CoreModule}
    (hfirst : start.modules[index]? = some first) :
    ∃ m, cpu.modules[index]? = some m ∧ m.site = first.site := by
  have hsite : cpu.sites[index]? = start.sites[index]? := by rw [hkeeps.sites_eq]
  rw [sites, sites, Array.getElem?_map, Array.getElem?_map, hfirst] at hsite
  exact Option.map_eq_some_iff.1 hsite

theorem unit?_eq_none {unit : Nat} (hnone : start.unit? unit = none) : cpu.unit? unit = none := by
  have hsite := hkeeps.site_unit?_eq unit
  rw [hnone] at hsite
  exact Option.map_eq_none_iff.1 hsite

theorem moduleCount_eq : cpu.moduleCount = start.moduleCount := by
  rw [cpu.moduleCount_eq, start.moduleCount_eq, hkeeps.sites_eq]

theorem unitCount_eq : cpu.unitCount = start.unitCount := by
  rw [cpu.unitCount_eq, start.unitCount_eq, hkeeps.sites_eq]

end KeepsUnits

/-- Whether the accessors of a unit lead to this core. -/
structure Accesses (cpu : Cpu) (unit : Nat) (core : Core) : Prop where
  unit?_eq : cpu.unit? unit = some core
  l1Stats_eq : cpu.l1Stats unit = some (cpu.levelStats core.l1)
  diagnostics_eq : cpu.diagnostics unit = some core.worker.diagnostics
  unitStatus_eq : cpu.unitStatus unit = some core.worker.status

theorem accesses_of_unit? {unit : Nat} {core : Core} (hunit : cpu.unit? unit = some core) :
    cpu.Accesses unit core := by
  refine ⟨hunit, ?_, ?_, ?_⟩
  · rw [l1Stats, hunit]
    rfl
  · rw [diagnostics, hunit]
    rfl
  · rw [unitStatus, hunit]
    rfl

/-- The number of a unit can be read off the name of its first-level cache. -/
theorem eq_of_l1Name_eq {unit other : Nat} (hname : s!"L1[{unit}]" = s!"L1[{other}]") :
    unit = other := by
  have hrepr : unit.repr = other.repr := by
    simpa only [Nat.toString_eq_repr, String.append_left_inj, String.append_right_inj] using hname
  have hdigits : Nat.toDigits 10 unit = Nat.toDigits 10 other := by
    rw [← Nat.toList_repr, ← Nat.toList_repr, hrepr]
  rw [← @Nat.ofDigitChars_ten_toDigits unit, hdigits, Nat.ofDigitChars_ten_toDigits]

/-- Whether a CPU has the units of a configuration under their numbers.  The unit with a number is
the one that was built with it. -/
structure Numbers (start : Cpu) (config : CpuConfig) (cpu : Cpu) : Prop where
  moduleCount_eq : cpu.moduleCount = config.cores.toNat
  unitCount_eq : cpu.unitCount = config.cores.toNat * config.threadsPerCore.toNat
  exists_accesses (unit : Nat) (hlt : unit < config.cores.toNat * config.threadsPerCore.toNat) :
    ∃ m core first, cpu.modules[unit / config.threadsPerCore.toNat]? = some m ∧
      cpu.Accesses unit core ∧ start.unit? unit = some first ∧ core.worker.index = unit ∧
      core.l1 = first.l1 ∧ core.l1 ∈ frontsOf cpu.hierarchy.levels m.l2
  eq_none (unit : Nat) (hle : config.cores.toNat * config.threadsPerCore.toNat ≤ unit) :
    cpu.l1Stats unit = none ∧ cpu.diagnostics unit = none ∧ cpu.unitStatus unit = none
  distinct (unit other : Nat) (core core' : Core) (hne : unit ≠ other)
    (hunit : cpu.unit? unit = some core) (hother : cpu.unit? other = some core') :
    core.worker.index ≠ core'.worker.index ∧ core.l1 ≠ core'.l1

theorem BuiltAs.numbers {config : CpuConfig} (hbuilt : start.BuiltAs config)
    (hthreads : 0 < config.threadsPerCore.toNat) (hkeeps : start.KeepsUnits cpu) :
    start.Numbers config cpu where
  moduleCount_eq := hkeeps.moduleCount_eq.trans hbuilt.moduleCount_eq
  unitCount_eq := hkeeps.unitCount_eq.trans hbuilt.unitCount_eq
  exists_accesses := by
    intro unit hlt
    obtain ⟨m, first, hm, hmodule, hfirst, hcore⟩ := hbuilt.exists_unit hlt
    obtain ⟨core, hunit, hsite⟩ := hkeeps.exists_unit hfirst
    obtain ⟨m', hm', hsite'⟩ := hkeeps.exists_module hm
    have hindex : core.worker.index = first.worker.index := congrArg UnitSite.index hsite
    have hl1 : core.l1 = first.l1 := congrArg UnitSite.l1 hsite
    have hl2 : m'.l2 = m.l2 := congrArg ModuleSite.l2 hsite'
    refine ⟨m', core, first, hm', accesses_of_unit? hunit, hfirst, ?_, hl1, ?_⟩
    · rw [hindex, hcore.worker_eq]
    · rw [hl1, hl2, hkeeps.frontsOf_eq]
      exact hcore.l1.mem_frontsOf
  eq_none := by
    intro unit hle
    have hnone := hkeeps.unit?_eq_none (hbuilt.unit?_eq_none hthreads hle)
    rw [l1Stats, diagnostics, unitStatus, hnone]
    exact ⟨rfl, rfl, rfl⟩
  distinct := by
    intro unit other core core' hne hunit hother
    obtain ⟨first, hfirst, hsite⟩ := hkeeps.symm.exists_unit hunit
    obtain ⟨second, hsecond, hsite'⟩ := hkeeps.symm.exists_unit hother
    obtain ⟨l2, hcore⟩ := hbuilt.exists_of_unit? hthreads hfirst
    obtain ⟨l2', hcore'⟩ := hbuilt.exists_of_unit? hthreads hsecond
    constructor
    · intro hindex
      have hsame : first.worker.index = second.worker.index :=
        (congrArg UnitSite.index hsite).trans (hindex.trans (congrArg UnitSite.index hsite').symm)
      rw [hcore.worker_eq, hcore'.worker_eq] at hsame
      exact hne hsame
    · intro hl1
      -- Two units with one first-level cache would have the same number in its name.
      have hsame : first.l1 = second.l1 :=
        (congrArg UnitSite.l1 hsite).trans (hl1.trans (congrArg UnitSite.l1 hsite').symm)
      have hname : some s!"L1[{unit}]" = some s!"L1[{other}]" := by
        rw [← hcore.l1.name_eq, ← hcore'.l1.name_eq, hsame]
      exact hne (eq_of_l1Name_eq (Option.some.inj hname))

/-- The units of a CPU that was built are numbered module by module, and are reported in that order
when they are built.  Whatever is asked of the CPU later, each number leads to the same unit. -/
theorem units_numbered {config : CpuConfig} (hbuild : build config = .ok cpu) :
    cpu.events.toList = config.constructions ∧
    (∀ unit < config.cores.toNat * config.threadsPerCore.toNat,
      ∃ m core, cpu.modules[unit / config.threadsPerCore.toNat]? = some m ∧
        m.BuiltAs cpu.hierarchy cpu.l3 config.threadsPerCore.toNat
          (unit / config.threadsPerCore.toNat) ∧
        cpu.unit? unit = some core ∧ core.BuiltAs cpu.hierarchy m.l2 unit) ∧
    ∀ later, cpu.Leads later → cpu.Numbers config later := by
  have hbuilt := (new_of_build hbuild).builtAs
  obtain ⟨ram, started, l3, cached, grown, hvalid, -⟩ := build_eq_ok hbuild
  obtain ⟨-, hthreads⟩ := CpuConfig.positive_of_validate hvalid
  exact ⟨hbuilt.events_eq, fun unit hlt => hbuilt.exists_unit hlt,
    fun later hleads => hbuilt.numbers hthreads hleads.keeps⟩

/-- Two modules of three threads, after a program was submitted to the last unit. -/
theorem units_numbered_two_by_three :
    let config : CpuConfig :=
      { cores := 2, threadsPerCore := 3, l1Size := 64, l2Size := 64, l3Size := 64, ramSize := 128,
        stackSize := 16 }
    ∃ cpu number later, build config = .ok cpu ∧
      cpu.submit 2 1 2 .countdownSum .run = .ok (number, later) ∧
      cpu.events.toList = config.constructions ∧ cpu.Numbers config later := by
  intro config
  have hsubmits : (build config).toOption.any (fun cpu =>
      (cpu.submit 2 1 2 .countdownSum .run).toOption.any (·.1 = some 0)) = true := by
    decide +kernel
  obtain ⟨cpu, hcpu, hany⟩ := (Option.any_eq_true _ _).1 hsubmits
  obtain ⟨⟨number, later⟩, hlater, -⟩ := (Option.any_eq_true _ _).1 hany
  have hbuild := eq_ok_of_toOption hcpu
  have hsubmit := eq_ok_of_toOption hlater
  obtain ⟨hevents, -, hnumbers⟩ := units_numbered hbuild
  exact ⟨cpu, number, later, hbuild, hsubmit, hevents, hnumbers later (Leads.built.submits hsubmit)⟩

end Cpu

end A64Machine
