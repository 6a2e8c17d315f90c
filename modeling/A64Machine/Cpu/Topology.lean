import A64Machine.Cpu.Config
import A64Machine.Memory.Hierarchy
import A64Machine.Unit.Lifecycle

/-!
A CPU: RAM, one cache in front of it that all share, a second-level cache per module, and per core a
first-level cache, a private stack and a worker.  Units take turns: a call on one of them joins its
core with its part of the hierarchy and puts both back afterwards.
-/

namespace A64Machine

/-- One hardware thread: the level of its first-level cache, its stack and its worker. -/
structure Core where
  l1 : Nat
  stack : Ram
  worker : Worker

/-- The cores that share a second-level cache, which is a level of the hierarchy. -/
structure CoreModule where
  index : Nat
  l2 : Nat
  cores : Array Core

/-- Groups cores behind a second-level cache; there must be at least one. -/
def CoreModule.group (index l2 : Nat) (cores : Array Core) : Except Violation CoreModule :=
  if cores.isEmpty then throw (.noCores index) else pure { index, l2, cores }

/-- The memory hierarchy, the modules in order, and the events so far. -/
structure Cpu where
  config : CpuConfig := {}
  hierarchy : Hierarchy := {}
  ram : Nat := 0
  l3 : Nat := 0
  modules : Array CoreModule := #[]
  events : Array Event := #[]

namespace Cpu

def report (cpu : Cpu) (event : Event) : Cpu :=
  { cpu with events := cpu.events.push event }

/-- Adds a RAM to the hierarchy and answers its level. -/
def addRam (cpu : Cpu) (name : String) (size : Nat) : Except Violation (Nat × Cpu) := do
  let store ← Ram.allocate name size
  pure (cpu.hierarchy.next,
    ({ cpu with hierarchy := cpu.hierarchy.addRam store } : Cpu).report store.constructed)

def addCache (cpu : Cpu) (name : String) (size backing : Nat) : Except CacheError (Nat × Cpu) := do
  let (hierarchy, event) ← cpu.hierarchy.addCache name {} size backing
  pure (cpu.hierarchy.next, ({ cpu with hierarchy } : Cpu).report event)

/-- Adds the first-level cache, the stack and the worker of unit `index` behind level `l2`.  A valid
configuration has no stack larger than its RAM, so the stack can be allocated when RAM could. -/
def addCore (cpu : Cpu) (index l1Size stackSize l2 : Nat) : Except CacheError (Core × Cpu) := do
  let (l1, cpu) ← cpu.addCache s!"L1[{index}]" l1Size l2
  let stack := Ram.zeroed s!"STACK[{index}]" stackSize
  let worker : Worker := { index }
  pure ({ l1, stack, worker }, (cpu.report stack.constructed).report worker.constructed)

def addCores (l1Size stackSize l2 : Nat) :
    List Nat → Array Core → Cpu → Except (CacheError × Cpu) (Array Core × Cpu)
  | [], cores, cpu => pure (cores, cpu)
  | index :: rest, cores, cpu =>
    match cpu.addCore index l1Size stackSize l2 with
    | .error error => throw (error, cpu)
    | .ok (core, cpu) => addCores l1Size stackSize l2 rest (cores.push core) cpu

def unitIndices (threads index : Nat) : List Nat :=
  (List.range threads).map fun thread => index * threads + thread

def addModules (config : CpuConfig) : List Nat → Cpu → Except (CacheError × Cpu) Cpu
  | [], cpu => pure cpu
  | index :: rest, cpu =>
    match cpu.addCache s!"L2[{index}]" config.l2Size.toNat cpu.l3 with
    | .error error => throw (error, cpu)
    | .ok (l2, cpu) =>
      match addCores config.l1Size.toNat config.privateSize.toNat l2
          (unitIndices config.threadsPerCore.toNat index) #[] cpu with
      | .error failure => throw failure
      | .ok (cores, cpu) =>
        addModules config rest
          { cpu with modules := cpu.modules.push { index, l2, cores } }

/-- Builds a CPU from the bottom up.  On failure the events of what was built are kept. -/
def build (config : CpuConfig) : Except (ConfigError × Array Event) Cpu :=
  match config.validate with
  | .error error => throw (error, #[])
  | .ok () =>
    match ({ config } : Cpu).addRam "RAM" config.ramSize.toNat with
    | .error cause => throw (.allocation cause, #[])
    | .ok (ram, cpu) =>
      match cpu.addCache "L3" config.l3Size.toNat ram with
      | .error error => throw (.cache error, cpu.events)
      | .ok (l3, cpu) =>
        match addModules config (List.range config.cores.toNat) { cpu with ram, l3 } with
        | .error (error, cpu) => throw (.cache error, cpu.events)
        | .ok cpu =>
          pure (cpu.report (.construction "CPU"
            s!"{config.cores.toNat} cores x {config.threadsPerCore.toNat} threads"))

def moduleCount (cpu : Cpu) : Nat :=
  cpu.modules.size

def unitCount (cpu : Cpu) : Nat :=
  cpu.modules.foldl (fun total m => total + m.cores.size) 0

/-- A core by its module and its place in the module. -/
def core? (cpu : Cpu) (index thread : Nat) : Option Core :=
  cpu.modules[index]?.bind (·.cores[thread]?)

def unit? (cpu : Cpu) (unit : Nat) : Option Core :=
  let threads := cpu.config.threadsPerCore.toNat
  cpu.core? (unit / threads) (unit % threads)

def levelStats (cpu : Cpu) (level : Nat) : AccessStats :=
  (cpu.hierarchy.memory level).stats

def l1Stats (cpu : Cpu) (unit : Nat) : Option AccessStats :=
  (cpu.unit? unit).map fun core => cpu.levelStats core.l1

def l2Stats (cpu : Cpu) (index : Nat) : Option AccessStats :=
  cpu.modules[index]?.map fun m => cpu.levelStats m.l2

def l3Stats (cpu : Cpu) : AccessStats :=
  cpu.levelStats cpu.l3

def ramStats (cpu : Cpu) : AccessStats :=
  cpu.levelStats cpu.ram

def diagnostics (cpu : Cpu) (unit : Nat) : Option Diagnostics :=
  (cpu.unit? unit).map (·.worker.diagnostics)

def unitStatus (cpu : Cpu) (unit : Nat) : Option UnitStatus :=
  (cpu.unit? unit).map (·.worker.status)

def setCore (cpu : Cpu) (index thread : Nat) (core : Core) : Cpu :=
  { cpu with
    modules := cpu.modules.modify index fun m =>
      { m with cores := m.cores.setIfInBounds thread core } }

/-- Makes a call on one unit, joined with its part of the hierarchy.  There is no answer when there
is no such unit. -/
def onUnit {α : Type} (cpu : Cpu) (index thread : Nat)
    (call : ExecutionUnit → Except Violation (α × ExecutionUnit)) :
    Except Violation (Option α × Cpu) :=
  match cpu.core? index thread with
  | none => pure (none, cpu)
  | some core => do
    let memory : UnitMemory :=
      { hierarchy := cpu.hierarchy.memory core.l1, stack := core.stack, events := cpu.events }
    let (value, unit) ← call { worker := core.worker, memory }
    let cpu := cpu.setCore index thread
      { core with stack := unit.memory.stack, worker := unit.worker }
    pure (some value,
      { cpu with
        hierarchy := cpu.hierarchy.replace core.l1 unit.memory.hierarchy
        events := unit.memory.events })

/-- Submits a program to a unit and answers the number of its ticket. -/
def submit (fuel : Nat) (cpu : Cpu) (index thread : Nat) (program : Program) (mode : RunMode) :
    Except Violation (Option Nat × Cpu) :=
  cpu.onUnit index thread fun unit => do
    let settled ← ExecutionUnit.settle fuel
      { unit with worker := unit.worker.submit program mode }
    pure (unit.worker.tickets.size, settled)

def stepTicket (fuel : Nat) (cpu : Cpu) (index thread number : Nat) :
    Except Violation (Option (Option (Except StepError Frame)) × Cpu) :=
  cpu.onUnit index thread fun unit => unit.stepTicket fuel number

def dropTicket (fuel : Nat) (cpu : Cpu) (index thread number : Nat) :
    Except Violation (Option Unit × Cpu) :=
  cpu.onUnit index thread fun unit => do
    let settled ← ExecutionUnit.settle fuel { unit with worker := unit.worker.drop number }
    pure ((), settled)

def stopUnit (fuel : Nat) (cpu : Cpu) (index thread : Nat) : Except Violation Cpu := do
  let (_, cpu) ← cpu.onUnit index thread fun unit => do
    let settled ← ExecutionUnit.settle fuel { unit with worker := unit.worker.stop }
    pure ((), settled)
  pure cpu

def stopModule (fuel : Nat) (cpu : Cpu) (index : Nat) : Except Violation Cpu :=
  (List.range (cpu.modules[index]?.elim 0 (·.cores.size))).foldlM
    (fun cpu thread => cpu.stopUnit fuel index thread) cpu

def stop (fuel : Nat) (cpu : Cpu) : Except Violation Cpu :=
  (List.range cpu.moduleCount).foldlM (fun cpu index => cpu.stopModule fuel index) cpu

def ticket? (cpu : Cpu) (index thread number : Nat) : Option Ticket :=
  (cpu.core? index thread).bind (·.worker.tickets[number]?)

end Cpu

end A64Machine
