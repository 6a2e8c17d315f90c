import A64Machine.Memory.Chain

/-!
A hierarchy of memories in which several caches may stand in front of one memory.  Levels are kept
newest first and numbered from the oldest.  A cache names the level behind it by its distance among
the levels older than the cache, so the levels behind any level form a finite chain.
-/

namespace A64Machine

/-- One level of a hierarchy. -/
inductive Level where
  | ram (store : Ram)
  | cache (front : Cache) (backing : Nat)

/-- The chain of memories that starts at the level `distance` places down the list. -/
def chainAt : List Level → Nat → Option Memory
  | [], _ => none
  | .ram store :: _, 0 => some (.ram store)
  | .cache front backing :: older, 0 => (chainAt older backing).map (.cache front)
  | _ :: older, distance + 1 => chainAt older distance

/-- The levels after the chain that starts `distance` places down the list became `memory`. -/
def replaceChain : List Level → Nat → Memory → List Level
  | [], _, _ => []
  | .ram _ :: older, 0, .ram store => .ram store :: older
  | .cache _ backing :: older, 0, .cache front rest =>
    .cache front backing :: replaceChain older backing rest
  | level :: older, 0, _ => level :: older
  | level :: older, distance + 1, memory => level :: replaceChain older distance memory

/-- The levels of a hierarchy, newest first. -/
structure Hierarchy where
  levels : List Level := []

namespace Hierarchy

/-- The number that the next level gets. -/
def next (hierarchy : Hierarchy) : Nat :=
  hierarchy.levels.length

/-- How far level `number` is from the newest one. -/
def distance (hierarchy : Hierarchy) (number : Nat) : Nat :=
  hierarchy.next - 1 - number

/-- The memory that level `number` is, with the levels behind it. -/
def memory? (hierarchy : Hierarchy) (number : Nat) : Option Memory :=
  if number < hierarchy.next then chainAt hierarchy.levels (hierarchy.distance number) else none

/-- The memory that level `number` is; no words when there is no such level. -/
def memory (hierarchy : Hierarchy) (number : Nat) : Memory :=
  (hierarchy.memory? number).getD (.ram (.zeroed "" 0))

def replace (hierarchy : Hierarchy) (number : Nat) (memory : Memory) : Hierarchy :=
  if number < hierarchy.next then
    ⟨replaceChain hierarchy.levels (hierarchy.distance number) memory⟩
  else
    hierarchy

def addRam (hierarchy : Hierarchy) (store : Ram) : Hierarchy :=
  ⟨.ram store :: hierarchy.levels⟩

/-- Adds a cache of `size` words in front of level `backing`, with the event that announces it. -/
def addCache (hierarchy : Hierarchy) (name : String) (policy : CachePolicy) (size backing : Nat) :
    Except CacheError (Hierarchy × Event) := do
  let behind := hierarchy.memory backing
  let front ← Cache.build name policy size behind.size
  pure (⟨.cache front (hierarchy.distance backing) :: hierarchy.levels⟩,
    front.constructed behind.name)

def call {α : Type} (hierarchy : Hierarchy) (number : Nat)
    (access : Memory → Except Violation (Reply Memory α)) :
    Except Violation (Reply Hierarchy α) := do
  let reply ← access (hierarchy.memory number)
  pure (reply.lift (hierarchy.replace number))

end Hierarchy

end A64Machine
