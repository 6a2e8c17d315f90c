import A64Machine.Counter

/-!
Hit and miss accounting.  Every memory counts the calls made on it; a cache also counts the traffic
it causes on the memory behind it, under three kinds of their own.
-/

namespace A64Machine

/-- Kinds of access, in the order of their counters. -/
inductive AccessKind where
  | read | readBlock | write | writeBlock
  | backingReadBlock | backingWrite | backingWriteBlock
  deriving Repr, DecidableEq

namespace AccessKind

def all : List AccessKind :=
  [.read, .readBlock, .write, .writeBlock, .backingReadBlock, .backingWrite,
   .backingWriteBlock]

def index : AccessKind → Fin 7
  | .read => 0
  | .readBlock => 1
  | .write => 2
  | .writeBlock => 3
  | .backingReadBlock => 4
  | .backingWrite => 5
  | .backingWriteBlock => 6

def isRead : AccessKind → Bool
  | .read | .readBlock | .backingReadBlock => true
  | _ => false

/-- Whether this kind describes traffic to the memory behind a cache. -/
def isBacking : AccessKind → Bool
  | .backingReadBlock | .backingWrite | .backingWriteBlock => true
  | _ => false

def label : AccessKind → String
  | .read => "read"
  | .readBlock => "read_block"
  | .write => "write"
  | .writeBlock => "write_block"
  | .backingReadBlock => "upstream_read_block"
  | .backingWrite => "upstream_write"
  | .backingWriteBlock => "upstream_write_block"

end AccessKind

/-- Whether an access was served at its level. -/
inductive AccessResult where
  | hit | miss
  deriving Repr, DecidableEq

def AccessResult.label : AccessResult → String
  | .hit => "hit"
  | .miss => "miss"

/-- Hits and misses of one memory, per kind of access. -/
structure AccessStats where
  hitCounts : Vector Nat 7 := Vector.replicate 7 0
  missCounts : Vector Nat 7 := Vector.replicate 7 0
  deriving Repr, DecidableEq

/-- `part` as a fraction of `whole`; zero when there is nothing to divide. -/
def ratio (part whole : Nat) : Float :=
  if whole = 0 then 0 else part.toFloat / whole.toFloat

namespace AccessStats

def hits (stats : AccessStats) (kind : AccessKind) : Nat :=
  stats.hitCounts[kind.index]

def misses (stats : AccessStats) (kind : AccessKind) : Nat :=
  stats.missCounts[kind.index]

def count (stats : AccessStats) (kind : AccessKind) : Nat :=
  stats.hits kind + stats.misses kind

def record (stats : AccessStats) (kind : AccessKind) : AccessResult → AccessStats
  | .hit =>
    { stats with hitCounts := stats.hitCounts.set kind.index (increment (stats.hits kind)) }
  | .miss =>
    { stats with missCounts := stats.missCounts.set kind.index (increment (stats.misses kind)) }

/-- Hits of the four kinds that callers cause. -/
def totalHits (stats : AccessStats) : Nat :=
  stats.hits .read + stats.hits .readBlock + stats.hits .write + stats.hits .writeBlock

def totalMisses (stats : AccessStats) : Nat :=
  stats.misses .read + stats.misses .readBlock + stats.misses .write + stats.misses .writeBlock

def reads (stats : AccessStats) : Nat :=
  stats.count .read + stats.count .readBlock

def writes (stats : AccessStats) : Nat :=
  stats.count .write + stats.count .writeBlock

def accesses (stats : AccessStats) : Nat :=
  stats.reads + stats.writes

def hitRatio (stats : AccessStats) : Float :=
  ratio stats.totalHits stats.accesses

def missRatio (stats : AccessStats) : Float :=
  ratio stats.totalMisses stats.accesses

end AccessStats

end A64Machine
