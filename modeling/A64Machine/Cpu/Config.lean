import A64Machine.Memory.Cache

/-!
The shape of a CPU and the sizes of its memories, in words.  Sizes are 64-bit numbers, and products
and sums of them stop at the largest one.
-/

namespace A64Machine

/-- The dimensions that must be positive. -/
inductive Dimension where
  | cores | threadsPerCore | l1Size | l2Size | l3Size | ramSize | stackSize
  deriving Repr, DecidableEq

def Dimension.text : Dimension → String
  | .cores => "core count"
  | .threadsPerCore => "threads per core"
  | .l1Size => "l1 size"
  | .l2Size => "l2 size"
  | .l3Size => "l3 size"
  | .ramSize => "ram size"
  | .stackSize => "stack size"

/-- Why a CPU cannot be built. -/
inductive ConfigError where
  | zeroDimension (dimension : Dimension)
  | insufficientRam (needed ram : UInt64)
  | cache (error : CacheError)
  | allocation (cause : Violation)
  deriving Repr, DecidableEq

def ConfigError.message : ConfigError → String
  | .zeroDimension dimension => s!"{dimension.text} must be positive"
  | .insufficientRam needed ram =>
    s!"process memory needs {needed.toNat} units but ram holds {ram.toNat}"
  | .cache error => s!"cache construction failed: {error.message}"
  | .allocation cause => cause.message

/-- The sum of two sizes, or the largest size when they pass it. -/
def saturatingAdd (x y : UInt64) : UInt64 :=
  UInt64.ofNat (min (x.toNat + y.toNat) (UInt64.size - 1))

def saturatingMul (x y : UInt64) : UInt64 :=
  UInt64.ofNat (min (x.toNat * y.toNat) (UInt64.size - 1))

/-- The shape of a CPU. -/
structure CpuConfig where
  cores : UInt32 := 2
  threadsPerCore : UInt32 := 1
  l1Size : UInt64 := 256
  l2Size : UInt64 := 1024
  l3Size : UInt64 := 4096
  ramSize : UInt64 := 16384
  stackSize : UInt64 := 256
  heapSize : UInt64 := 0
  deriving Repr, DecidableEq

namespace CpuConfig

/-- Words in the private window of each thread, the heap below the stack. -/
def privateSize (config : CpuConfig) : UInt64 :=
  saturatingAdd config.stackSize config.heapSize

def unitCount (config : CpuConfig) : UInt64 :=
  config.cores.toUInt64 * config.threadsPerCore.toUInt64

/-- The dimensions in the order in which they are checked. -/
def dimensions (config : CpuConfig) : List (Dimension × UInt64) :=
  [(.cores, config.cores.toUInt64), (.threadsPerCore, config.threadsPerCore.toUInt64),
   (.l1Size, config.l1Size), (.l2Size, config.l2Size), (.l3Size, config.l3Size),
   (.ramSize, config.ramSize), (.stackSize, config.stackSize)]

/-- Words of process memory of all units together. -/
def neededRam (config : CpuConfig) : UInt64 :=
  saturatingMul config.privateSize config.unitCount

/-- Checks that every dimension is positive and that process memory fits in RAM.  How the sizes of
the caches fit together is checked when they are built. -/
def validate (config : CpuConfig) : Except ConfigError Unit :=
  match config.dimensions.find? (·.2 == 0) with
  | some (dimension, _) => .error (.zeroDimension dimension)
  | none =>
    if config.ramSize < config.neededRam then
      .error (.insufficientRam config.neededRam config.ramSize)
    else
      .ok ()

end CpuConfig

end A64Machine
