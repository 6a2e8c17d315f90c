/-!
The two upper levels of the A64 encoding map: the top-level group selected by bits 28..25, and the
encoding class inside a group.
-/

namespace A64Machine

/-- A top-level encoding group. -/
inductive InstructionGroup where
  | reserved | sve | dataProcessingImmediate | branchExceptionSystem | dataProcessingRegister
  | simdFp | loadStore
  deriving Repr, DecidableEq

def InstructionGroup.all : List InstructionGroup :=
  [.reserved, .sve, .dataProcessingImmediate, .branchExceptionSystem, .dataProcessingRegister,
   .simdFp, .loadStore]

def InstructionGroup.text : InstructionGroup → String
  | .reserved => "reserved"
  | .sve => "SVE"
  | .dataProcessingImmediate => "data processing (immediate)"
  | .branchExceptionSystem => "branches, exception generation and system"
  | .dataProcessingRegister => "data processing (register)"
  | .simdFp => "scalar floating-point and advanced SIMD"
  | .loadStore => "loads and stores"

/-- Words of a supported group are classified further; SVE is recognised and nothing more. -/
def InstructionGroup.isSupported : InstructionGroup → Bool
  | .sve => false
  | _ => true

/-- An encoding class inside a group. -/
inductive InstructionClass where
  | udf
  | pcRelativeAddressing | addSubtractImmediate | addSubtractImmediateWithTags
  | logicalImmediate | moveWideImmediate | bitfield | extract
  | conditionalBranch | exceptionGeneration | hints | barriers | pState | systemInstructions
  | systemRegisterMove | unconditionalBranchRegister | unconditionalBranchImmediate
  | compareAndBranch | testAndBranch
  | dataProcessingTwoSource | dataProcessingOneSource | logicalShiftedRegister
  | addSubtractShiftedRegister | addSubtractExtendedRegister | addSubtractWithCarry
  | rotateRightIntoFlags | evaluateIntoFlags | conditionalCompareRegister
  | conditionalCompareImmediate | conditionalSelect | dataProcessingThreeSource
  | simdLoadStoreMultiple | simdLoadStoreMultiplePostIndexed | simdLoadStoreSingle
  | simdLoadStoreSinglePostIndexed | loadStoreMemoryTags | loadStoreExclusive
  | ldaprStlrUnscaledImmediate | loadRegisterLiteral | loadStoreNoAllocatePairOffset
  | loadStorePairPostIndexed | loadStorePairOffset | loadStorePairPreIndexed
  | loadStoreUnscaledImmediate | loadStoreImmediatePostIndexed | loadStoreUnprivileged
  | loadStoreImmediatePreIndexed | atomicMemoryOperations | loadStoreRegisterOffset
  | loadStorePac | loadStoreUnsignedImmediate
  | cryptographicAes | floatingPointIntegerConversion | floatingPointOneSource
  | floatingPointCompare | floatingPointImmediate | floatingPointConditionalCompare
  | floatingPointTwoSource | floatingPointConditionalSelect | floatingPointThreeSource
  | simdModifiedImmediate | simdCopy | simdAcrossLanes | simdTwoRegisterMisc | simdThreeSame
  | simdOther
  deriving Repr, DecidableEq

def InstructionClass.all : List InstructionClass :=
  [.udf,
   .pcRelativeAddressing, .addSubtractImmediate, .addSubtractImmediateWithTags,
   .logicalImmediate, .moveWideImmediate, .bitfield, .extract,
   .conditionalBranch, .exceptionGeneration, .hints, .barriers, .pState, .systemInstructions,
   .systemRegisterMove, .unconditionalBranchRegister, .unconditionalBranchImmediate,
   .compareAndBranch, .testAndBranch,
   .dataProcessingTwoSource, .dataProcessingOneSource, .logicalShiftedRegister,
   .addSubtractShiftedRegister, .addSubtractExtendedRegister, .addSubtractWithCarry,
   .rotateRightIntoFlags, .evaluateIntoFlags, .conditionalCompareRegister,
   .conditionalCompareImmediate, .conditionalSelect, .dataProcessingThreeSource,
   .simdLoadStoreMultiple, .simdLoadStoreMultiplePostIndexed, .simdLoadStoreSingle,
   .simdLoadStoreSinglePostIndexed, .loadStoreMemoryTags, .loadStoreExclusive,
   .ldaprStlrUnscaledImmediate, .loadRegisterLiteral, .loadStoreNoAllocatePairOffset,
   .loadStorePairPostIndexed, .loadStorePairOffset, .loadStorePairPreIndexed,
   .loadStoreUnscaledImmediate, .loadStoreImmediatePostIndexed, .loadStoreUnprivileged,
   .loadStoreImmediatePreIndexed, .atomicMemoryOperations, .loadStoreRegisterOffset,
   .loadStorePac, .loadStoreUnsignedImmediate,
   .cryptographicAes, .floatingPointIntegerConversion, .floatingPointOneSource,
   .floatingPointCompare, .floatingPointImmediate, .floatingPointConditionalCompare,
   .floatingPointTwoSource, .floatingPointConditionalSelect, .floatingPointThreeSource,
   .simdModifiedImmediate, .simdCopy, .simdAcrossLanes, .simdTwoRegisterMisc, .simdThreeSame,
   .simdOther]

def InstructionClass.text : InstructionClass → String
  | .udf => "permanently undefined"
  | .pcRelativeAddressing => "PC-relative addressing"
  | .addSubtractImmediate => "add/subtract (immediate)"
  | .addSubtractImmediateWithTags => "add/subtract (immediate, with tags)"
  | .logicalImmediate => "logical (immediate)"
  | .moveWideImmediate => "move wide (immediate)"
  | .bitfield => "bitfield"
  | .extract => "extract"
  | .conditionalBranch => "conditional branch (immediate)"
  | .exceptionGeneration => "exception generation"
  | .hints => "hints"
  | .barriers => "barriers"
  | .pState => "PSTATE"
  | .systemInstructions => "system instructions"
  | .systemRegisterMove => "system register move"
  | .unconditionalBranchRegister => "unconditional branch (register)"
  | .unconditionalBranchImmediate => "unconditional branch (immediate)"
  | .compareAndBranch => "compare and branch (immediate)"
  | .testAndBranch => "test and branch (immediate)"
  | .dataProcessingTwoSource => "data processing (2 source)"
  | .dataProcessingOneSource => "data processing (1 source)"
  | .logicalShiftedRegister => "logical (shifted register)"
  | .addSubtractShiftedRegister => "add/subtract (shifted register)"
  | .addSubtractExtendedRegister => "add/subtract (extended register)"
  | .addSubtractWithCarry => "add/subtract (with carry)"
  | .rotateRightIntoFlags => "rotate right into flags"
  | .evaluateIntoFlags => "evaluate into flags"
  | .conditionalCompareRegister => "conditional compare (register)"
  | .conditionalCompareImmediate => "conditional compare (immediate)"
  | .conditionalSelect => "conditional select"
  | .dataProcessingThreeSource => "data processing (3 source)"
  | .simdLoadStoreMultiple => "advanced SIMD load/store multiple structures"
  | .simdLoadStoreMultiplePostIndexed =>
    "advanced SIMD load/store multiple structures (post-indexed)"
  | .simdLoadStoreSingle => "advanced SIMD load/store single structure"
  | .simdLoadStoreSinglePostIndexed => "advanced SIMD load/store single structure (post-indexed)"
  | .loadStoreMemoryTags => "load/store memory tags"
  | .loadStoreExclusive => "load/store exclusive"
  | .ldaprStlrUnscaledImmediate => "LDAPR/STLR (unscaled immediate)"
  | .loadRegisterLiteral => "load register (literal)"
  | .loadStoreNoAllocatePairOffset => "load/store no-allocate pair (offset)"
  | .loadStorePairPostIndexed => "load/store register pair (post-indexed)"
  | .loadStorePairOffset => "load/store register pair (offset)"
  | .loadStorePairPreIndexed => "load/store register pair (pre-indexed)"
  | .loadStoreUnscaledImmediate => "load/store register (unscaled immediate)"
  | .loadStoreImmediatePostIndexed => "load/store register (immediate post-indexed)"
  | .loadStoreUnprivileged => "load/store register (unprivileged)"
  | .loadStoreImmediatePreIndexed => "load/store register (immediate pre-indexed)"
  | .atomicMemoryOperations => "atomic memory operations"
  | .loadStoreRegisterOffset => "load/store register (register offset)"
  | .loadStorePac => "load/store register (pac)"
  | .loadStoreUnsignedImmediate => "load/store register (unsigned immediate)"
  | .cryptographicAes => "cryptographic AES"
  | .floatingPointIntegerConversion => "conversion between floating-point and integer"
  | .floatingPointOneSource => "floating-point data processing (1 source)"
  | .floatingPointCompare => "floating-point compare"
  | .floatingPointImmediate => "floating-point immediate"
  | .floatingPointConditionalCompare => "floating-point conditional compare"
  | .floatingPointTwoSource => "floating-point data processing (2 source)"
  | .floatingPointConditionalSelect => "floating-point conditional select"
  | .floatingPointThreeSource => "floating-point data processing (3 source)"
  | .simdModifiedImmediate => "advanced SIMD modified immediate"
  | .simdCopy => "advanced SIMD copy"
  | .simdAcrossLanes => "advanced SIMD across lanes"
  | .simdTwoRegisterMisc => "advanced SIMD two-register miscellaneous"
  | .simdThreeSame => "advanced SIMD three same"
  | .simdOther => "advanced SIMD"

def InstructionClass.group : InstructionClass → InstructionGroup
  | .udf => .reserved
  | .pcRelativeAddressing | .addSubtractImmediate | .addSubtractImmediateWithTags
  | .logicalImmediate | .moveWideImmediate | .bitfield | .extract => .dataProcessingImmediate
  | .conditionalBranch | .exceptionGeneration | .hints | .barriers | .pState
  | .systemInstructions | .systemRegisterMove | .unconditionalBranchRegister
  | .unconditionalBranchImmediate | .compareAndBranch | .testAndBranch => .branchExceptionSystem
  | .dataProcessingTwoSource | .dataProcessingOneSource | .logicalShiftedRegister
  | .addSubtractShiftedRegister | .addSubtractExtendedRegister | .addSubtractWithCarry
  | .rotateRightIntoFlags | .evaluateIntoFlags | .conditionalCompareRegister
  | .conditionalCompareImmediate | .conditionalSelect | .dataProcessingThreeSource =>
    .dataProcessingRegister
  | .simdLoadStoreMultiple | .simdLoadStoreMultiplePostIndexed | .simdLoadStoreSingle
  | .simdLoadStoreSinglePostIndexed | .loadStoreMemoryTags | .loadStoreExclusive
  | .ldaprStlrUnscaledImmediate | .loadRegisterLiteral | .loadStoreNoAllocatePairOffset
  | .loadStorePairPostIndexed | .loadStorePairOffset | .loadStorePairPreIndexed
  | .loadStoreUnscaledImmediate | .loadStoreImmediatePostIndexed | .loadStoreUnprivileged
  | .loadStoreImmediatePreIndexed | .atomicMemoryOperations | .loadStoreRegisterOffset
  | .loadStorePac | .loadStoreUnsignedImmediate => .loadStore
  | .cryptographicAes | .floatingPointIntegerConversion | .floatingPointOneSource
  | .floatingPointCompare | .floatingPointImmediate | .floatingPointConditionalCompare
  | .floatingPointTwoSource | .floatingPointConditionalSelect | .floatingPointThreeSource
  | .simdModifiedImmediate | .simdCopy | .simdAcrossLanes | .simdTwoRegisterMisc
  | .simdThreeSame | .simdOther => .simdFp

end A64Machine
