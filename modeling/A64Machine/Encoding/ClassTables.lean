import A64Machine.Encoding.Group
import A64Machine.Encoding.Table

/-!
The tables of the two upper levels.  Group rows look at bits 28..25 only; each class table is
written for the words of its own group and may leave the bits that the group fixes out of its masks.
-/

namespace A64Machine

/-- The top-level groups, selected by bits 28..25. -/
def groupTable : Table InstructionGroup :=
  [⟨0x1E000000, 0x00000000, .reserved⟩,
   ⟨0x1E000000, 0x04000000, .sve⟩,
   ⟨0x1C000000, 0x10000000, .dataProcessingImmediate⟩,
   ⟨0x1C000000, 0x14000000, .branchExceptionSystem⟩,
   ⟨0x0E000000, 0x0A000000, .dataProcessingRegister⟩,
   ⟨0x0E000000, 0x0E000000, .simdFp⟩,
   ⟨0x0A000000, 0x08000000, .loadStore⟩]

/-- A reserved word is the permanently undefined instruction when its upper half is zero. -/
def reservedClasses : Table InstructionClass :=
  [⟨0xFFFF0000, 0x00000000, .udf⟩]

def dataImmediateClasses : Table InstructionClass :=
  [⟨0x1F000000, 0x10000000, .pcRelativeAddressing⟩,
   ⟨0x1F800000, 0x11000000, .addSubtractImmediate⟩,
   ⟨0x1F800000, 0x11800000, .addSubtractImmediateWithTags⟩,
   ⟨0x1F800000, 0x12000000, .logicalImmediate⟩,
   ⟨0x1F800000, 0x12800000, .moveWideImmediate⟩,
   ⟨0x1F800000, 0x13000000, .bitfield⟩,
   ⟨0x1F800000, 0x13800000, .extract⟩]

def branchSystemClasses : Table InstructionClass :=
  [⟨0xFE000000, 0x54000000, .conditionalBranch⟩,
   ⟨0xFF000000, 0xD4000000, .exceptionGeneration⟩,
   ⟨0xFFFFF01F, 0xD503201F, .hints⟩,
   ⟨0xFFFFF000, 0xD5033000, .barriers⟩,
   ⟨0xFFF8F000, 0xD5004000, .pState⟩,
   ⟨0xFFD80000, 0xD5080000, .systemInstructions⟩,
   ⟨0xFFD00000, 0xD5100000, .systemRegisterMove⟩,
   ⟨0xFE000000, 0xD6000000, .unconditionalBranchRegister⟩,
   ⟨0x7C000000, 0x14000000, .unconditionalBranchImmediate⟩,
   ⟨0x7E000000, 0x34000000, .compareAndBranch⟩,
   ⟨0x7E000000, 0x36000000, .testAndBranch⟩]

def dataRegisterClasses : Table InstructionClass :=
  [⟨0x5FE00000, 0x1AC00000, .dataProcessingTwoSource⟩,
   ⟨0x5FE00000, 0x5AC00000, .dataProcessingOneSource⟩,
   ⟨0x1F000000, 0x0A000000, .logicalShiftedRegister⟩,
   ⟨0x1F200000, 0x0B000000, .addSubtractShiftedRegister⟩,
   ⟨0x1F200000, 0x0B200000, .addSubtractExtendedRegister⟩,
   ⟨0x1FE0FC00, 0x1A000000, .addSubtractWithCarry⟩,
   ⟨0x1FE07C00, 0x1A000400, .rotateRightIntoFlags⟩,
   ⟨0x1FE03C00, 0x1A000800, .evaluateIntoFlags⟩,
   ⟨0x1FE00800, 0x1A400000, .conditionalCompareRegister⟩,
   ⟨0x1FE00800, 0x1A400800, .conditionalCompareImmediate⟩,
   ⟨0x1FE00000, 0x1A800000, .conditionalSelect⟩,
   ⟨0x1F000000, 0x1B000000, .dataProcessingThreeSource⟩]

/-- Classes of scalar floating point and advanced SIMD; the last row takes every remaining word. -/
def simdFpClasses : Table InstructionClass :=
  [⟨0xFF3E0C00, 0x4E280800, .cryptographicAes⟩,
   ⟨0x7F20FC00, 0x1E200000, .floatingPointIntegerConversion⟩,
   ⟨0xFF207C00, 0x1E204000, .floatingPointOneSource⟩,
   ⟨0xFF203C00, 0x1E202000, .floatingPointCompare⟩,
   ⟨0xFF201C00, 0x1E201000, .floatingPointImmediate⟩,
   ⟨0xFF200C00, 0x1E200400, .floatingPointConditionalCompare⟩,
   ⟨0xFF200C00, 0x1E200800, .floatingPointTwoSource⟩,
   ⟨0xFF200C00, 0x1E200C00, .floatingPointConditionalSelect⟩,
   ⟨0xFF000000, 0x1F000000, .floatingPointThreeSource⟩,
   ⟨0x9FF80400, 0x0F000400, .simdModifiedImmediate⟩,
   ⟨0x9FE08400, 0x0E000400, .simdCopy⟩,
   ⟨0x9F3E0C00, 0x0E300800, .simdAcrossLanes⟩,
   ⟨0x9F3E0C00, 0x0E200800, .simdTwoRegisterMisc⟩,
   ⟨0x9F200400, 0x0E200400, .simdThreeSame⟩,
   ⟨0x00000000, 0x00000000, .simdOther⟩]

def loadStoreClasses : Table InstructionClass :=
  [⟨0xBFBF0000, 0x0C000000, .simdLoadStoreMultiple⟩,
   ⟨0xBFA00000, 0x0C800000, .simdLoadStoreMultiplePostIndexed⟩,
   ⟨0xBF9F0000, 0x0D000000, .simdLoadStoreSingle⟩,
   ⟨0xBF800000, 0x0D800000, .simdLoadStoreSinglePostIndexed⟩,
   ⟨0xFF200000, 0xD9200000, .loadStoreMemoryTags⟩,
   ⟨0x3F000000, 0x08000000, .loadStoreExclusive⟩,
   ⟨0x3F200C00, 0x19000000, .ldaprStlrUnscaledImmediate⟩,
   ⟨0x3B000000, 0x18000000, .loadRegisterLiteral⟩,
   ⟨0x3B800000, 0x28000000, .loadStoreNoAllocatePairOffset⟩,
   ⟨0x3B800000, 0x28800000, .loadStorePairPostIndexed⟩,
   ⟨0x3B800000, 0x29000000, .loadStorePairOffset⟩,
   ⟨0x3B800000, 0x29800000, .loadStorePairPreIndexed⟩,
   ⟨0x3B200C00, 0x38000000, .loadStoreUnscaledImmediate⟩,
   ⟨0x3B200C00, 0x38000400, .loadStoreImmediatePostIndexed⟩,
   ⟨0x3B200C00, 0x38000800, .loadStoreUnprivileged⟩,
   ⟨0x3B200C00, 0x38000C00, .loadStoreImmediatePreIndexed⟩,
   ⟨0x3B200C00, 0x38200000, .atomicMemoryOperations⟩,
   ⟨0x3B200C00, 0x38200800, .loadStoreRegisterOffset⟩,
   ⟨0x3B200400, 0x38200400, .loadStorePac⟩,
   ⟨0x3B000000, 0x39000000, .loadStoreUnsignedImmediate⟩]

/-- The class table of a group.  SVE has none. -/
def InstructionGroup.classes : InstructionGroup → Table InstructionClass
  | .reserved => reservedClasses
  | .sve => []
  | .dataProcessingImmediate => dataImmediateClasses
  | .branchExceptionSystem => branchSystemClasses
  | .dataProcessingRegister => dataRegisterClasses
  | .simdFp => simdFpClasses
  | .loadStore => loadStoreClasses

/-- The group of a word, if its bits 28..25 are allocated. -/
def groupOf (word : Word) : Option InstructionGroup :=
  groupTable.lookup word

def InstructionGroup.classOf (group : InstructionGroup) (word : Word) : Option InstructionClass :=
  group.classes.lookup word

end A64Machine
