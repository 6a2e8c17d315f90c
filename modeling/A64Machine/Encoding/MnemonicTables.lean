import A64Machine.Encoding.Group
import A64Machine.Encoding.Mnemonic
import A64Machine.Encoding.Table

/-!
The mnemonic tables of the classes that have one.  A table is consulted only for words of its
class, so masks may leave out the bits that the class has already fixed.
-/

namespace A64Machine

/-- The permanently undefined instruction. -/
def udfRows : Table Mnemonic :=
  [⟨0xFFFF0000, 0x00000000, .udf⟩]

def pcRelativeRows : Table Mnemonic :=
  [⟨0x9F000000, 0x10000000, .adr⟩,
   ⟨0x9F000000, 0x90000000, .adrp⟩]

def addSubImmediateRows : Table Mnemonic :=
  [⟨0xFF800000, 0x11000000, .addImmW⟩,
   ⟨0xFF800000, 0x31000000, .addsImmW⟩,
   ⟨0xFF800000, 0x51000000, .subImmW⟩,
   ⟨0xFF800000, 0x71000000, .subsImmW⟩,
   ⟨0xFF800000, 0x91000000, .addImmX⟩,
   ⟨0xFF800000, 0xB1000000, .addsImmX⟩,
   ⟨0xFF800000, 0xD1000000, .subImmX⟩,
   ⟨0xFF800000, 0xF1000000, .subsImmX⟩]

def addSubTagsRows : Table Mnemonic :=
  [⟨0xFFC00000, 0x91800000, .addg⟩,
   ⟨0xFFC00000, 0xD1800000, .subg⟩]

/-- Logical (immediate); the 32-bit forms require bit 22 clear, the 64-bit forms accept either. -/
def logicalImmediateRows : Table Mnemonic :=
  [⟨0xFFC00000, 0x12000000, .andImmW⟩,
   ⟨0xFFC00000, 0x32000000, .orrImmW⟩,
   ⟨0xFFC00000, 0x52000000, .eorImmW⟩,
   ⟨0xFFC00000, 0x72000000, .andsImmW⟩,
   ⟨0xFF800000, 0x92000000, .andImmX⟩,
   ⟨0xFF800000, 0xB2000000, .orrImmX⟩,
   ⟨0xFF800000, 0xD2000000, .eorImmX⟩,
   ⟨0xFF800000, 0xF2000000, .andsImmX⟩]

def moveWideRows : Table Mnemonic :=
  [⟨0xFFC00000, 0x12800000, .movnW⟩,
   ⟨0xFFC00000, 0x52800000, .movzW⟩,
   ⟨0xFFC00000, 0x72800000, .movkW⟩,
   ⟨0xFF800000, 0x92800000, .movnX⟩,
   ⟨0xFF800000, 0xD2800000, .movzX⟩,
   ⟨0xFF800000, 0xF2800000, .movkX⟩]

def bitfieldRows : Table Mnemonic :=
  [⟨0xFFC00000, 0x13000000, .sbfmW⟩,
   ⟨0xFFC00000, 0x33000000, .bfmW⟩,
   ⟨0xFFC00000, 0x53000000, .ubfmW⟩,
   ⟨0xFFC00000, 0x93400000, .sbfmX⟩,
   ⟨0xFFC00000, 0xB3400000, .bfmX⟩,
   ⟨0xFFC00000, 0xD3400000, .ubfmX⟩]

def extractRows : Table Mnemonic :=
  [⟨0xFFE08000, 0x13800000, .extrW⟩,
   ⟨0xFFE00000, 0x93C00000, .extrX⟩]

def conditionalBranchRows : Table Mnemonic :=
  [⟨0xFF000010, 0x54000000, .bCond⟩]

def exceptionRows : Table Mnemonic :=
  [⟨0xFFE0001F, 0xD4000001, .svc⟩,
   ⟨0xFFE0001F, 0xD4000002, .hvc⟩,
   ⟨0xFFE0001F, 0xD4000003, .smc⟩,
   ⟨0xFFE0001F, 0xD4200000, .brk⟩,
   ⟨0xFFE0001F, 0xD4400000, .hlt⟩,
   ⟨0xFFE0001F, 0xD4A00001, .dcps1⟩,
   ⟨0xFFE0001F, 0xD4A00002, .dcps2⟩,
   ⟨0xFFE0001F, 0xD4A00003, .dcps3⟩]

/-- Hints; an unallocated hint is a plain HINT, so the row that takes every hint stays last. -/
def hintRows : Table Mnemonic :=
  [⟨0xFFFFFFFF, 0xD503201F, .nop⟩,
   ⟨0xFFFFFFFF, 0xD503203F, .yield⟩,
   ⟨0xFFFFFFFF, 0xD503205F, .wfe⟩,
   ⟨0xFFFFFFFF, 0xD503207F, .wfi⟩,
   ⟨0xFFFFFFFF, 0xD503209F, .sev⟩,
   ⟨0xFFFFFFFF, 0xD50320BF, .sevl⟩,
   ⟨0xFFFFFFFF, 0xD50320DF, .dgh⟩,
   ⟨0xFFFFFFFF, 0xD50320FF, .xpaclri⟩,
   ⟨0xFFFFFFFF, 0xD503211F, .pacia1716⟩,
   ⟨0xFFFFFFFF, 0xD503215F, .pacib1716⟩,
   ⟨0xFFFFFFFF, 0xD503219F, .autia1716⟩,
   ⟨0xFFFFFFFF, 0xD50321DF, .autib1716⟩,
   ⟨0xFFFFFFFF, 0xD503221F, .esb⟩,
   ⟨0xFFFFFFFF, 0xD503223F, .psbCsync⟩,
   ⟨0xFFFFFFFF, 0xD503225F, .tsbCsync⟩,
   ⟨0xFFFFFFFF, 0xD503229F, .csdb⟩,
   ⟨0xFFFFFFFF, 0xD503231F, .paciaz⟩,
   ⟨0xFFFFFFFF, 0xD503233F, .paciasp⟩,
   ⟨0xFFFFFFFF, 0xD503235F, .pacibz⟩,
   ⟨0xFFFFFFFF, 0xD503237F, .pacibsp⟩,
   ⟨0xFFFFFFFF, 0xD503239F, .autiaz⟩,
   ⟨0xFFFFFFFF, 0xD50323BF, .autiasp⟩,
   ⟨0xFFFFFFFF, 0xD50323DF, .autibz⟩,
   ⟨0xFFFFFFFF, 0xD50323FF, .autibsp⟩,
   ⟨0xFFFFFF3F, 0xD503241F, .bti⟩,
   ⟨0xFFFFF01F, 0xD503201F, .hint⟩]

/-- Barriers; the PSSBB row repeats the encoding of an earlier DSB row and is never reached. -/
def barrierRows : Table Mnemonic :=
  [⟨0xFFFFF0FF, 0xD503305F, .clrex⟩,
   ⟨0xFFFFF0FF, 0xD50330BF, .dmb⟩,
   ⟨0xFFFFF0FF, 0xD50330DF, .isb⟩,
   ⟨0xFFFFF0FF, 0xD50330FF, .sb⟩,
   ⟨0xFFFFFFFF, 0xD503319F, .dsb⟩,
   ⟨0xFFFFFFFF, 0xD503329F, .dsb⟩,
   ⟨0xFFFFFFFF, 0xD503339F, .dsb⟩,
   ⟨0xFFFFFFFF, 0xD503349F, .dsb⟩,
   ⟨0xFFFFFFFF, 0xD503359F, .dsb⟩,
   ⟨0xFFFFFFFF, 0xD503369F, .dsb⟩,
   ⟨0xFFFFFFFF, 0xD503379F, .dsb⟩,
   ⟨0xFFFFFFFF, 0xD503389F, .dsb⟩,
   ⟨0xFFFFFFFF, 0xD503399F, .dsb⟩,
   ⟨0xFFFFFFFF, 0xD5033A9F, .dsb⟩,
   ⟨0xFFFFFFFF, 0xD5033B9F, .dsb⟩,
   ⟨0xFFFFFFFF, 0xD5033C9F, .dsb⟩,
   ⟨0xFFFFFFFF, 0xD5033D9F, .dsb⟩,
   ⟨0xFFFFFFFF, 0xD5033E9F, .dsb⟩,
   ⟨0xFFFFFFFF, 0xD5033F9F, .dsb⟩,
   ⟨0xFFFFFFFF, 0xD503309F, .ssbb⟩,
   ⟨0xFFFFFFFF, 0xD503349F, .pssbb⟩]

/-- PSTATE accesses; the general MSR (immediate) row comes after the three it overlaps. -/
def pStateRows : Table Mnemonic :=
  [⟨0xFFFFF0FF, 0xD500401F, .cfinv⟩,
   ⟨0xFFFFF0FF, 0xD500403F, .xaflag⟩,
   ⟨0xFFFFF0FF, 0xD500405F, .axflag⟩,
   ⟨0xFFF8F01F, 0xD500401F, .msrImmediate⟩]

def systemInstructionRows : Table Mnemonic :=
  [⟨0xFFF80000, 0xD5080000, .sys⟩,
   ⟨0xFFF80000, 0xD5280000, .sysl⟩]

def systemRegisterMoveRows : Table Mnemonic :=
  [⟨0xFFF00000, 0xD5100000, .msr⟩,
   ⟨0xFFF00000, 0xD5300000, .mrs⟩]

def branchRegisterRows : Table Mnemonic :=
  [⟨0xFFFFFC1F, 0xD61F0000, .br⟩,
   ⟨0xFFFFFC1F, 0xD61F081F, .braaz⟩,
   ⟨0xFFFFFC1F, 0xD61F0C1F, .brabz⟩,
   ⟨0xFFFFFC1F, 0xD63F0000, .blr⟩,
   ⟨0xFFFFFC1F, 0xD63F081F, .blraaz⟩,
   ⟨0xFFFFFC1F, 0xD63F0C1F, .blrabz⟩,
   ⟨0xFFFFFC1F, 0xD65F0000, .ret⟩,
   ⟨0xFFFFFFFF, 0xD65F0BFF, .retaa⟩,
   ⟨0xFFFFFFFF, 0xD65F0FFF, .retab⟩,
   ⟨0xFFFFFFFF, 0xD69F03E0, .eret⟩,
   ⟨0xFFFFFFFF, 0xD69F0BFF, .eretaa⟩,
   ⟨0xFFFFFFFF, 0xD69F0FFF, .eretab⟩,
   ⟨0xFFFFFFFF, 0xD6BF03E0, .drps⟩,
   ⟨0xFFFFFC00, 0xD71F0800, .braa⟩,
   ⟨0xFFFFFC00, 0xD71F0C00, .brab⟩,
   ⟨0xFFFFFC00, 0xD73F0800, .blraa⟩,
   ⟨0xFFFFFC00, 0xD73F0C00, .blrab⟩]

def branchImmediateRows : Table Mnemonic :=
  [⟨0xFC000000, 0x14000000, .b⟩,
   ⟨0xFC000000, 0x94000000, .bl⟩]

def compareBranchRows : Table Mnemonic :=
  [⟨0xFF000000, 0x34000000, .cbzW⟩,
   ⟨0xFF000000, 0x35000000, .cbnzW⟩,
   ⟨0xFF000000, 0xB4000000, .cbzX⟩,
   ⟨0xFF000000, 0xB5000000, .cbnzX⟩]

def testBranchRows : Table Mnemonic :=
  [⟨0x7F000000, 0x36000000, .tbz⟩,
   ⟨0x7F000000, 0x37000000, .tbnz⟩]

def twoSourceRows : Table Mnemonic :=
  [⟨0xFFE0FC00, 0x1AC00800, .udivW⟩,
   ⟨0xFFE0FC00, 0x1AC00C00, .sdivW⟩,
   ⟨0xFFE0FC00, 0x1AC02000, .lslvW⟩,
   ⟨0xFFE0FC00, 0x1AC02400, .lsrvW⟩,
   ⟨0xFFE0FC00, 0x1AC02800, .asrvW⟩,
   ⟨0xFFE0FC00, 0x1AC02C00, .rorvW⟩,
   ⟨0xFFE0FC00, 0x1AC04000, .crc32b⟩,
   ⟨0xFFE0FC00, 0x1AC04400, .crc32h⟩,
   ⟨0xFFE0FC00, 0x1AC04800, .crc32w⟩,
   ⟨0xFFE0FC00, 0x1AC05000, .crc32cb⟩,
   ⟨0xFFE0FC00, 0x1AC05400, .crc32ch⟩,
   ⟨0xFFE0FC00, 0x1AC05800, .crc32cw⟩,
   ⟨0xFFE0FC00, 0x9AC00000, .subp⟩,
   ⟨0xFFE0FC00, 0x9AC00800, .udivX⟩,
   ⟨0xFFE0FC00, 0x9AC00C00, .sdivX⟩,
   ⟨0xFFE0FC00, 0x9AC01000, .irg⟩,
   ⟨0xFFE0FC00, 0x9AC01400, .gmi⟩,
   ⟨0xFFE0FC00, 0x9AC02000, .lslvX⟩,
   ⟨0xFFE0FC00, 0x9AC02400, .lsrvX⟩,
   ⟨0xFFE0FC00, 0x9AC02800, .asrvX⟩,
   ⟨0xFFE0FC00, 0x9AC02C00, .rorvX⟩,
   ⟨0xFFE0FC00, 0x9AC03000, .pacga⟩,
   ⟨0xFFE0FC00, 0x9AC04C00, .crc32x⟩,
   ⟨0xFFE0FC00, 0x9AC05C00, .crc32cx⟩,
   ⟨0xFFE0FC00, 0xBAC00000, .subps⟩]

def oneSourceRows : Table Mnemonic :=
  [⟨0xFFFFFC00, 0x5AC00000, .rbitW⟩,
   ⟨0xFFFFFC00, 0x5AC00400, .rev16W⟩,
   ⟨0xFFFFFC00, 0x5AC00800, .revW⟩,
   ⟨0xFFFFFC00, 0x5AC01000, .clzW⟩,
   ⟨0xFFFFFC00, 0x5AC01400, .clsW⟩,
   ⟨0xFFFFFC00, 0xDAC00000, .rbitX⟩,
   ⟨0xFFFFFC00, 0xDAC00400, .rev16X⟩,
   ⟨0xFFFFFC00, 0xDAC00800, .rev32⟩,
   ⟨0xFFFFFC00, 0xDAC00C00, .revX⟩,
   ⟨0xFFFFFC00, 0xDAC01000, .clzX⟩,
   ⟨0xFFFFFC00, 0xDAC01400, .clsX⟩,
   ⟨0xFFFFFC00, 0xDAC10000, .pacia⟩,
   ⟨0xFFFFFC00, 0xDAC10400, .pacib⟩,
   ⟨0xFFFFFC00, 0xDAC10800, .pacda⟩,
   ⟨0xFFFFFC00, 0xDAC10C00, .pacdb⟩,
   ⟨0xFFFFFC00, 0xDAC11000, .autia⟩,
   ⟨0xFFFFFC00, 0xDAC11400, .autib⟩,
   ⟨0xFFFFFC00, 0xDAC11800, .autda⟩,
   ⟨0xFFFFFC00, 0xDAC11C00, .autdb⟩,
   ⟨0xFFFFFFE0, 0xDAC123E0, .paciza⟩,
   ⟨0xFFFFFFE0, 0xDAC127E0, .pacizb⟩,
   ⟨0xFFFFFFE0, 0xDAC12BE0, .pacdza⟩,
   ⟨0xFFFFFFE0, 0xDAC12FE0, .pacdzb⟩,
   ⟨0xFFFFFFE0, 0xDAC133E0, .autiza⟩,
   ⟨0xFFFFFFE0, 0xDAC137E0, .autizb⟩,
   ⟨0xFFFFFFE0, 0xDAC13BE0, .autdza⟩,
   ⟨0xFFFFFFE0, 0xDAC13FE0, .autdzb⟩,
   ⟨0xFFFFFFE0, 0xDAC143E0, .xpaci⟩,
   ⟨0xFFFFFFE0, 0xDAC147E0, .xpacd⟩]

def logicalShiftedRows : Table Mnemonic :=
  [⟨0xFF200000, 0x0A000000, .andW⟩,
   ⟨0xFF200000, 0x0A200000, .bicW⟩,
   ⟨0xFF200000, 0x2A000000, .orrW⟩,
   ⟨0xFF200000, 0x2A200000, .ornW⟩,
   ⟨0xFF200000, 0x4A000000, .eorW⟩,
   ⟨0xFF200000, 0x4A200000, .eonW⟩,
   ⟨0xFF200000, 0x6A000000, .andsW⟩,
   ⟨0xFF200000, 0x6A200000, .bicsW⟩,
   ⟨0xFF200000, 0x8A000000, .andX⟩,
   ⟨0xFF200000, 0x8A200000, .bicX⟩,
   ⟨0xFF200000, 0xAA000000, .orrX⟩,
   ⟨0xFF200000, 0xAA200000, .ornX⟩,
   ⟨0xFF200000, 0xCA000000, .eorX⟩,
   ⟨0xFF200000, 0xCA200000, .eonX⟩,
   ⟨0xFF200000, 0xEA000000, .andsX⟩,
   ⟨0xFF200000, 0xEA200000, .bicsX⟩]

def addSubShiftedRows : Table Mnemonic :=
  [⟨0xFF200000, 0x0B000000, .addW⟩,
   ⟨0xFF200000, 0x2B000000, .addsW⟩,
   ⟨0xFF200000, 0x4B000000, .subW⟩,
   ⟨0xFF200000, 0x6B000000, .subsW⟩,
   ⟨0xFF200000, 0x8B000000, .addX⟩,
   ⟨0xFF200000, 0xAB000000, .addsX⟩,
   ⟨0xFF200000, 0xCB000000, .subX⟩,
   ⟨0xFF200000, 0xEB000000, .subsX⟩]

def addSubExtendedRows : Table Mnemonic :=
  [⟨0xFFE00000, 0x0B200000, .addExtW⟩,
   ⟨0xFFE00000, 0x2B200000, .addsExtW⟩,
   ⟨0xFFE00000, 0x4B200000, .subExtW⟩,
   ⟨0xFFE00000, 0x6B200000, .subsExtW⟩,
   ⟨0xFFE00000, 0x8B200000, .addExtX⟩,
   ⟨0xFFE00000, 0xAB200000, .addsExtX⟩,
   ⟨0xFFE00000, 0xCB200000, .subExtX⟩,
   ⟨0xFFE00000, 0xEB200000, .subsExtX⟩]

def addSubCarryRows : Table Mnemonic :=
  [⟨0xFFE00000, 0x1A000000, .adcW⟩,
   ⟨0xFFE00000, 0x3A000000, .adcsW⟩,
   ⟨0xFFE00000, 0x5A000000, .sbcW⟩,
   ⟨0xFFE00000, 0x7A000000, .sbcsW⟩,
   ⟨0xFFE00000, 0x9A000000, .adcX⟩,
   ⟨0xFFE00000, 0xBA000000, .adcsX⟩,
   ⟨0xFFE00000, 0xDA000000, .sbcX⟩,
   ⟨0xFFE00000, 0xFA000000, .sbcsX⟩]

def rotateIntoFlagsRows : Table Mnemonic :=
  [⟨0xFFE07C10, 0xBA000400, .rmif⟩]

def evaluateIntoFlagsRows : Table Mnemonic :=
  [⟨0xFFFFFC1F, 0x3A00080D, .setf8⟩,
   ⟨0xFFFFFC1F, 0x3A00480D, .setf16⟩]

def conditionalCompareRegisterRows : Table Mnemonic :=
  [⟨0xFFE00C10, 0x3A400000, .ccmnRegW⟩,
   ⟨0xFFE00C10, 0x7A400000, .ccmpRegW⟩,
   ⟨0xFFE00C10, 0xBA400000, .ccmnRegX⟩,
   ⟨0xFFE00C10, 0xFA400000, .ccmpRegX⟩]

def conditionalCompareImmediateRows : Table Mnemonic :=
  [⟨0xFFE00C10, 0x3A400800, .ccmnImmW⟩,
   ⟨0xFFE00C10, 0x7A400800, .ccmpImmW⟩,
   ⟨0xFFE00C10, 0xBA400800, .ccmnImmX⟩,
   ⟨0xFFE00C10, 0xFA400800, .ccmpImmX⟩]

def conditionalSelectRows : Table Mnemonic :=
  [⟨0xFFE00C00, 0x1A800000, .cselW⟩,
   ⟨0xFFE00C00, 0x1A800400, .csincW⟩,
   ⟨0xFFE00C00, 0x5A800000, .csinvW⟩,
   ⟨0xFFE00C00, 0x5A800400, .csnegW⟩,
   ⟨0xFFE00C00, 0x9A800000, .cselX⟩,
   ⟨0xFFE00C00, 0x9A800400, .csincX⟩,
   ⟨0xFFE00C00, 0xDA800000, .csinvX⟩,
   ⟨0xFFE00C00, 0xDA800400, .csnegX⟩]

def threeSourceRows : Table Mnemonic :=
  [⟨0xFFE08000, 0x1B000000, .maddW⟩,
   ⟨0xFFE08000, 0x1B008000, .msubW⟩,
   ⟨0xFFE08000, 0x9B000000, .maddX⟩,
   ⟨0xFFE08000, 0x9B008000, .msubX⟩,
   ⟨0xFFE08000, 0x9B200000, .smaddl⟩,
   ⟨0xFFE08000, 0x9B208000, .smsubl⟩,
   ⟨0xFFE08000, 0x9B400000, .smulh⟩,
   ⟨0xFFE08000, 0x9BA00000, .umaddl⟩,
   ⟨0xFFE08000, 0x9BA08000, .umsubl⟩,
   ⟨0xFFE08000, 0x9BC00000, .umulh⟩]

/-- Load register (literal), selected by bits 31..30 and 26 alone. -/
def literalRows : Table Mnemonic :=
  [⟨0xC4000000, 0x00000000, .ldrW⟩,
   ⟨0xC4000000, 0x40000000, .ldrX⟩,
   ⟨0xC4000000, 0x80000000, .ldrsw⟩,
   ⟨0xC4000000, 0xC0000000, .prfm⟩,
   ⟨0xC4000000, 0x04000000, .ldrSimd⟩,
   ⟨0xC4000000, 0x44000000, .ldrSimd⟩,
   ⟨0xC4000000, 0x84000000, .ldrSimd⟩]

/-- Load/store pair, selected by bits 31..30, 26 and 22 alone. -/
def pairRows : Table Mnemonic :=
  [⟨0xC4400000, 0x00000000, .stpW⟩,
   ⟨0xC4400000, 0x00400000, .ldpW⟩,
   ⟨0xC4400000, 0x40000000, .stgp⟩,
   ⟨0xC4400000, 0x40400000, .ldpsw⟩,
   ⟨0xC4400000, 0x80000000, .stpX⟩,
   ⟨0xC4400000, 0x80400000, .ldpX⟩,
   ⟨0xC4400000, 0x04000000, .stpSimd⟩,
   ⟨0xC4400000, 0x04400000, .ldpSimd⟩,
   ⟨0xC4400000, 0x44000000, .stpSimd⟩,
   ⟨0xC4400000, 0x44400000, .ldpSimd⟩,
   ⟨0xC4400000, 0x84000000, .stpSimd⟩,
   ⟨0xC4400000, 0x84400000, .ldpSimd⟩]

/-- Load/store register, selected by bits 31..30, 26 and 23..22 alone; several addressing forms
share it. -/
def registerRows : Table Mnemonic :=
  [⟨0xC4C00000, 0x00000000, .strb⟩,
   ⟨0xC4C00000, 0x00400000, .ldrb⟩,
   ⟨0xC4C00000, 0x00800000, .ldrsbX⟩,
   ⟨0xC4C00000, 0x00C00000, .ldrsbW⟩,
   ⟨0xC4C00000, 0x04000000, .strSimd⟩,
   ⟨0xC4C00000, 0x04400000, .ldrSimd⟩,
   ⟨0xC4C00000, 0x04800000, .strSimd⟩,
   ⟨0xC4C00000, 0x04C00000, .ldrSimd⟩,
   ⟨0xC4C00000, 0x40000000, .strh⟩,
   ⟨0xC4C00000, 0x40400000, .ldrh⟩,
   ⟨0xC4C00000, 0x40800000, .ldrshX⟩,
   ⟨0xC4C00000, 0x40C00000, .ldrshW⟩,
   ⟨0xC4C00000, 0x44000000, .strSimd⟩,
   ⟨0xC4C00000, 0x44400000, .ldrSimd⟩,
   ⟨0xC4C00000, 0x80000000, .strW⟩,
   ⟨0xC4C00000, 0x80400000, .ldrW⟩,
   ⟨0xC4C00000, 0x80800000, .ldrsw⟩,
   ⟨0xC4C00000, 0x84000000, .strSimd⟩,
   ⟨0xC4C00000, 0x84400000, .ldrSimd⟩,
   ⟨0xC4C00000, 0xC0000000, .strX⟩,
   ⟨0xC4C00000, 0xC0400000, .ldrX⟩,
   ⟨0xC4C00000, 0xC0800000, .prfm⟩,
   ⟨0xC4C00000, 0xC4000000, .strSimd⟩,
   ⟨0xC4C00000, 0xC4400000, .ldrSimd⟩]

def floatConversionRows : Table Mnemonic :=
  [⟨0xFFFFFC00, 0x1E260000, .fmovToGeneral⟩,
   ⟨0xFFFFFC00, 0x1E270000, .fmovFromGeneral⟩,
   ⟨0xFFFFFC00, 0x9E660000, .fmovToGeneral⟩,
   ⟨0xFFFFFC00, 0x9E670000, .fmovFromGeneral⟩,
   ⟨0xFFFFFC00, 0x1E220000, .scvtf⟩,
   ⟨0xFFFFFC00, 0x1E230000, .ucvtf⟩,
   ⟨0xFFFFFC00, 0x9E620000, .scvtf⟩,
   ⟨0xFFFFFC00, 0x9E630000, .ucvtf⟩,
   ⟨0xFFFFFC00, 0x1E380000, .fcvtzs⟩,
   ⟨0xFFFFFC00, 0x1E390000, .fcvtzu⟩,
   ⟨0xFFFFFC00, 0x9E780000, .fcvtzs⟩,
   ⟨0xFFFFFC00, 0x9E790000, .fcvtzu⟩]

/-- Floating-point data processing (1 source); the masks leave bits 23..22 out, so every precision
shares a row. -/
def floatOneSourceRows : Table Mnemonic :=
  [⟨0xFF3FFC00, 0x1E204000, .fmovRegister⟩,
   ⟨0xFF3FFC00, 0x1E20C000, .fabs⟩,
   ⟨0xFF3FFC00, 0x1E214000, .fneg⟩,
   ⟨0xFF3FFC00, 0x1E21C000, .fsqrt⟩]

def floatCompareRows : Table Mnemonic :=
  [⟨0xFF20FC17, 0x1E202000, .fcmp⟩,
   ⟨0xFF20FC17, 0x1E202010, .fcmpe⟩]

def floatImmediateRows : Table Mnemonic :=
  [⟨0xFF201FE0, 0x1E201000, .fmovImmediate⟩]

def floatConditionalCompareRows : Table Mnemonic :=
  [⟨0xFF200C10, 0x1E200400, .fccmp⟩,
   ⟨0xFF200C10, 0x1E200410, .fccmpe⟩]

def floatTwoSourceRows : Table Mnemonic :=
  [⟨0xFF20FC00, 0x1E200800, .fmul⟩,
   ⟨0xFF20FC00, 0x1E201800, .fdiv⟩,
   ⟨0xFF20FC00, 0x1E202800, .fadd⟩,
   ⟨0xFF20FC00, 0x1E203800, .fsub⟩,
   ⟨0xFF20FC00, 0x1E204800, .fmax⟩,
   ⟨0xFF20FC00, 0x1E205800, .fmin⟩,
   ⟨0xFF20FC00, 0x1E206800, .fmaxnm⟩,
   ⟨0xFF20FC00, 0x1E207800, .fminnm⟩,
   ⟨0xFF20FC00, 0x1E208800, .fnmul⟩]

def floatConditionalSelectRows : Table Mnemonic :=
  [⟨0xFF200C00, 0x1E200C00, .fcsel⟩]

def floatThreeSourceRows : Table Mnemonic :=
  [⟨0xFF208000, 0x1F000000, .fmadd⟩,
   ⟨0xFF208000, 0x1F008000, .fmsub⟩,
   ⟨0xFF208000, 0x1F200000, .fnmadd⟩,
   ⟨0xFF208000, 0x1F208000, .fnmsub⟩]

/-- The mnemonic table of a class; `none` when the class is recognised but not taken further. -/
def InstructionClass.mnemonics : InstructionClass → Option (Table Mnemonic)
  | .udf => some udfRows
  | .pcRelativeAddressing => some pcRelativeRows
  | .addSubtractImmediate => some addSubImmediateRows
  | .addSubtractImmediateWithTags => some addSubTagsRows
  | .logicalImmediate => some logicalImmediateRows
  | .moveWideImmediate => some moveWideRows
  | .bitfield => some bitfieldRows
  | .extract => some extractRows
  | .conditionalBranch => some conditionalBranchRows
  | .exceptionGeneration => some exceptionRows
  | .hints => some hintRows
  | .barriers => some barrierRows
  | .pState => some pStateRows
  | .systemInstructions => some systemInstructionRows
  | .systemRegisterMove => some systemRegisterMoveRows
  | .unconditionalBranchRegister => some branchRegisterRows
  | .unconditionalBranchImmediate => some branchImmediateRows
  | .compareAndBranch => some compareBranchRows
  | .testAndBranch => some testBranchRows
  | .dataProcessingTwoSource => some twoSourceRows
  | .dataProcessingOneSource => some oneSourceRows
  | .logicalShiftedRegister => some logicalShiftedRows
  | .addSubtractShiftedRegister => some addSubShiftedRows
  | .addSubtractExtendedRegister => some addSubExtendedRows
  | .addSubtractWithCarry => some addSubCarryRows
  | .rotateRightIntoFlags => some rotateIntoFlagsRows
  | .evaluateIntoFlags => some evaluateIntoFlagsRows
  | .conditionalCompareRegister => some conditionalCompareRegisterRows
  | .conditionalCompareImmediate => some conditionalCompareImmediateRows
  | .conditionalSelect => some conditionalSelectRows
  | .dataProcessingThreeSource => some threeSourceRows
  | .loadRegisterLiteral => some literalRows
  | .loadStorePairPostIndexed | .loadStorePairOffset | .loadStorePairPreIndexed => some pairRows
  | .loadStoreImmediatePostIndexed | .loadStoreImmediatePreIndexed | .loadStoreRegisterOffset
  | .loadStoreUnsignedImmediate => some registerRows
  | .floatingPointIntegerConversion => some floatConversionRows
  | .floatingPointOneSource => some floatOneSourceRows
  | .floatingPointCompare => some floatCompareRows
  | .floatingPointImmediate => some floatImmediateRows
  | .floatingPointConditionalCompare => some floatConditionalCompareRows
  | .floatingPointTwoSource => some floatTwoSourceRows
  | .floatingPointConditionalSelect => some floatConditionalSelectRows
  | .floatingPointThreeSource => some floatThreeSourceRows
  | .simdLoadStoreMultiple | .simdLoadStoreMultiplePostIndexed | .simdLoadStoreSingle
  | .simdLoadStoreSinglePostIndexed | .loadStoreMemoryTags | .loadStoreExclusive
  | .ldaprStlrUnscaledImmediate | .loadStoreNoAllocatePairOffset | .loadStoreUnscaledImmediate
  | .loadStoreUnprivileged | .atomicMemoryOperations | .loadStorePac | .cryptographicAes
  | .simdModifiedImmediate | .simdCopy | .simdAcrossLanes | .simdTwoRegisterMisc
  | .simdThreeSame | .simdOther => none

/-- The mnemonic of a word of `c`; `none` both when there is no table and when no row matches. -/
def InstructionClass.mnemonicOf (c : InstructionClass) (word : Word) : Option Mnemonic :=
  c.mnemonics.bind (·.lookup word)

end A64Machine
