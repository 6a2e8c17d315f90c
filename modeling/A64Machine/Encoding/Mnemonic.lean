/-!
The mnemonics that the decode tables produce.  A trailing `W` or `X` separates the 32-bit and
64-bit forms of one printed name, so distinct mnemonics may share their text.
-/

namespace A64Machine

/-- An instruction mnemonic, one per form that the tables tell apart. -/
inductive Mnemonic where
  | udf
  | adr | adrp | addImmW | addsImmW | subImmW | subsImmW | addImmX | addsImmX | subImmX
  | subsImmX | addg | subg | andImmW | orrImmW | eorImmW | andsImmW | andImmX | orrImmX
  | eorImmX | andsImmX | movnW | movzW | movkW | movnX | movzX | movkX | sbfmW | bfmW | ubfmW
  | sbfmX | bfmX | ubfmX | extrW | extrX
  | bCond | svc | hvc | smc | brk | hlt | dcps1 | dcps2 | dcps3 | nop | yield | wfe | wfi | sev
  | sevl | dgh | xpaclri | pacia1716 | pacib1716 | autia1716 | autib1716 | esb | psbCsync
  | tsbCsync | csdb | paciaz | paciasp | pacibz | pacibsp | autiaz | autiasp | autibz | autibsp
  | bti | hint | clrex | dmb | isb | sb | dsb | ssbb | pssbb | cfinv | xaflag | axflag
  | msrImmediate | sys | sysl | msr | mrs | br | braaz | brabz | blr | blraaz | blrabz | ret
  | retaa | retab | eret | eretaa | eretab | drps | braa | brab | blraa | blrab | b | bl | cbzW
  | cbnzW | cbzX | cbnzX | tbz | tbnz
  | udivW | sdivW | lslvW | lsrvW | asrvW | rorvW | crc32b | crc32h | crc32w | crc32cb
  | crc32ch | crc32cw | subp | udivX | sdivX | irg | gmi | lslvX | lsrvX | asrvX | rorvX
  | pacga | crc32x | crc32cx | subps | rbitW | rev16W | revW | clzW | clsW | rbitX | rev16X
  | rev32 | revX | clzX | clsX | pacia | pacib | pacda | pacdb | autia | autib | autda | autdb
  | paciza | pacizb | pacdza | pacdzb | autiza | autizb | autdza | autdzb | xpaci | xpacd
  | andW | bicW | orrW | ornW | eorW | eonW | andsW | bicsW | andX | bicX | orrX | ornX | eorX
  | eonX | andsX | bicsX | addW | addsW | subW | subsW | addX | addsX | subX | subsX | addExtW
  | addsExtW | subExtW | subsExtW | addExtX | addsExtX | subExtX | subsExtX | adcW | adcsW
  | sbcW | sbcsW | adcX | adcsX | sbcX | sbcsX | rmif | setf8 | setf16 | ccmnRegW | ccmpRegW
  | ccmnRegX | ccmpRegX | ccmnImmW | ccmpImmW | ccmnImmX | ccmpImmX | cselW | csincW | csinvW
  | csnegW | cselX | csincX | csinvX | csnegX | maddW | msubW | maddX | msubX | smaddl | smsubl
  | smulh | umaddl | umsubl | umulh
  | strb | ldrb | ldrsbX | ldrsbW | strh | ldrh | ldrshX | ldrshW | strW | ldrW | ldrsw | strX
  | ldrX | prfm | strSimd | ldrSimd | stpW | ldpW | stgp | ldpsw | stpX | ldpX | stpSimd
  | ldpSimd
  | fmovToGeneral | fmovFromGeneral | scvtf | ucvtf | fcvtzs | fcvtzu | fmovRegister | fabs
  | fneg | fsqrt | fcmp | fcmpe | fmovImmediate | fccmp | fccmpe | fmul | fdiv | fadd | fsub
  | fmax | fmin | fmaxnm | fminnm | fnmul | fcsel | fmadd | fmsub | fnmadd | fnmsub
  deriving Repr, DecidableEq

def Mnemonic.all : List Mnemonic :=
  [.udf,
   .adr, .adrp, .addImmW, .addsImmW, .subImmW, .subsImmW, .addImmX, .addsImmX, .subImmX,
   .subsImmX, .addg, .subg, .andImmW, .orrImmW, .eorImmW, .andsImmW, .andImmX, .orrImmX,
   .eorImmX, .andsImmX, .movnW, .movzW, .movkW, .movnX, .movzX, .movkX, .sbfmW, .bfmW, .ubfmW,
   .sbfmX, .bfmX, .ubfmX, .extrW, .extrX,
   .bCond, .svc, .hvc, .smc, .brk, .hlt, .dcps1, .dcps2, .dcps3, .nop, .yield, .wfe, .wfi,
   .sev, .sevl, .dgh, .xpaclri, .pacia1716, .pacib1716, .autia1716, .autib1716, .esb,
   .psbCsync, .tsbCsync, .csdb, .paciaz, .paciasp, .pacibz, .pacibsp, .autiaz, .autiasp,
   .autibz, .autibsp, .bti, .hint, .clrex, .dmb, .isb, .sb, .dsb, .ssbb, .pssbb, .cfinv,
   .xaflag, .axflag, .msrImmediate, .sys, .sysl, .msr, .mrs, .br, .braaz, .brabz, .blr,
   .blraaz, .blrabz, .ret, .retaa, .retab, .eret, .eretaa, .eretab, .drps, .braa, .brab,
   .blraa, .blrab, .b, .bl, .cbzW, .cbnzW, .cbzX, .cbnzX, .tbz, .tbnz,
   .udivW, .sdivW, .lslvW, .lsrvW, .asrvW, .rorvW, .crc32b, .crc32h, .crc32w, .crc32cb,
   .crc32ch, .crc32cw, .subp, .udivX, .sdivX, .irg, .gmi, .lslvX, .lsrvX, .asrvX, .rorvX,
   .pacga, .crc32x, .crc32cx, .subps, .rbitW, .rev16W, .revW, .clzW, .clsW, .rbitX, .rev16X,
   .rev32, .revX, .clzX, .clsX, .pacia, .pacib, .pacda, .pacdb, .autia, .autib, .autda, .autdb,
   .paciza, .pacizb, .pacdza, .pacdzb, .autiza, .autizb, .autdza, .autdzb, .xpaci, .xpacd,
   .andW, .bicW, .orrW, .ornW, .eorW, .eonW, .andsW, .bicsW, .andX, .bicX, .orrX, .ornX, .eorX,
   .eonX, .andsX, .bicsX, .addW, .addsW, .subW, .subsW, .addX, .addsX, .subX, .subsX, .addExtW,
   .addsExtW, .subExtW, .subsExtW, .addExtX, .addsExtX, .subExtX, .subsExtX, .adcW, .adcsW,
   .sbcW, .sbcsW, .adcX, .adcsX, .sbcX, .sbcsX, .rmif, .setf8, .setf16, .ccmnRegW, .ccmpRegW,
   .ccmnRegX, .ccmpRegX, .ccmnImmW, .ccmpImmW, .ccmnImmX, .ccmpImmX, .cselW, .csincW, .csinvW,
   .csnegW, .cselX, .csincX, .csinvX, .csnegX, .maddW, .msubW, .maddX, .msubX, .smaddl,
   .smsubl, .smulh, .umaddl, .umsubl, .umulh,
   .strb, .ldrb, .ldrsbX, .ldrsbW, .strh, .ldrh, .ldrshX, .ldrshW, .strW, .ldrW, .ldrsw, .strX,
   .ldrX, .prfm, .strSimd, .ldrSimd, .stpW, .ldpW, .stgp, .ldpsw, .stpX, .ldpX, .stpSimd,
   .ldpSimd,
   .fmovToGeneral, .fmovFromGeneral, .scvtf, .ucvtf, .fcvtzs, .fcvtzu, .fmovRegister, .fabs,
   .fneg, .fsqrt, .fcmp, .fcmpe, .fmovImmediate, .fccmp, .fccmpe, .fmul, .fdiv, .fadd, .fsub,
   .fmax, .fmin, .fmaxnm, .fminnm, .fnmul, .fcsel, .fmadd, .fmsub, .fnmadd, .fnmsub]

/-- The name printed in a listing; register-width suffixes are not part of it. -/
def Mnemonic.text : Mnemonic → String
  | .udf => "UDF"
  | .adr => "ADR"
  | .adrp => "ADRP"
  | .addImmW | .addImmX | .addW | .addX | .addExtW | .addExtX => "ADD"
  | .addsImmW | .addsImmX | .addsW | .addsX | .addsExtW | .addsExtX => "ADDS"
  | .subImmW | .subImmX | .subW | .subX | .subExtW | .subExtX => "SUB"
  | .subsImmW | .subsImmX | .subsW | .subsX | .subsExtW | .subsExtX => "SUBS"
  | .addg => "ADDG"
  | .subg => "SUBG"
  | .andImmW | .andImmX | .andW | .andX => "AND"
  | .orrImmW | .orrImmX | .orrW | .orrX => "ORR"
  | .eorImmW | .eorImmX | .eorW | .eorX => "EOR"
  | .andsImmW | .andsImmX | .andsW | .andsX => "ANDS"
  | .movnW | .movnX => "MOVN"
  | .movzW | .movzX => "MOVZ"
  | .movkW | .movkX => "MOVK"
  | .sbfmW | .sbfmX => "SBFM"
  | .bfmW | .bfmX => "BFM"
  | .ubfmW | .ubfmX => "UBFM"
  | .extrW | .extrX => "EXTR"
  | .bCond => "B.cond"
  | .svc => "SVC"
  | .hvc => "HVC"
  | .smc => "SMC"
  | .brk => "BRK"
  | .hlt => "HLT"
  | .dcps1 => "DCPS1"
  | .dcps2 => "DCPS2"
  | .dcps3 => "DCPS3"
  | .nop => "NOP"
  | .yield => "YIELD"
  | .wfe => "WFE"
  | .wfi => "WFI"
  | .sev => "SEV"
  | .sevl => "SEVL"
  | .dgh => "DGH"
  | .xpaclri => "XPACLRI"
  | .pacia1716 => "PACIA1716"
  | .pacib1716 => "PACIB1716"
  | .autia1716 => "AUTIA1716"
  | .autib1716 => "AUTIB1716"
  | .esb => "ESB"
  | .psbCsync => "PSB_CSYNC"
  | .tsbCsync => "TSB_CSYNC"
  | .csdb => "CSDB"
  | .paciaz => "PACIAZ"
  | .paciasp => "PACIASP"
  | .pacibz => "PACIBZ"
  | .pacibsp => "PACIBSP"
  | .autiaz => "AUTIAZ"
  | .autiasp => "AUTIASP"
  | .autibz => "AUTIBZ"
  | .autibsp => "AUTIBSP"
  | .bti => "BTI"
  | .hint => "HINT"
  | .clrex => "CLREX"
  | .dmb => "DMB"
  | .isb => "ISB"
  | .sb => "SB"
  | .dsb => "DSB"
  | .ssbb => "SSBB"
  | .pssbb => "PSSBB"
  | .cfinv => "CFINV"
  | .xaflag => "XAFLAG"
  | .axflag => "AXFLAG"
  | .msrImmediate | .msr => "MSR"
  | .sys => "SYS"
  | .sysl => "SYSL"
  | .mrs => "MRS"
  | .br => "BR"
  | .braaz => "BRAAZ"
  | .brabz => "BRABZ"
  | .blr => "BLR"
  | .blraaz => "BLRAAZ"
  | .blrabz => "BLRABZ"
  | .ret => "RET"
  | .retaa => "RETAA"
  | .retab => "RETAB"
  | .eret => "ERET"
  | .eretaa => "ERETAA"
  | .eretab => "ERETAB"
  | .drps => "DRPS"
  | .braa => "BRAA"
  | .brab => "BRAB"
  | .blraa => "BLRAA"
  | .blrab => "BLRAB"
  | .b => "B"
  | .bl => "BL"
  | .cbzW | .cbzX => "CBZ"
  | .cbnzW | .cbnzX => "CBNZ"
  | .tbz => "TBZ"
  | .tbnz => "TBNZ"
  | .udivW | .udivX => "UDIV"
  | .sdivW | .sdivX => "SDIV"
  | .lslvW | .lslvX => "LSLV"
  | .lsrvW | .lsrvX => "LSRV"
  | .asrvW | .asrvX => "ASRV"
  | .rorvW | .rorvX => "RORV"
  | .crc32b => "CRC32B"
  | .crc32h => "CRC32H"
  | .crc32w => "CRC32W"
  | .crc32cb => "CRC32CB"
  | .crc32ch => "CRC32CH"
  | .crc32cw => "CRC32CW"
  | .subp => "SUBP"
  | .irg => "IRG"
  | .gmi => "GMI"
  | .pacga => "PACGA"
  | .crc32x => "CRC32X"
  | .crc32cx => "CRC32CX"
  | .subps => "SUBPS"
  | .rbitW | .rbitX => "RBIT"
  | .rev16W | .rev16X => "REV16"
  | .revW | .revX => "REV"
  | .clzW | .clzX => "CLZ"
  | .clsW | .clsX => "CLS"
  | .rev32 => "REV32"
  | .pacia => "PACIA"
  | .pacib => "PACIB"
  | .pacda => "PACDA"
  | .pacdb => "PACDB"
  | .autia => "AUTIA"
  | .autib => "AUTIB"
  | .autda => "AUTDA"
  | .autdb => "AUTDB"
  | .paciza => "PACIZA"
  | .pacizb => "PACIZB"
  | .pacdza => "PACDZA"
  | .pacdzb => "PACDZB"
  | .autiza => "AUTIZA"
  | .autizb => "AUTIZB"
  | .autdza => "AUTDZA"
  | .autdzb => "AUTDZB"
  | .xpaci => "XPACI"
  | .xpacd => "XPACD"
  | .bicW | .bicX => "BIC"
  | .ornW | .ornX => "ORN"
  | .eonW | .eonX => "EON"
  | .bicsW | .bicsX => "BICS"
  | .adcW | .adcX => "ADC"
  | .adcsW | .adcsX => "ADCS"
  | .sbcW | .sbcX => "SBC"
  | .sbcsW | .sbcsX => "SBCS"
  | .rmif => "RMIF"
  | .setf8 => "SETF8"
  | .setf16 => "SETF16"
  | .ccmnRegW | .ccmnRegX | .ccmnImmW | .ccmnImmX => "CCMN"
  | .ccmpRegW | .ccmpRegX | .ccmpImmW | .ccmpImmX => "CCMP"
  | .cselW | .cselX => "CSEL"
  | .csincW | .csincX => "CSINC"
  | .csinvW | .csinvX => "CSINV"
  | .csnegW | .csnegX => "CSNEG"
  | .maddW | .maddX => "MADD"
  | .msubW | .msubX => "MSUB"
  | .smaddl => "SMADDL"
  | .smsubl => "SMSUBL"
  | .smulh => "SMULH"
  | .umaddl => "UMADDL"
  | .umsubl => "UMSUBL"
  | .umulh => "UMULH"
  | .strb => "STRB"
  | .ldrb => "LDRB"
  | .ldrsbX | .ldrsbW => "LDRSB"
  | .strh => "STRH"
  | .ldrh => "LDRH"
  | .ldrshX | .ldrshW => "LDRSH"
  | .strW | .strX | .strSimd => "STR"
  | .ldrW | .ldrX | .ldrSimd => "LDR"
  | .ldrsw => "LDRSW"
  | .prfm => "PRFM"
  | .stpW | .stpX | .stpSimd => "STP"
  | .ldpW | .ldpX | .ldpSimd => "LDP"
  | .stgp => "STGP"
  | .ldpsw => "LDPSW"
  | .fmovToGeneral | .fmovFromGeneral | .fmovRegister | .fmovImmediate => "FMOV"
  | .scvtf => "SCVTF"
  | .ucvtf => "UCVTF"
  | .fcvtzs => "FCVTZS"
  | .fcvtzu => "FCVTZU"
  | .fabs => "FABS"
  | .fneg => "FNEG"
  | .fsqrt => "FSQRT"
  | .fcmp => "FCMP"
  | .fcmpe => "FCMPE"
  | .fccmp => "FCCMP"
  | .fccmpe => "FCCMPE"
  | .fmul => "FMUL"
  | .fdiv => "FDIV"
  | .fadd => "FADD"
  | .fsub => "FSUB"
  | .fmax => "FMAX"
  | .fmin => "FMIN"
  | .fmaxnm => "FMAXNM"
  | .fminnm => "FMINNM"
  | .fnmul => "FNMUL"
  | .fcsel => "FCSEL"
  | .fmadd => "FMADD"
  | .fmsub => "FMSUB"
  | .fnmadd => "FNMADD"
  | .fnmsub => "FNMSUB"

end A64Machine
