import A64Machine.Encoding.ClassTables
import A64Machine.Encoding.MnemonicTables
import A64Machine.Fault

/-!
Decoding takes a word through three levels: its group, its class in the group, its mnemonic in the
class.  A word that falls out at some level is a decode fault, which keeps how far the word came.
-/

namespace A64Machine

/-- A fully classified instruction. -/
structure Instruction where
  word : Word
  group : InstructionGroup
  cls : InstructionClass
  mnemonic : Mnemonic
  deriving Repr, DecidableEq

/-- The level at which decoding stopped. -/
inductive DecodeLevel where
  | group | cls | mnemonic
  deriving Repr, DecidableEq

/-- Why decoding stopped: no row of the table accepts the word, or there is no table. -/
inductive DecodeCause where
  | undefined | unsupported
  deriving Repr, DecidableEq

/-- A word that does not decode, with what was found out about it. -/
structure DecodeFault where
  word : Word
  level : DecodeLevel
  cause : DecodeCause
  group : Option InstructionGroup
  cls : Option InstructionClass
  deriving Repr, DecidableEq

/-- The fault that an undecodable word raises when it is executed. -/
def DecodeFault.code (fault : DecodeFault) : FaultCode :=
  match fault.cause with
  | .undefined => .undefinedInstruction
  | .unsupported => .unsupportedInstruction

/-- Decodes a word through the three levels. -/
def decode (word : Word) : Except DecodeFault Instruction :=
  match groupOf word with
  | none => .error ⟨word, .group, .undefined, none, none⟩
  | some group =>
    if !group.isSupported then
      .error ⟨word, .cls, .unsupported, some group, none⟩
    else
      match group.classOf word with
      | none => .error ⟨word, .cls, .undefined, some group, none⟩
      | some c =>
        match c.mnemonics with
        | none => .error ⟨word, .mnemonic, .unsupported, some group, some c⟩
        | some table =>
          match table.lookup word with
          | none => .error ⟨word, .mnemonic, .undefined, some group, some c⟩
          | some mnemonic => .ok ⟨word, group, c, mnemonic⟩

end A64Machine
