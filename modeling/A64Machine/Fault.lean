/-!
Faults: the ways in which an instruction can fail.  A fault ends the program that raised it and
nothing else; its byte code is stable.
-/

namespace A64Machine

/-- What kind of failure a fault is, for counting. -/
inductive FaultClass where
  | decode | execute | memory
  deriving Repr, DecidableEq

/-- Why an instruction faulted. -/
inductive FaultCode where
  | undefinedInstruction
  | unsupportedInstruction
  | undefinedBehaviour
  | undefinedRegisterAccess
  | dataAbort
  | unalignedAccess
  deriving Repr, DecidableEq

namespace FaultCode

/-- Every fault, in order of its byte code. -/
def all : List FaultCode :=
  [.undefinedInstruction, .unsupportedInstruction, .undefinedBehaviour,
   .undefinedRegisterAccess, .dataAbort, .unalignedAccess]

/-- The stable byte code. -/
def toNat : FaultCode → Nat
  | .undefinedInstruction => 1
  | .unsupportedInstruction => 2
  | .undefinedBehaviour => 3
  | .undefinedRegisterAccess => 4
  | .dataAbort => 5
  | .unalignedAccess => 6

def ofNat? (code : Nat) : Option FaultCode :=
  all.find? (·.toNat == code)

def faultClass : FaultCode → FaultClass
  | .undefinedInstruction | .unsupportedInstruction => .decode
  | .undefinedBehaviour | .undefinedRegisterAccess => .execute
  | .dataAbort | .unalignedAccess => .memory

def message : FaultCode → String
  | .undefinedInstruction => "undefined instruction"
  | .unsupportedInstruction => "instruction is not implemented"
  | .undefinedBehaviour => "instruction has undefined behaviour"
  | .undefinedRegisterAccess => "undefined register access"
  | .dataAbort => "data access outside addressable memory"
  | .unalignedAccess => "unaligned data access"

end FaultCode

end A64Machine
