import A64Machine.Encoding.Mnemonic
import A64Machine.Fault
import A64Machine.Memory.AccessStats
import A64Machine.Text.Hex
import A64Machine.Word

/-!
Events: what the components of a machine report, in the order in which it happens, and the form in
which an event is written to a log.
-/

namespace A64Machine

/-- Something that happened in a machine. -/
inductive Event where
  | construction (component detail : String)
  | fetch (unit : Nat) (pc : Doubleword) (word : Word)
  | retire (unit : Nat) (pc : Doubleword) (mnemonic : Mnemonic)
  | fault (unit : Nat) (pc : Doubleword) (cause : FaultCode)
  | programStarted (unit entry : Nat)
  | programFinished (unit : Nat) (interrupted : Bool)
  | workerPanicked (unit : Nat)
  | memoryAccess (component : String) (kind : AccessKind) (result : AccessResult) (address : Nat)
  deriving Repr, DecidableEq

/-- How much attention a log record asks for. -/
inductive LogLevel where
  | trace | debug | info | warn | error
  deriving Repr, DecidableEq

/-- A log record: its level, its message and its named values as text. -/
structure LogRecord where
  level : LogLevel
  message : String
  fields : List (String × String)
  deriving Repr, DecidableEq

/-- The record of an event.  Numbers are written in decimal, except that an instruction word has
eight hexadecimal digits. -/
def Event.logRecord : Event → LogRecord
  | .construction component detail =>
    ⟨.info, "constructed", [("component", component), ("detail", detail)]⟩
  | .fetch unit pc word =>
    ⟨.trace, "fetch",
      [("unit", toString unit), ("pc", toString pc.toNat), ("word", paddedHex 8 word.toNat)]⟩
  | .retire unit pc mnemonic =>
    ⟨.debug, "retire",
      [("unit", toString unit), ("pc", toString pc.toNat), ("mnemonic", mnemonic.text)]⟩
  | .fault unit pc cause =>
    ⟨.warn, "fault",
      [("unit", toString unit), ("pc", toString pc.toNat), ("code", toString cause.toNat),
       ("cause", cause.message)]⟩
  | .programStarted unit entry =>
    ⟨.info, "program started", [("unit", toString unit), ("entry", toString entry)]⟩
  | .programFinished unit interrupted =>
    ⟨.info, "program finished",
      [("unit", toString unit), ("interrupted", if interrupted then "true" else "false")]⟩
  | .workerPanicked unit => ⟨.error, "worker thread panicked", [("unit", toString unit)]⟩
  | .memoryAccess component kind result address =>
    ⟨.trace, "memory access",
      [("component", component), ("kind", kind.label), ("result", result.label),
       ("address", toString address)]⟩

end A64Machine
