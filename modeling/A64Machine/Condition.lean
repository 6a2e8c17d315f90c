import A64Machine.Registers

/-!
Condition codes and when they hold.
-/

namespace A64Machine

/-- The sixteen condition codes, in order of their encoding. -/
inductive Condition where
  | eq | ne | cs | cc | mi | pl | vs | vc | hi | ls | ge | lt | gt | le | al | nv
  deriving Repr, DecidableEq

namespace Condition

/-- The condition that the low four bits of a number encode. -/
def ofBits (bits : Nat) : Condition :=
  match bits % 16 with
  | 0 => .eq | 1 => .ne | 2 => .cs | 3 => .cc
  | 4 => .mi | 5 => .pl | 6 => .vs | 7 => .vc
  | 8 => .hi | 9 => .ls | 10 => .ge | 11 => .lt
  | 12 => .gt | 13 => .le | 14 => .al | _ => .nv

/-- Whether a condition holds under the given flags.  `nv` holds always, as `al` does. -/
def holds (condition : Condition) (flags : Flags) : Bool :=
  match condition with
  | .eq => flags.z
  | .ne => !flags.z
  | .cs => flags.c
  | .cc => !flags.c
  | .mi => flags.n
  | .pl => !flags.n
  | .vs => flags.v
  | .vc => !flags.v
  | .hi => flags.c && !flags.z
  | .ls => !(flags.c && !flags.z)
  | .ge => flags.n == flags.v
  | .lt => flags.n != flags.v
  | .gt => flags.n == flags.v && !flags.z
  | .le => !(flags.n == flags.v && !flags.z)
  | .al | .nv => true

end Condition

end A64Machine
