import A64Machine.Arithmetic
import A64Machine.BitString
import A64Machine.Condition
import A64Machine.Cpu.Topology
import A64Machine.Decode
import A64Machine.Encoding.Field
import A64Machine.Execution.Run
import A64Machine.Program
import A64Machine.Proofs.Memory.Coherence
import A64Machine.Proofs.Memory.FlatRefinement
import A64Machine.Proofs.Memory.UnitWords
import A64Machine.Proofs.Execution.Accesses
import A64Machine.Proofs.Execution.FlatMachine
import A64Machine.Proofs.Execution.Reachable
import A64Machine.Proofs.Execution.PreciseFaults
import A64Machine.Proofs.Encoding.Decoded
import A64Machine.Proofs.Execution.StepFaults
import A64Machine.Proofs.Execution.Silence
import A64Machine.Proofs.Unit.Course
import A64Machine.Proofs.Unit.Stepping
import A64Machine.Proofs.Memory.Levels
import A64Machine.Proofs.Memory.Residency
import A64Machine.Proofs.BitString.Bits
import A64Machine.Proofs.BitString.Canonical
import A64Machine.Proofs.BitString.Numerals
import A64Machine.Proofs.Cpu.Construction
import A64Machine.Proofs.Cpu.FirstUnit
import A64Machine.Proofs.Cpu.Invisibility
import A64Machine.Proofs.Memory.Sharing
import A64Machine.Proofs.Execution.NarrowForms
import A64Machine.Proofs.Memory.Accounting
import A64Machine.Proofs.Memory.Reconciliation
import A64Machine.Proofs.Execution.Destinations
import A64Machine.Proofs.Execution.StepFrame
import A64Machine.Proofs.Execution.CheckedArithmetic
import A64Machine.Proofs.Execution.CheckedMasks
import A64Machine.Proofs.Execution.CheckedOperands
import A64Machine.Proofs.Execution.CheckedPlan
import A64Machine.Proofs.Memory.CheckedCalls
import A64Machine.Proofs.Execution.CheckedMachine
import A64Machine.Proofs.Execution.FlatRun
import A64Machine.Proofs.Unit.Following
import A64Machine.Proofs.Unit.History
import A64Machine.Proofs.Unit.FinalFrames
import A64Machine.Proofs.Unit.Predecessors
import A64Machine.Proofs.Unit.Turns
import A64Machine.Proofs.Unit.Lifecycles
import A64Machine.Proofs.Unit.Roster
import A64Machine.Proofs.Unit.Halting
import A64Machine.Proofs.Unit.Shown
import A64Machine.Proofs.Unit.Accounts
import A64Machine.Proofs.Unit.Submissions
import A64Machine.Proofs.Unit.Traces
import A64Machine.Proofs.Unit.Reports
import A64Machine.Proofs.Encoding.Overlaps
import A64Machine.Proofs.Execution.Retirement
import A64Machine.Proofs.Execution.OperandWidths
import A64Machine.Proofs.Execution.Comparisons
import A64Machine.Proofs.Execution.BitfieldMoves
import A64Machine.Proofs.BitString.Rotations
import A64Machine.Proofs.Execution.LogicalMasks
import A64Machine.Proofs.Execution.Shifts
import A64Machine.Proofs.Execution.Sequences
import A64Machine.Proofs.Execution.Division
import A64Machine.Proofs.Encoding.Assembly
import A64Machine.Proofs.Execution.Constants
import A64Machine.Proofs.Execution.WordExecution
import A64Machine.Proofs.Execution.Displacements
import A64Machine.Proofs.Memory.ByteStore
import A64Machine.Proofs.Execution.Transfers
import A64Machine.Proofs.Execution.StackAccesses
import A64Machine.Proofs.Execution.PushPop
import A64Machine.Proofs.Memory.AddressRegions
import A64Machine.Proofs.Memory.Contracts
import A64Machine.Proofs.Memory.ImageLoading
import A64Machine.Proofs.Execution.FlatSteps
import A64Machine.Proofs.Execution.Countdown
import A64Machine.Proofs.Unit.Completion
import A64Machine.Proofs.Cpu.Units
import A64Machine.Proofs.Cpu.CountdownRun
import A64Machine.Proofs.Program.ByteImages
import A64Machine.Proofs.Cpu.Validation
import A64Machine.Proofs.Cpu.Numbering
import A64Machine.Proofs.Unit.MemoryViews
import A64Machine.Proofs.BitString.Contents
import A64Machine.Proofs.BitString.Reachable
import A64Machine.Proofs.BitString.Ordering
import A64Machine.Proofs.BitString.Populations
import A64Machine.Proofs.BitString.BinaryDigits
import A64Machine.Proofs.Execution.Additions
