import Mathlib.Algebra.BigOperators.Group.List.Basic
import Mathlib.Algebra.Ring.Nat
import A64Machine.Proofs.Unit.Shown

/-!
The counters of a unit and what the tickets of its programs show.  A ledger lists what the unit did:
the groups of the instructions that retired, the faults, and for each program that left the unit
whether it was interrupted.  The counters count its entries, up to their limit, and the entries are
what the tickets show.
-/

namespace A64Machine

/-- What a unit did, the earliest first. -/
structure Ledger where
  retired : List InstructionGroup := []
  faults : List FaultCode := []
  interruptions : List Bool := []

namespace Ledger

def retire (ledger : Ledger) (group : InstructionGroup) : Ledger :=
  { ledger with retired := ledger.retired ++ [group] }

/-- An instruction faults, or a program that cannot begin. -/
def fault (ledger : Ledger) (code : FaultCode) : Ledger :=
  { ledger with faults := ledger.faults ++ [code] }

def leave (ledger : Ledger) (interrupted : Bool) : Ledger :=
  { ledger with interruptions := ledger.interruptions ++ [interrupted] }

end Ledger

/-- One more than a count that stopped at the limit. -/
theorem increment_min (count : Nat) : increment (min count countLimit) = min (count + 1) countLimit := by
  rw [increment]
  omega

theorem InstructionGroup.all_getElem?_position (group : InstructionGroup) :
    InstructionGroup.all[group.position]? = some group := by
  cases group <;> rfl

/-- Every group has a counter of its own. -/
theorem InstructionGroup.index_inj {first second : InstructionGroup} :
    first.index = second.index ↔ first = second := by
  refine ⟨fun hsame => ?_, congrArg _⟩
  have hposition : first.position = second.position := congrArg Fin.val hsame
  have hfirst := first.all_getElem?_position
  rw [hposition, second.all_getElem?_position] at hfirst
  exact (Option.some.inj hfirst).symm

theorem InstructionGroup.position_getElem_all :
    ∀ i : Fin InstructionGroup.all.length, InstructionGroup.all[i].position = i := by
  decide

theorem InstructionGroup.sum_count (groups : List InstructionGroup) :
    (InstructionGroup.all.map groups.count).sum = groups.length := by
  induction groups with
  | nil => rfl
  | cons group groups ih =>
    have hone : (InstructionGroup.all.map fun other => if group == other then 1 else 0).sum = 1 := by
      cases group <;> rfl
    simp only [InstructionGroup.all, List.map_cons, List.map_nil, List.sum_cons, List.sum_nil,
      List.count_cons, List.length_cons] at ih hone ⊢
    omega

theorem FaultClass.length_eq_sum_countP (faults : List FaultCode) :
    faults.length = faults.countP (·.faultClass == .decode) +
      faults.countP (·.faultClass == .execute) + faults.countP (·.faultClass == .memory) := by
  induction faults with
  | nil => rfl
  | cons code faults ih =>
    rw [List.length_cons, ih, List.countP_cons, List.countP_cons, List.countP_cons]
    cases code.faultClass <;> simp only [BEq.rfl, reduceCtorEq, beq_iff_eq, if_true, if_false] <;> omega

namespace Diagnostics

def faultsOf (counters : Diagnostics) : FaultClass → Nat
  | .decode => counters.decodeFaults
  | .execute => counters.executeFaults
  | .memory => counters.memoryFaults

/-- Whether counters count the entries of a ledger, up to their limit. -/
structure Counts (counters : Diagnostics) (ledger : Ledger) : Prop where
  handled : counters.programsHandled = min ledger.interruptions.length countLimit
  interrupted : counters.programsInterrupted = min (ledger.interruptions.count true) countLimit
  retired : counters.instructionsRetired = min ledger.retired.length countLimit
  retiredOf : ∀ group, counters.retiredOf group = min (ledger.retired.count group) countLimit
  faults : counters.faults = min ledger.faults.length countLimit
  faultsOf : ∀ kind, counters.faultsOf kind =
    min (ledger.faults.countP (·.faultClass == kind)) countLimit
  lastFault : counters.lastFault.map (·.1) = ledger.faults.getLast?

theorem retiredOf_recordRetired (counters : Diagnostics) (group other : InstructionGroup) :
    (counters.recordRetired group).retiredOf other =
      if group = other then increment (counters.retiredOf other) else counters.retiredOf other := by
  unfold recordRetired retiredOf
  rw [Fin.getElem_fin, Vector.getElem_set]
  split
  next hsame =>
    have hgroup := InstructionGroup.index_inj.mp (Fin.ext hsame)
    rw [if_pos hgroup, hgroup]
  next hother =>
    rw [if_neg fun hgroup => hother (congrArg (fun group => group.index.val) hgroup)]
    rfl

theorem toList_retiredByGroup (counters : Diagnostics) :
    counters.retiredByGroup.toList = InstructionGroup.all.map counters.retiredOf := by
  apply List.ext_getElem
  · rw [Vector.length_toList, List.length_map]
    rfl
  · intro i hi hi'
    rw [List.length_map] at hi'
    have hposition : InstructionGroup.all[i].position = i :=
      InstructionGroup.position_getElem_all ⟨i, hi'⟩
    simp only [Vector.getElem_toList, List.getElem_map, retiredOf, Fin.getElem_fin,
      InstructionGroup.index, hposition]

theorem faultsOf_recordFault (counters : Diagnostics) (code : FaultCode) (pc : Doubleword)
    (kind : FaultClass) : (counters.recordFault code pc).faultsOf kind =
      if code.faultClass = kind then increment (counters.faultsOf kind)
      else counters.faultsOf kind := by
  unfold recordFault
  cases code.faultClass <;> cases kind <;> rfl

/-- A fault changes only the counters of faults. -/
theorem recordFault_eq (counters : Diagnostics) (code : FaultCode) (pc : Doubleword) :
    counters.recordFault code pc =
      { counters with
        faults := increment counters.faults
        decodeFaults := (counters.recordFault code pc).decodeFaults
        executeFaults := (counters.recordFault code pc).executeFaults
        memoryFaults := (counters.recordFault code pc).memoryFaults
        lastFault := some (code, pc) } := by
  unfold recordFault
  cases code.faultClass <;> rfl

namespace Counts

variable {counters : Diagnostics} {ledger : Ledger}

/-- Nothing was done. -/
theorem nothing : Counts {} {} where
  handled := (Nat.zero_min _).symm
  interrupted := (Nat.zero_min _).symm
  retired := (Nat.zero_min _).symm
  retiredOf group := (Vector.getElem_replicate _).trans (Nat.zero_min _).symm
  faults := (Nat.zero_min _).symm
  faultsOf kind := by
    cases kind <;> exact (Nat.zero_min _).symm
  lastFault := rfl

theorem retire (hcounts : counters.Counts ledger) (group : InstructionGroup) :
    (counters.recordRetired group).Counts (ledger.retire group) := by
  refine { hcounts with retired := ?_, retiredOf := fun other => ?_ }
  · change increment counters.instructionsRetired = min (ledger.retired ++ [group]).length countLimit
    rw [hcounts.retired, increment_min, List.length_append, List.length_singleton]
  · change _ = min ((ledger.retired ++ [group]).count other) countLimit
    rw [retiredOf_recordRetired, hcounts.retiredOf, increment_min, List.count_append,
      List.count_singleton]
    by_cases hsame : group = other
    · rw [if_pos hsame, if_pos (beq_iff_eq.mpr hsame)]
    · rw [if_neg hsame, if_neg (mt beq_iff_eq.mp hsame)]
      rfl

theorem leave (hcounts : counters.Counts ledger) (interrupted : Bool) :
    (counters.recordProgram interrupted).Counts (ledger.leave interrupted) := by
  refine { hcounts with handled := ?_, interrupted := ?_, faultsOf := fun kind => ?_ }
  · change increment counters.programsHandled =
      min (ledger.interruptions ++ [interrupted]).length countLimit
    rw [hcounts.handled, increment_min, List.length_append, List.length_singleton]
  · change (if interrupted then increment counters.programsInterrupted
      else counters.programsInterrupted) =
        min ((ledger.interruptions ++ [interrupted]).count true) countLimit
    rw [hcounts.interrupted, increment_min, List.count_append, List.count_singleton]
    cases interrupted <;> rfl
  · refine Eq.trans ?_ (hcounts.faultsOf kind)
    cases kind <;> rfl

theorem fault (hcounts : counters.Counts ledger) (code : FaultCode) (pc : Doubleword) :
    (counters.recordFault code pc).Counts (ledger.fault code) := by
  have hother := counters.recordFault_eq code pc
  constructor
  case handled => exact (congrArg programsHandled hother).trans hcounts.handled
  case interrupted => exact (congrArg programsInterrupted hother).trans hcounts.interrupted
  case retired => exact (congrArg instructionsRetired hother).trans hcounts.retired
  case retiredOf =>
    exact fun group => (congrArg (·.retiredOf group) hother).trans (hcounts.retiredOf group)
  case faults =>
    refine (congrArg Diagnostics.faults hother).trans ?_
    change increment counters.faults = min (ledger.faults ++ [code]).length countLimit
    rw [hcounts.faults, increment_min, List.length_append, List.length_singleton]
  case faultsOf =>
    intro kind
    change _ = min ((ledger.faults ++ [code]).countP (·.faultClass == kind)) countLimit
    rw [faultsOf_recordFault, hcounts.faultsOf, increment_min, List.countP_append,
      List.countP_singleton]
    by_cases hsame : code.faultClass = kind
    · rw [if_pos hsame, if_pos (beq_iff_eq.mpr hsame)]
    · rw [if_neg hsame, if_neg (mt beq_iff_eq.mp hsame)]
      rfl
  case lastFault =>
    change _ = (ledger.faults ++ [code]).getLast?
    rw [congrArg Diagnostics.lastFault hother, List.getLast?_append]
    rfl

/-- Every instruction that retired is counted for its group. -/
theorem sum_retiredByGroup (hcounts : counters.Counts ledger)
    (hlimit : ledger.retired.length ≤ countLimit) :
    counters.retiredByGroup.toList.sum = counters.instructionsRetired := by
  have hexact : ∀ group, counters.retiredOf group = ledger.retired.count group := by
    intro group
    rw [hcounts.retiredOf, Nat.min_eq_left (Nat.le_trans List.count_le_length hlimit)]
  rw [hcounts.retired, Nat.min_eq_left hlimit, ← InstructionGroup.sum_count ledger.retired,
    toList_retiredByGroup, List.map_congr_left fun group _ => hexact group]

/-- Every fault is counted for its class. -/
theorem sum_faultsOf (hcounts : counters.Counts ledger) (hlimit : ledger.faults.length ≤ countLimit) :
    counters.faults = counters.decodeFaults + counters.executeFaults + counters.memoryFaults := by
  have hexact : ∀ kind, counters.faultsOf kind = ledger.faults.countP (·.faultClass == kind) := by
    intro kind
    rw [hcounts.faultsOf, Nat.min_eq_left (Nat.le_trans List.countP_le_length hlimit)]
  rw [hcounts.faults, Nat.min_eq_left hlimit, FaultClass.length_eq_sum_countP, ← hexact, ← hexact,
    ← hexact]
  rfl

end Counts

end Diagnostics

section

variable {shown : List Shown} {number : Nat} {old new : Shown}

theorem sum_map_retired_set (hold : shown[number]? = some old) (hopen : old.IsOpen) :
    ((shown.set number new).map (·.retired)).sum = (shown.map (·.retired)).sum + new.retired := by
  induction shown generalizing number with
  | nil => exact absurd hold nofun
  | cons first rest ih =>
    cases number with
    | zero =>
      obtain rfl := Option.some.inj hold
      rw [List.set_cons_zero, List.map_cons, List.map_cons, List.sum_cons, List.sum_cons,
        hopen.retired_eq]
      omega
    | succ number =>
      rw [List.set_cons_succ, List.map_cons, List.map_cons, List.sum_cons, List.sum_cons, ih hold]
      omega

theorem countP_fault_set (hold : shown[number]? = some old) (hopen : old.IsOpen) :
    (shown.set number new).countP (·.fault.isSome) =
      shown.countP (·.fault.isSome) + new.fault.toList.length := by
  obtain ⟨hbound, hold⟩ := List.getElem?_eq_some_iff.mp hold
  rw [List.countP_set hbound, hold, hopen.fault]
  cases new.fault <;> rfl

end

/-- Whether the entries of a ledger are what is shown of all programs, of those that left the unit
in their order, and of the instructions that the program of the unit retired. -/
structure Ledger.Covers (ledger : Ledger) (left shown : List Shown) (retiring : Nat) : Prop where
  interruptions_eq : ledger.interruptions = left.map (·.state == .interrupted)
  faults_eq : ledger.faults = left.filterMap (·.fault)
  retired_eq : ledger.retired.length = (shown.map (·.retired)).sum + retiring
  faulted_eq : ledger.faults.length = shown.countP (·.fault.isSome)

namespace Ledger.Covers

variable {ledger after : Ledger} {left shown : List Shown} {number retiring : Nat} {old new : Shown}

/-- A program goes on. -/
theorem opens (hcovers : ledger.Covers left shown retiring) (hold : shown[number]? = some old)
    (hopen : old.IsOpen) (hopen' : new.IsOpen)
    (hinterruptions : after.interruptions = ledger.interruptions)
    (hfaults : after.faults = ledger.faults) {more : Nat}
    (hretired : after.retired.length = ledger.retired.length + more) :
    after.Covers left (shown.set number new) (retiring + more) := by
  refine ⟨hinterruptions ▸ hcovers.interruptions_eq, hfaults ▸ hcovers.faults_eq, ?_, ?_⟩
  · rw [hretired, hcovers.retired_eq, sum_map_retired_set hold hopen, hopen'.retired_eq]
    omega
  · rw [hfaults, hcovers.faulted_eq, countP_fault_set hold hopen, hopen'.fault]
    rfl

/-- A program leaves the unit. -/
theorem leaves (hcovers : ledger.Covers left shown retiring) (hold : shown[number]? = some old)
    (hopen : old.IsOpen) (hretiring : new.retired = retiring)
    (hinterruptions : after.interruptions = ledger.interruptions ++ [new.state == .interrupted])
    (hfaults : after.faults = ledger.faults ++ new.fault.toList)
    (hretired : after.retired = ledger.retired) :
    after.Covers (left ++ [new]) (shown.set number new) 0 := by
  constructor
  case interruptions_eq =>
    rw [hinterruptions, hcovers.interruptions_eq, List.map_append, List.map_singleton]
  case faults_eq =>
    rw [hfaults, hcovers.faults_eq, List.filterMap_append]
    cases hfault : new.fault with
    | none => rw [List.filterMap_cons_none hfault]; rfl
    | some code => rw [List.filterMap_cons_some hfault]; rfl
  case retired_eq =>
    rw [hretired, hcovers.retired_eq, sum_map_retired_set hold hopen, hretiring, Nat.add_zero]
  case faulted_eq =>
    rw [hfaults, List.length_append, hcovers.faulted_eq, countP_fault_set hold hopen]

/-- A program is submitted. -/
theorem push (hcovers : ledger.Covers left shown retiring) (hretired : new.retired = 0)
    (hfault : new.fault = none) : ledger.Covers left (shown ++ [new]) retiring := by
  refine ⟨hcovers.interruptions_eq, hcovers.faults_eq, ?_, ?_⟩
  · rw [hcovers.retired_eq, List.map_append, List.sum_append, List.map_singleton,
      List.sum_singleton, hretired]
    rfl
  · rw [hcovers.faulted_eq, List.countP_append, List.countP_singleton, hfault]
    rfl

end Ledger.Covers

namespace ExecutionUnit

variable {unit after start : ExecutionUnit} {taken closed : List Nat} {left : List Shown}
  {ledger : Ledger} {number : Nat} {f : Ticket → Ticket}

/-- The instructions that the program of a unit has retired. -/
def retiring (unit : ExecutionUnit) : Nat :=
  (unit.worker.current.map (·.retired)).getD 0

/-- Whether the counters of a unit that took some programs, of which those in `closed` have left it,
agree with what it shows of its programs. -/
structure Books (unit : ExecutionUnit) (taken closed : List Nat) (left : List Shown)
    (ledger : Ledger) : Prop where
  taken_eq : taken = closed ++ (unit.worker.current.map (·.ticket)).toList
  closed_eq : closed.map (unit.shown[·]?) = left.map some
  counts : unit.worker.diagnostics.Counts ledger
  covers : ledger.Covers left unit.shown unit.retiring

namespace Turn

/-- The program whose turn it is is the last of those that were taken. -/
theorem taken_append (hturn : Turn taken unit after number f)
    (hbooks : unit.Books taken closed left ledger) :
    taken ++ unit.leaving after = closed ++ [number] := by
  have hall : taken ++ unit.leaving after ++ after.worker.queue.map (·.ticket) =
      closed ++ [number] ++ after.worker.queue.map (·.ticket) := by
    rw [hturn.taken_eq, hbooks.taken_eq, List.append_assoc, List.append_assoc]
    exact congrArg (closed ++ ·) hturn.pending_eq
  exact List.append_cancel_right hall

/-- What is shown of the programs that left the unit stays. -/
theorem closed_eq (hturn : Turn taken unit after number f) (hroster : unit.Roster taken)
    (hbooks : unit.Books taken closed left ledger) (new : Shown) :
    closed.map ((unit.shown.set number new)[·]?) = left.map some := by
  obtain ⟨earlier, hearlier, hbefore, -⟩ := hturn.exists_earlier hroster
  obtain rfl := List.append_cancel_right (hearlier.symm.trans (hturn.taken_append hbooks))
  rw [← hbooks.closed_eq]
  exact List.map_congr_left fun i hi => List.getElem?_set_ne (Nat.ne_of_gt (hbefore i hi))

/-- A program begins or goes on. -/
theorem opens (hturn : Turn taken unit after number f) (hroster : unit.Roster taken)
    (hbooks : unit.Books taken closed left ledger)
    (hcurrent : after.worker.current.map (·.ticket) = some number)
    (hopens : ∀ ticket : Ticket, ticket.shown.IsOpen → (f ticket).shown.IsOpen) {ledger' : Ledger}
    (hcounts : after.worker.diagnostics.Counts ledger')
    (hinterruptions : ledger'.interruptions = ledger.interruptions)
    (hfaults : ledger'.faults = ledger.faults) (more : Nat)
    (hretired : ledger'.retired.length = ledger.retired.length + more)
    (hretiring : after.retiring = unit.retiring + more) :
    after.Books (taken ++ unit.leaving after) closed left ledger' := by
  obtain ⟨old, hold, -, hstate, hfault⟩ := hturn.exists_ticket hroster
  have hopen : old.shown.IsOpen := ⟨hstate, hfault⟩
  have hshown := shown_of_modify hold hturn.tickets_eq
  refine ⟨?_, ?_, hcounts, ?_⟩
  · rw [hturn.taken_append hbooks, hcurrent]
    rfl
  · rw [hshown]
    exact hturn.closed_eq hroster hbooks _
  · rw [hshown, hretiring]
    exact hbooks.covers.opens (getElem?_shown hold) hopen (hopens old hopen) hinterruptions hfaults
      hretired

/-- A program leaves the unit. -/
theorem leaves (hturn : Turn taken unit after number f) (hroster : unit.Roster taken)
    (hbooks : unit.Books taken closed left ledger) (hcurrent : after.worker.current = none)
    {frame : Frame} {fault : Option FaultCode} {interrupted : Bool}
    (hends : ∀ ticket, (f ticket).shown = .ended frame fault interrupted)
    (hretiring : frame.retired = unit.retiring) {ledger' : Ledger}
    (hcounts : after.worker.diagnostics.Counts ledger')
    (hinterruptions : ledger'.interruptions = ledger.interruptions ++ [interrupted])
    (hfaults : ledger'.faults = ledger.faults ++ fault.toList)
    (hretired : ledger'.retired = ledger.retired) :
    after.Books (taken ++ unit.leaving after) (closed ++ [number])
      (left ++ [.ended frame fault interrupted]) ledger' := by
  obtain ⟨old, hold, -, hstate, hfault⟩ := hturn.exists_ticket hroster
  have hshown := shown_of_modify hold hturn.tickets_eq
  rw [hends] at hshown
  have hnone : after.retiring = 0 := by
    rw [ExecutionUnit.retiring, hcurrent]
    rfl
  refine ⟨?_, ?_, hcounts, ?_⟩
  · rw [hturn.taken_append hbooks, hcurrent]
    exact (List.append_nil _).symm
  · rw [List.map_append, List.map_append, hshown, hturn.closed_eq hroster hbooks,
      List.map_singleton, List.map_singleton]
    have hbound := (List.getElem?_eq_some_iff.mp (getElem?_shown hold)).1
    rw [List.getElem?_set_self hbound]
  · rw [hshown, hnone]
    exact hbooks.covers.leaves (getElem?_shown hold) ⟨hstate, hfault⟩
      ((Shown.retired_ended _ _ _).trans hretiring)
      (by rw [Shown.interrupted_ended]; exact hinterruptions) hfaults hretired

end Turn

/-- A move keeps the books. -/
theorem Move.books (hmove : unit.Move after) (hroster : unit.Roster taken)
    (hbooks : unit.Books taken closed left ledger) :
    ∃ closed left ledger, after.Books (taken ++ unit.leaving after) closed left ledger := by
  have hbegun (execution : Execution) (hcurrent : unit.worker.current = some execution) :
      unit.retiring = execution.retired := by
    rw [retiring, hcurrent]
    rfl
  have hwaits (hcurrent : unit.worker.current = none) : unit.retiring = 0 := by
    rw [retiring, hcurrent]
    rfl
  cases hmove with
  | idles =>
    rw [leaving_of_queue_eq rfl, List.append_nil]
    exact ⟨_, _, _, hbooks⟩
  | discards hcurrent hqueue =>
    have hturn := Roster.takes_discarded taken hcurrent hqueue
    exact ⟨_, _, _, hturn.leaves hroster hbooks hcurrent (fun _ => rfl) (hwaits hcurrent).symm
      (hbooks.counts.leave true) rfl (List.append_nil _).symm rfl⟩
  | rejects hcurrent hqueue =>
    have hturn := Roster.takes_rejected taken hcurrent hqueue
    exact ⟨_, _, _, hturn.leaves hroster hbooks rfl (fun _ => rfl) (hwaits hcurrent).symm
      ((hbooks.counts.fault .dataAbort _).leave true) rfl rfl rfl⟩
  | @begins job rest machine hcurrent hqueue =>
    have hturn := Roster.takes_begun taken hcurrent hqueue machine
    exact ⟨_, _, _, hturn.opens hroster hbooks rfl (fun ticket hopen => hopen.begin _) hbooks.counts
      rfl rfl 0 rfl (hwaits hcurrent).symm⟩
  | @ends execution interrupted hcurrent =>
    have hturn := hroster.keeps_finish hcurrent interrupted
    exact ⟨_, _, _, hturn.leaves hroster hbooks rfl (fun _ => rfl) (hbegun execution hcurrent).symm
      (hbooks.counts.leave interrupted) rfl (List.append_nil _).symm rfl⟩
  | @parks execution hcurrent =>
    have hturn := hroster.keeps_parked hcurrent (unit.frame execution.regs execution.retired)
    exact ⟨_, _, _, hturn.opens hroster hbooks (congrArg (Option.map (·.ticket)) hcurrent)
      (fun ticket hopen => hopen.park _) hbooks.counts rfl rfl 0 rfl rfl⟩
  | @retires execution pc word group mnemonic regs memory hexecutes hstep =>
    have hcounts := hbooks.counts.retire group
    rw [← unit.worker.diagnostics_granted execution] at hcounts
    have hturn := hroster.keeps_retired hexecutes.current memory
      [.fetch unit.worker.index pc word, .retire unit.worker.index pc mnemonic] group regs
    refine ⟨_, _, _, hturn.opens hroster hbooks rfl (fun ticket hopen => hopen.spend) hcounts rfl
      rfl 1 ?_ ?_⟩
    · exact List.length_append
    · rw [hbegun execution hexecutes.current]
      rfl
  | @faults execution pc word cause regs memory hexecutes hstep =>
    have hturn := hroster.keeps_faulted hexecutes.current memory
      (fetched unit.worker.index pc word) cause pc regs
    have hcounts := (hbooks.counts.fault cause pc).leave true
    rw [← unit.worker.diagnostics_granted execution] at hcounts
    exact ⟨_, _, _, hturn.leaves hroster hbooks rfl (fun _ => rfl)
      (hbegun execution hexecutes.current).symm hcounts rfl rfl rfl⟩

/-- Whatever a unit is asked for, and whenever, the books are kept. -/
theorem Books.ask (hbooks : unit.Books taken closed left ledger) (hroster : unit.Roster taken)
    (request : UnitRequest) : (unit.ask request).Books taken closed left ledger := by
  have hcurrent : (unit.ask request).worker.current = unit.worker.current :=
    unit.worker.current_ask request
  refine ⟨hcurrent ▸ hbooks.taken_eq, ?_, ?_, ?_⟩
  · rw [← hbooks.closed_eq]
    refine List.map_congr_left fun i hi => unit.getElem?_shown_ask request ?_
    refine hroster.bounded i (List.mem_append_left _ ?_)
    rw [hbooks.taken_eq]
    exact List.mem_append_left _ hi
  · rw [ExecutionUnit.ask, unit.worker.diagnostics_ask]
    exact hbooks.counts
  · rw [retiring, hcurrent]
    rcases unit.shown_ask request with hsame | ⟨new, hnew, hmore⟩
    · rw [hsame]
      exact hbooks.covers
    · rw [hmore]
      rcases hnew with rfl | rfl
      · exact hbooks.covers.push rfl rfl
      · exact hbooks.covers.push rfl rfl

variable {permits : Worker → UnitRequest → Prop} {requests : List UnitRequest}

/-- Nobody has asked the unit for anything. -/
theorem New.books (hnew : start.New) : start.Books [] [] [] {} := by
  have hdiagnostics : start.worker.diagnostics = {} := congrArg Worker.diagnostics hnew.worker_eq
  refine ⟨?_, rfl, ?_, ?_⟩
  · rw [hnew.current_eq]
    rfl
  · rw [hdiagnostics]
    exact .nothing
  · rw [hnew.shown_eq, retiring, hnew.current_eq]
    exact ⟨rfl, rfl, rfl, rfl⟩

/-- At every moment of every history the books are right. -/
theorem Record.books (hrecord : Record permits start requests taken unit) (hnew : start.New) :
    ∃ closed left ledger, unit.Books taken closed left ledger := by
  induction hrecord with
  | nothing => exact ⟨[], [], {}, hnew.books⟩
  | moves hunit htick ih =>
    obtain ⟨closed, left, ledger, hbooks⟩ := ih
    exact (move_of_tick htick).books (hunit.roster hnew) hbooks
  | asks hunit hpermits ih =>
    obtain ⟨closed, left, ledger, hbooks⟩ := ih
    exact ⟨closed, left, ledger, hbooks.ask (hunit.roster hnew) _⟩

/-- Whether the counters of a unit that took some programs are what its tickets show. -/
structure Reconciles (taken : List Nat) (unit : ExecutionUnit) : Prop where
  retired_eq : unit.worker.diagnostics.instructionsRetired =
    (unit.worker.tickets.toList.map (·.frame.retired)).sum
  groups_eq : unit.worker.diagnostics.instructionsRetired =
    unit.worker.diagnostics.retiredByGroup.toList.sum
  faults_eq : unit.worker.diagnostics.faults =
    unit.worker.tickets.toList.countP (·.fault.isSome)
  classes_eq : unit.worker.diagnostics.faults = unit.worker.diagnostics.decodeFaults +
    unit.worker.diagnostics.executeFaults + unit.worker.diagnostics.memoryFaults
  handled_eq : unit.worker.diagnostics.programsHandled = taken.length
  interrupted_eq : unit.worker.diagnostics.programsInterrupted =
    taken.countP fun number => unit.worker.ticketIs number (·.state == .interrupted)
  lastFault_eq : unit.worker.diagnostics.lastFault.map (·.1) =
    (taken.filterMap fun number => unit.worker.tickets[number]?.bind (·.fault)).getLast?

/-- Between two programs, what has not ended is in the queue and has retired nothing. -/
theorem sum_retired_shown (hroster : unit.Roster taken) (hcurrent : unit.worker.current = none) :
    (unit.shown.map (·.retired)).sum = (unit.worker.tickets.toList.map (·.frame.retired)).sum := by
  rw [shown, List.map_map]
  refine congrArg List.sum (List.map_congr_left fun ticket hmember => ?_)
  obtain ⟨number, hticket⟩ := List.mem_iff_getElem?.mp hmember
  rw [Array.getElem?_toList] at hticket
  change (if ticket.state.isFinished then ticket.frame.retired else 0) = ticket.frame.retired
  split
  · rfl
  next hopen =>
    have hpending : number ∈ unit.worker.pending := Decidable.byContradiction fun hover =>
      hopen ((hroster.isFinished_iff hticket).mpr hover)
    rcases hroster.untouched_or_active hpending hticket with huntouched | ⟨_, _, hsome, -⟩
    · rw [huntouched.frame_eq]
    · rw [hcurrent] at hsome
      contradiction

/-- Between two programs the counters are what the tickets show. -/
theorem diagnostics_reconcile (hnew : start.New)
    (hrecord : Record permits start requests taken unit) (hcurrent : unit.worker.current = none)
    (hretired : (unit.worker.tickets.toList.map (·.frame.retired)).sum < UInt64.size)
    (htaken : taken.length < UInt64.size) : unit.Reconciles taken := by
  obtain ⟨closed, left, ledger, hbooks⟩ := hrecord.books hnew
  obtain ⟨hclosed, hleft, hcounts, hcovers⟩ := hbooks
  have hlimit : countLimit = UInt64.size - 1 := rfl
  rw [hcurrent] at hclosed
  obtain rfl : taken = closed := hclosed.trans (List.append_nil closed)
  have hlength : left.length = taken.length := by
    have hboth := congrArg List.length hleft
    rw [List.length_map, List.length_map] at hboth
    exact hboth.symm
  have hledger : ledger.retired.length =
      (unit.worker.tickets.toList.map (·.frame.retired)).sum := by
    rw [hcovers.retired_eq, sum_retired_shown (hrecord.roster hnew) hcurrent, retiring, hcurrent]
    rfl
  have hfaults : ledger.faults.length ≤ taken.length := by
    rw [hcovers.faults_eq, ← hlength]
    exact List.length_filterMap_le _ _
  constructor
  case retired_eq => rw [hcounts.retired, Nat.min_eq_left (by omega), hledger]
  case groups_eq => exact (hcounts.sum_retiredByGroup (by omega)).symm
  case faults_eq =>
    rw [hcounts.faults, Nat.min_eq_left (by omega), hcovers.faulted_eq, shown, List.countP_map]
    rfl
  case classes_eq => exact hcounts.sum_faultsOf (by omega)
  case handled_eq =>
    rw [hcounts.handled, hcovers.interruptions_eq, List.length_map, hlength,
      Nat.min_eq_left (by omega)]
  case interrupted_eq =>
    have hcount : taken.countP (fun number => unit.worker.ticketIs number (·.state == .interrupted)) =
        (taken.map (unit.shown[·]?)).countP (·.any (·.state == .interrupted)) := by
      rw [List.countP_map]
      exact List.countP_congr fun number _ => by rw [ticketIs_eq_shown, Function.comp_apply]
    have hle : left.countP (·.state == .interrupted) ≤ left.length := List.countP_le_length
    rw [hcount, hleft, List.countP_map, hcounts.interrupted, hcovers.interruptions_eq,
      List.count_eq_countP, List.countP_map]
    change min (left.countP fun shown => (shown.state == .interrupted) == true) countLimit =
      left.countP (·.state == .interrupted)
    simp only [beq_true]
    exact Nat.min_eq_left (by omega)
  case lastFault_eq =>
    have hfilter : (taken.filterMap fun number => unit.worker.tickets[number]?.bind (·.fault)) =
        (taken.map (unit.shown[·]?)).filterMap (·.bind (·.fault)) := by
      rw [List.filterMap_map]
      exact congrArg (List.filterMap · taken) (funext fun number => (unit.bind_shown number).symm)
    rw [hfilter, hleft, List.filterMap_map, hcounts.lastFault, hcovers.faults_eq]
    rfl

/-- One program runs to its end, the next one faults, and the last one is let go because the unit
was asked to stop after its first step. -/
theorem diagnostics_reconcile_mixed :
    let requests : List UnitRequest := [.stop, .step 2, .submit .countdownSum .step,
      .submit { words := #[0xD503201F, 0], entry := 0 } .run, .submit .branchLadder .run]
    ∃ start unit : ExecutionUnit, start.New ∧
      Record (fun _ _ => True) start requests [0, 1, 2] unit ∧ unit.worker.current = none ∧
      unit.worker.diagnostics.instructionsRetired = 15 ∧ unit.worker.diagnostics.faults = 1 ∧
      unit.worker.diagnostics.programsInterrupted = 2 ∧ unit.Reconciles [0, 1, 2] := by
  intro requests
  let asked := ((small.ask (.submit .branchLadder .run)).ask
    (.submit { words := #[0xD503201F, 0], entry := 0 } .run)).ask (.submit .countdownSum .step)
  have hruns : (settle 30 asked).toOption.any (fun parked =>
      parked.worker.queue = [] ∧ (settle 3 (parked.ask (.step 2))).toOption.any fun stepped =>
        (settle 1 (stepped.ask .stop)).toOption.any fun unit =>
          unit.worker.current = none ∧ unit.worker.diagnostics.instructionsRetired = 15 ∧
          unit.worker.diagnostics.faults = 1 ∧ unit.worker.diagnostics.programsInterrupted = 2 ∧
          (unit.worker.tickets.toList.map (·.frame.retired)).sum < UInt64.size) = true := by
    decide +kernel
  obtain ⟨parked, hparked, hrest⟩ := (Option.any_eq_true _ _).mp hruns
  obtain ⟨hempty, hrest⟩ := of_decide_eq_true hrest
  obtain ⟨stepped, hstepped, hrest⟩ := (Option.any_eq_true _ _).mp hrest
  obtain ⟨unit, hunit, hrest⟩ := (Option.any_eq_true _ _).mp hrest
  obtain ⟨hcurrent, hretired, hfaults, hinterrupted, hsum⟩ := of_decide_eq_true hrest
  have hasked : Record (fun _ _ => True) small requests.tail.tail [] asked :=
    .asks (.asks (.asks .nothing trivial) trivial) trivial
  have hparks : Record (fun _ _ => True) small requests.tail.tail [0, 1, 2] parked :=
    hasked.settle_to_queue_nil (eq_ok_of_toOption hparked) hempty
  have hgranted : Record _ small requests.tail _ (parked.ask (.step 2)) := hparks.asks trivial
  obtain ⟨hsteps, hempty'⟩ := hgranted.settle_of_queue_nil (eq_ok_of_toOption hstepped) hempty
  have hstopped : Record _ small requests _ (stepped.ask .stop) := hsteps.asks trivial
  obtain ⟨hrecord, -⟩ := hstopped.settle_of_queue_nil (eq_ok_of_toOption hunit) hempty'
  exact ⟨small, unit, new_small, hrecord, hcurrent, hretired, hfaults, hinterrupted,
    diagnostics_reconcile new_small hrecord hcurrent hsum (by decide)⟩

end ExecutionUnit

end A64Machine
