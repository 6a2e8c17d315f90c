import A64Machine.Proofs.Unit.Halting
import A64Machine.Proofs.Unit.Submissions
import A64Machine.Proofs.Unit.Traces

/-!
All that a unit reports about programs is made of their traces, one after the other, and of what it
has reported so far of the program that it has.  This is so at every moment of every history,
however its programs ended.
-/

namespace A64Machine

namespace ExecutionUnit

variable {unit after start : ExecutionUnit} {taken : List Nat} {requests : List UnitRequest}
  {stopped : Prop} {traces : List ProgramTrace} {number : Nat} {f : Ticket → Ticket}

/-- What a unit has reported of the program that it has, if it has one. -/
inductive Reporting (unit : ExecutionUnit) (map : AddressMap) (index : Nat) : List Event → Prop
  | nothing (hcurrent : unit.worker.current = none) : Reporting unit map index []
  | program {execution : Execution} {words : UnitWords} {retired : List Retirement}
      (hcurrent : unit.worker.current = some execution)
      (hrunning : execution.Running map unit.memory words retired) :
      Reporting unit map index (ProgramTrace.begun index execution.program retired)

/-- Whether all that a unit has reported about programs is made of the given traces, and of what it
has reported of the program that it has.  The traces belong to programs that were taken from the
queue, in order, and those that it let go of without a trace have retired nothing. -/
structure Traced (start : ExecutionUnit) (requests : List UnitRequest) (stopped : Prop)
    (taken : List Nat) (unit : ExecutionUnit) (traces : List ProgramTrace) : Prop where
  index_eq : unit.worker.index = start.worker.index
  events : ∃ more, unit.Reporting start.memory.map start.worker.index more ∧
    unit.memory.programEvents = start.memory.programEvents ++
      (traces.flatMap (·.events start.worker.index) ++ more)
  numbers : (traces.map (·.number) ++ (unit.worker.current.map (·.ticket)).toList).Sublist taken
  submitted : ∀ trace ∈ traces, (submissions requests)[trace.number]? = some trace.program
  wellFormed : ∀ trace ∈ traces, ∃ shown, unit.shown[trace.number]? = some shown ∧
    trace.WellFormed start.memory.map stopped shown
  untraced : ∀ number shown, unit.shown[number]? = some shown → shown.state.isFinished = true →
    number ∉ traces.map (·.number) → shown = .ended {} none true

/-- The program whose turn it is comes after those that have a trace. -/
theorem Turn.numbers (hturn : Turn taken unit after number f) {earlier : List Nat}
    (hnumbers : (earlier ++ (unit.worker.current.map (·.ticket)).toList).Sublist taken) :
    (earlier ++ [number]).Sublist (taken ++ unit.leaving after) := by
  have hpending := hturn.pending_eq
  have htaken := hturn.taken_eq
  rw [Worker.pending] at hpending
  cases hcurrent : unit.worker.current with
  | none =>
    rw [hcurrent, Option.map_none, Option.toList_none, List.nil_append] at hpending
    rw [hpending, ← List.singleton_append, ← List.append_assoc] at htaken
    rw [List.append_cancel_right htaken]
    rw [hcurrent, Option.map_none, Option.toList_none, List.append_nil] at hnumbers
    exact hnumbers.append_right [number]
  | some execution =>
    rw [hcurrent, Option.map_some, Option.toList_some] at hpending hnumbers
    rw [List.singleton_append] at hpending
    obtain ⟨hnumber, hqueue⟩ := List.cons.inj hpending
    rw [hqueue] at htaken
    rw [List.append_cancel_right htaken, ← hnumber]
    exact hnumbers

namespace Traced

/-- A turn of one program.  If the program ends it leaves a trace, or it has retired nothing. -/
theorem turn (htraced : Traced start requests stopped taken unit traces)
    (hturn : Turn taken unit after number f) (hroster : unit.Roster taken) {new : List ProgramTrace}
    (hnew : ∀ trace ∈ new, trace.number = number ∧
      (submissions requests)[number]? = some trace.program ∧
      ∀ ticket, trace.WellFormed start.memory.map stopped (f ticket).shown)
    (hends : ∀ ticket : Ticket, ticket.shown.IsOpen → (f ticket).shown.state.isFinished = true →
      number ∉ new.map (·.number) → (f ticket).shown = .ended {} none true)
    (hnumbers : (new.map (·.number) ++
      (after.worker.current.map (·.ticket)).toList).Sublist [number])
    (hindex : after.worker.index = unit.worker.index)
    (hevents : ∃ more, after.Reporting start.memory.map start.worker.index more ∧
      after.memory.programEvents = start.memory.programEvents ++
        (traces.flatMap (·.events start.worker.index) ++
          (new.flatMap (·.events start.worker.index) ++ more))) :
    Traced start requests stopped (taken ++ unit.leaving after) after (traces ++ new) := by
  obtain ⟨old, hold, -, hstate, hfault⟩ := hturn.exists_ticket hroster
  have hopen : old.shown.IsOpen := ⟨hstate, hfault⟩
  have hold' := getElem?_shown hold
  have hshown := shown_of_modify hold hturn.tickets_eq
  constructor
  case index_eq => exact hindex.trans htraced.index_eq
  case events =>
    obtain ⟨more, hreporting, hevents⟩ := hevents
    refine ⟨more, hreporting, ?_⟩
    rw [hevents, List.flatMap_append, List.append_assoc (traces.flatMap _)]
  case numbers =>
    rw [List.map_append, List.append_assoc]
    exact (hnumbers.append_left _).trans (hturn.numbers htraced.numbers)
  case submitted =>
    intro trace htrace
    rcases List.mem_append.mp htrace with hearlier | hlast
    · exact htraced.submitted trace hearlier
    · obtain ⟨hnumber, hprogram, -⟩ := hnew trace hlast
      exact hnumber ▸ hprogram
  case wellFormed =>
    intro trace htrace
    rw [hshown]
    rcases List.mem_append.mp htrace with hearlier | hlast
    · obtain ⟨shown, hkept, hwell⟩ := htraced.wellFormed trace hearlier
      -- A program with a trace has ended, so this turn is not its turn.
      have hother : number ≠ trace.number := by
        rintro rfl
        obtain rfl := Option.some.inj (hold'.symm.trans hkept)
        exact absurd (hstate.symm.trans hwell.isFinished) nofun
      exact ⟨shown, (List.getElem?_set_ne hother).trans hkept, hwell⟩
    · obtain ⟨hnumber, -, hwell⟩ := hnew trace hlast
      rw [hnumber]
      exact ⟨_, List.getElem?_set_self (List.getElem?_eq_some_iff.mp hold').1, hwell old⟩
  case untraced =>
    intro other shown hother hfinished huntraced
    rw [List.map_append, List.mem_append, not_or] at huntraced
    rw [hshown] at hother
    by_cases hsame : number = other
    · subst hsame
      rw [List.getElem?_set_self (List.getElem?_eq_some_iff.mp hold').1] at hother
      obtain rfl := Option.some.inj hother
      exact hends old hopen hfinished huntraced.2
    · rw [List.getElem?_set_ne hsame] at hother
      exact htraced.untraced other shown hother hfinished huntraced.1

/-- A program begins or goes on. -/
theorem opens (htraced : Traced start requests stopped taken unit traces)
    (hturn : Turn taken unit after number f) (hroster : unit.Roster taken)
    (hopens : ∀ ticket : Ticket, ticket.shown.IsOpen → (f ticket).shown.IsOpen)
    (hindex : after.worker.index = unit.worker.index) {execution : Execution}
    (hcurrent : after.worker.current = some execution) (hnumber : execution.ticket = number)
    {words : UnitWords} {retired : List Retirement}
    (hrunning : execution.Running start.memory.map after.memory words retired)
    (hevents : after.memory.programEvents = start.memory.programEvents ++
      (traces.flatMap (·.events start.worker.index) ++
        ProgramTrace.begun start.worker.index execution.program retired)) :
    Traced start requests stopped (taken ++ unit.leaving after) after traces := by
  have hafter := htraced.turn hturn hroster (fun _ htrace => absurd htrace List.not_mem_nil)
    (fun ticket hopen hfinished _ =>
      absurd ((hopens ticket hopen).state.symm.trans hfinished) nofun)
    (by rw [hcurrent, Option.map_some, hnumber]; exact .refl _) hindex
    ⟨_, .program hcurrent hrunning, hevents⟩
  rwa [List.append_nil] at hafter

/-- A program leaves the unit with a trace. -/
theorem leaves (htraced : Traced start requests stopped taken unit traces)
    (hturn : Turn taken unit after number f) (hroster : unit.Roster taken)
    (hindex : after.worker.index = unit.worker.index) (hcurrent : after.worker.current = none)
    {trace : ProgramTrace} (hnumber : trace.number = number)
    (hprogram : (submissions requests)[number]? = some trace.program)
    (hwell : ∀ ticket, trace.WellFormed start.memory.map stopped (f ticket).shown)
    (hevents : after.memory.programEvents = start.memory.programEvents ++
      (traces.flatMap (·.events start.worker.index) ++ trace.events start.worker.index)) :
    Traced start requests stopped (taken ++ unit.leaving after) after (traces ++ [trace]) := by
  refine htraced.turn hturn hroster (fun other hother => ?_) (fun _ _ _ huntraced => ?_) ?_ hindex
    ⟨[], .nothing hcurrent, ?_⟩
  · obtain rfl := List.mem_singleton.mp hother
    exact ⟨hnumber, hprogram, hwell⟩
  · exact absurd (List.mem_singleton.mpr hnumber.symm) huntraced
  · rw [hcurrent, List.map_singleton, hnumber]
    exact .refl _
  · rw [hevents, List.flatMap_singleton, List.append_nil]

/-- Between two programs all that was reported belongs to the traces. -/
theorem events_of_none (htraced : Traced start requests stopped taken unit traces)
    (hcurrent : unit.worker.current = none) : unit.memory.programEvents =
      start.memory.programEvents ++ traces.flatMap (·.events start.worker.index) := by
  obtain ⟨more, hreporting, hevents⟩ := htraced.events
  cases hreporting with
  | nothing => rwa [List.append_nil] at hevents
  | program hsome => exact absurd (hcurrent.symm.trans hsome) nofun

/-- The rest belongs to the program that has the unit. -/
theorem running (htraced : Traced start requests stopped taken unit traces) {execution : Execution}
    (hcurrent : unit.worker.current = some execution) :
    ∃ words retired, execution.Running start.memory.map unit.memory words retired ∧
      unit.memory.programEvents = start.memory.programEvents ++
        (traces.flatMap (·.events start.worker.index) ++
          ProgramTrace.begun start.worker.index execution.program retired) := by
  obtain ⟨more, hreporting, hevents⟩ := htraced.events
  cases hreporting with
  | nothing hnone => exact absurd (hnone.symm.trans hcurrent) nofun
  | program hsome hrunning =>
    obtain rfl := Option.some.inj (hsome.symm.trans hcurrent)
    exact ⟨_, _, hrunning, hevents⟩

section

variable (htraced : Traced start requests stopped taken unit traces) (hroster : unit.Roster taken)

include htraced hroster

/-- A program that waits until the unit was asked to stop leaves no trace. -/
theorem discards {job : Job} {rest : List Job} (hcurrent : unit.worker.current = none)
    (hqueue : unit.worker.queue = job :: rest) :
    Traced start requests stopped (taken ++ unit.leaving (unit.discarded job rest))
      (unit.discarded job rest) traces := by
  have hturn := Roster.takes_discarded taken hcurrent hqueue
  have hnone : (unit.discarded job rest).worker.current = none := hcurrent
  have hafter := htraced.turn hturn hroster (fun _ htrace => absurd htrace List.not_mem_nil)
    (fun _ _ _ _ => rfl) (by rw [hnone]; exact List.nil_sublist _) rfl ⟨[], .nothing hnone, ?_⟩
  · rwa [List.append_nil] at hafter
  · rw [List.append_nil, List.flatMap_nil, List.append_nil]
    exact htraced.events_of_none hcurrent

variable (hsound : unit.memory.Sound start.memory.map) (hsubmitted : unit.Submitted requests)
  (hloads : ∀ program ∈ submissions requests, program.Loadable)

include hsound

/-- A program begins. -/
theorem begins {job : Job} {rest : List Job} {machine : Machine}
    (hcurrent : unit.worker.current = none) (hqueue : unit.worker.queue = job :: rest)
    (hfits : job.program.length ≤ unit.memory.hierarchy.size)
    (hstart : Machine.start job.program (unit.taken job rest).memory = .ok machine) :
    Traced start requests stopped (taken ++ unit.leaving (unit.begun job rest machine))
      (unit.begun job rest machine) traces := by
  have hturn := Roster.takes_begun taken hcurrent hqueue machine
  have hstarted : (unit.taken job rest).memory.programEvents = unit.memory.programEvents ++
      [.programStarted unit.worker.index job.program.entry] :=
    UnitMemory.programEvents_eq_append rfl rfl
  have htaken : (unit.taken job rest).memory.Sound start.memory.map := hsound.reporting _
  refine htraced.opens hturn hroster (fun ticket hopen => hopen.begin _) rfl rfl rfl
    (.of_start htaken hfits hstart job.ticket) ((Machine.start_accessed hstart).events_eq.trans ?_)
  rw [hstarted, htraced.events_of_none hcurrent, htraced.index_eq, List.append_assoc]
  rfl

/-- An instruction retires. -/
theorem retires {execution : Execution} {pc : Doubleword} {word : Word} {group : InstructionGroup}
    {mnemonic : Mnemonic} {regs : RegisterFile} {memory : UnitMemory}
    (hexecutes : unit.Executes execution)
    (hstep : step execution.regs unit.memory =
      .ok (.retired pc word group mnemonic, regs, memory)) :
    let retired := (unit.executed execution memory [.fetch unit.worker.index pc word,
      .retire unit.worker.index pc mnemonic]).advanced execution group regs
    Traced start requests stopped (taken ++ unit.leaving retired) retired traces := by
  intro retired
  obtain ⟨words, instructions, hrunning, hevents⟩ := htraced.running hexecutes.current
  have hturn := hroster.keeps_retired hexecutes.current memory
    [.fetch unit.worker.index pc word, .retire unit.worker.index pc mnemonic] group regs
  have hreported : retired.memory.programEvents = memory.programEvents ++
      [.fetch unit.worker.index pc word, .retire unit.worker.index pc mnemonic] :=
    UnitMemory.programEvents_eq_append rfl rfl
  refine htraced.opens hturn hroster (fun ticket hopen => hopen.spend)
    (unit.worker.index_granted execution) rfl rfl
    ((hrunning.retire hsound hexecutes.stays hstep).of_words rfl) ?_
  rw [hreported, (UnitMemory.step_accessed hstep).events_eq, hevents, htraced.index_eq,
    ProgramTrace.begun_concat, List.append_assoc, List.append_assoc]
  rfl

variable (hsubmitted : unit.Submitted requests)
  (hloads : ∀ program ∈ submissions requests, program.Loadable)

include hsubmitted hloads

/-- The image of a program does not fit. -/
theorem rejects {job : Job} {rest : List Job} (hcurrent : unit.worker.current = none)
    (hqueue : unit.worker.queue = job :: rest)
    (htoolong : unit.memory.hierarchy.size < job.program.length) :
    ∃ traces, Traced start requests stopped (taken ++ unit.leaving (unit.rejected job rest))
      (unit.rejected job rest) traces := by
  have hprogram := hsubmitted.head hqueue
  have hloadable := hloads _ (List.mem_of_getElem? hprogram)
  have hmap : unit.memory.words.map = start.memory.map :=
    (UnitMemory.map_words unit.memory).trans hsound.map_eq
  have hturn := Roster.takes_rejected taken hcurrent hqueue
  have hreported : (unit.rejected job rest).memory.programEvents = unit.memory.programEvents ++
      [.programStarted unit.worker.index job.program.entry,
        .fault unit.worker.index (entryAddress job.program) .dataAbort,
        .programFinished unit.worker.index true] :=
    UnitMemory.programEvents_eq_append rfl rfl
  have hwords : unit.memory.words.map.hierarchyWords < job.program.length := by
    rw [UnitMemory.map_words]
    exact htoolong
  let trace : ProgramTrace :=
    ⟨job.ticket, job.program, [], some ⟨entryAddress job.program, none, .dataAbort⟩, true⟩
  have hwell (ticket : Ticket) : trace.WellFormed start.memory.map stopped (ticket.finish
      ((unit.taken job rest).frame {} 0) (some .dataAbort) true).shown :=
    hmap ▸ ProgramTrace.wellFormed_of_tooLong hloadable hwords job.ticket rfl
  refine ⟨traces ++ [trace], htraced.leaves hturn hroster rfl rfl rfl hprogram hwell ?_⟩
  rw [hreported, htraced.events_of_none hcurrent, htraced.index_eq, List.append_assoc]
  rfl

omit hsound in
/-- A program ends without a fault. -/
theorem ends {execution : Execution} {interrupted : Bool}
    (hcurrent : unit.worker.current = some execution) (hending : unit.Ending execution interrupted)
    (hstops : unit.worker.stopRequested = true → execution.Leaves → stopped) :
    ∃ traces, Traced start requests stopped
      (taken ++ unit.leaving (unit.finish execution none interrupted))
      (unit.finish execution none interrupted) traces := by
  obtain ⟨words, retired, hrunning, hevents⟩ := htraced.running hcurrent
  have hprogram := hsubmitted.current execution hcurrent
  have hloadable := hloads _ (List.mem_of_getElem? hprogram)
  have hturn := hroster.keeps_finish hcurrent interrupted
  have hreported : (unit.finish execution none interrupted).memory.programEvents =
      unit.memory.programEvents ++ [.programFinished unit.worker.index interrupted] :=
    UnitMemory.programEvents_eq_append rfl rfl
  have hleft : interrupted = false → execution.Leaves := by
    cases hending with
    | left _ hleaves => exact fun _ => hleaves
    | stopped => exact nofun
    | abandoned => exact nofun
  have hnormal : execution.Leaves → interrupted = false ∨ stopped := by
    cases hending with
    | left => exact fun _ => .inl rfl
    | stopped hstop => exact fun hleaves => .inr (hstops hstop hleaves)
    | abandoned _ hstays => exact fun hleaves => absurd hleaves hstays
  let trace : ProgramTrace := ⟨execution.ticket, execution.program, retired, none, interrupted⟩
  have hwell (ticket : Ticket) : trace.WellFormed start.memory.map stopped (ticket.finish
      (unit.frame execution.regs execution.retired) none interrupted).shown :=
    hrunning.wellFormed hloadable rfl (fun _ hraised => absurd hraised nofun) hleft hnormal
  refine ⟨traces ++ [trace], htraced.leaves hturn hroster rfl rfl rfl hprogram hwell ?_⟩
  rw [hreported, hevents, htraced.index_eq, List.append_assoc, List.append_assoc]
  rfl

/-- An instruction faults. -/
theorem faults {execution : Execution} {pc : Doubleword} {word : Option Word} {cause : FaultCode}
    {regs : RegisterFile} {memory : UnitMemory} (hexecutes : unit.Executes execution)
    (hstep : step execution.regs unit.memory = .ok (.faulted pc word cause, regs, memory)) :
    let faulted := ((unit.executed execution memory (fetched unit.worker.index pc word)).recordFault
      cause pc).finish { execution with regs } (some cause) true
    ∃ traces, Traced start requests stopped (taken ++ unit.leaving faulted) faulted traces := by
  intro faulted
  obtain ⟨words, retired, hrunning, hevents⟩ := htraced.running hexecutes.current
  have hprogram := hsubmitted.current execution hexecutes.current
  have hloadable := hloads _ (List.mem_of_getElem? hprogram)
  have hturn := hroster.keeps_faulted hexecutes.current memory
    (fetched unit.worker.index pc word) cause pc regs
  have hindex := unit.worker.index_granted execution
  have hreported : faulted.memory.programEvents = memory.programEvents ++
      (fetched unit.worker.index pc word ++ [.fault (unit.worker.granted execution).index pc cause,
        .programFinished (unit.worker.granted execution).index true]) := by
    cases word with
    | none => exact UnitMemory.programEvents_eq_append rfl rfl
    | some word => exact UnitMemory.programEvents_eq_append rfl rfl
  let trace : ProgramTrace :=
    ⟨execution.ticket, execution.program, retired, some ⟨pc, word, cause⟩, true⟩
  have hwell (ticket : Ticket) : trace.WellFormed start.memory.map stopped (ticket.spend.finish
      (.capture regs execution.retired memory.stack.words) (some cause) true).shown := by
    refine hrunning.wellFormed hloadable rfl (fun raised hraised => ?_)
      (fun hfalse => absurd hfalse nofun) fun hleaves => absurd hleaves hexecutes.stays
    obtain rfl := Option.some.inj hraised
    exact ⟨hexecutes.stays, (hrunning.follows.step hsound hstep).1.symm⟩
  refine ⟨traces ++ [trace], htraced.leaves hturn hroster hindex rfl rfl hprogram hwell ?_⟩
  rw [hreported, (UnitMemory.step_accessed hstep).events_eq, hevents, hindex, htraced.index_eq]
  simp only [trace, ProgramTrace.events, RaisedFault.events, Option.toList_some,
    List.flatMap_singleton, List.append_assoc, List.singleton_append]

end

/-- The program waits for its next step. -/
theorem parks (htraced : Traced start requests stopped taken unit traces)
    (hroster : unit.Roster taken) {execution : Execution}
    (hcurrent : unit.worker.current = some execution) (frame : Frame) :
    let parked : ExecutionUnit :=
      { unit with worker := unit.worker.modifyTicket execution.ticket (·.park frame) }
    Traced start requests stopped (taken ++ unit.leaving parked) parked traces := by
  intro parked
  obtain ⟨words, retired, hrunning, hevents⟩ := htraced.running hcurrent
  have hturn := hroster.keeps_parked hcurrent frame
  exact htraced.opens hturn hroster (fun ticket hopen => hopen.park frame) rfl hcurrent rfl
    hrunning hevents

/-- A request leaves no trace. -/
theorem ask (htraced : Traced start requests stopped taken unit traces) (request : UnitRequest) :
    Traced start (request :: requests) stopped taken (unit.ask request) traces := by
  have hcurrent : (unit.ask request).worker.current = unit.worker.current :=
    unit.worker.current_ask request
  constructor
  case index_eq => exact (unit.worker.index_ask request).trans htraced.index_eq
  case events =>
    obtain ⟨more, hreporting, hevents⟩ := htraced.events
    refine ⟨more, ?_, hevents⟩
    cases hreporting with
    | nothing hnone => exact .nothing (hcurrent.trans hnone)
    | program hsome hrunning => exact .program (hcurrent.trans hsome) hrunning
  case numbers =>
    rw [hcurrent]
    exact htraced.numbers
  case submitted =>
    intro trace htrace
    have hprogram := htraced.submitted trace htrace
    rw [submissions_cons, List.getElem?_append_left (List.getElem?_eq_some_iff.mp hprogram).1]
    exact hprogram
  case wellFormed =>
    intro trace htrace
    obtain ⟨shown, hshown, hwell⟩ := htraced.wellFormed trace htrace
    have hbound := (List.getElem?_eq_some_iff.mp hshown).1
    rw [length_shown] at hbound
    exact ⟨shown, (unit.getElem?_shown_ask request hbound).trans hshown, hwell⟩
  case untraced =>
    intro number shown hshown hfinished huntraced
    rcases unit.shown_ask request with hsame | ⟨new, hnew, hmore⟩
    · rw [hsame] at hshown
      exact htraced.untraced number shown hshown hfinished huntraced
    rw [hmore, List.getElem?_append] at hshown
    split at hshown
    · exact htraced.untraced number shown hshown hfinished huntraced
    · obtain rfl := List.mem_singleton.mp (List.mem_of_getElem? hshown)
      rcases hnew with rfl | rfl
      · contradiction
      · rfl

theorem mono {stopped' : Prop} (htraced : Traced start requests stopped taken unit traces)
    (himplies : stopped → stopped') : Traced start requests stopped' taken unit traces :=
  { htraced with
    wellFormed := fun trace htrace => (htraced.wellFormed trace htrace).imp
      fun _ hshown => hshown.imp_right fun hwell => hwell.mono himplies }

end Traced

/-- What a unit does in a move adds one trace at most. -/
theorem Move.traced (hmove : unit.Move after) (hroster : unit.Roster taken)
    (hsound : unit.memory.Sound start.memory.map) (hsubmitted : unit.Submitted requests)
    (hloads : ∀ program ∈ submissions requests, program.Loadable)
    (hstops : unit.worker.stopRequested = true → ∀ execution,
      unit.worker.current = some execution → execution.Leaves → stopped)
    (htraced : Traced start requests stopped taken unit traces) :
    ∃ traces, Traced start requests stopped (taken ++ unit.leaving after) after traces := by
  cases hmove with
  | idles =>
    rw [leaving_of_queue_eq rfl, List.append_nil]
    exact ⟨traces, htraced⟩
  | discards hcurrent hqueue => exact ⟨traces, htraced.discards hroster hcurrent hqueue⟩
  | rejects hcurrent hqueue _ htoolong =>
    exact htraced.rejects hroster hsound hsubmitted hloads hcurrent hqueue htoolong
  | begins hcurrent hqueue _ hfits hstart =>
    exact ⟨traces, htraced.begins hroster hsound hcurrent hqueue hfits hstart⟩
  | ends hcurrent hending =>
    exact htraced.ends hroster hsubmitted hloads hcurrent hending fun hstop =>
      hstops hstop _ hcurrent
  | parks hcurrent => exact ⟨traces, htraced.parks hroster hcurrent _⟩
  | retires hexecutes hstep => exact ⟨traces, htraced.retires hroster hsound hexecutes hstep⟩
  | faults hexecutes hstep => exact htraced.faults hroster hsound hsubmitted hloads hexecutes hstep

variable {permits : Worker → UnitRequest → Prop}

end ExecutionUnit

end A64Machine
