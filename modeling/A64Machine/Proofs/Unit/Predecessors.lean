import A64Machine.Proofs.Unit.Driving
import A64Machine.Proofs.Unit.Following
import A64Machine.Proofs.Unit.Lockstep

/-!
A program does not see its predecessors.  Whatever a unit has executed before, the stack is cleared
and the image is written anew, so a program that reads no other words of RAM than those of its image
and those that it has written follows the run that it has on a new unit, move by move.
-/

namespace A64Machine

namespace FlatMachine

variable {program : Program} {words : UnitWords}

instance (program : Program) (machine : FlatMachine) : Decidable (machine.Leaves program) :=
  inferInstanceAs (Decidable (_ ∨ _))

instance (program : Program) (words : UnitWords) (count : Nat) :
    DecidablePred (Owns program words count) :=
  fun _ => inferInstanceAs (Decidable (_ ∨ _))

instance (own : Nat → Prop) [DecidablePred own] (locations : List Location) :
    Decidable (UnitWords.Within own locations) :=
  inferInstanceAs (Decidable (∀ location ∈ locations, location.region = .hierarchy →
    own location.word))

/-- Of a program that leaves its image, only the steps before count. -/
theorem readsOwn_of_leaves {limit : Nat} (hleaves : (after program words limit).Leaves program)
    (hwithin : ∀ count < limit, UnitWords.Within (Owns program words count)
      ((after program words count).words.reads (after program words count).regs)) :
    ReadsOwn program words := by
  intro count hstays
  by_cases hbefore : count < limit
  · exact hwithin count hbefore
  · exact absurd hleaves (hstays limit (Nat.le_of_not_lt hbefore))

end FlatMachine

namespace ExecutionUnit

variable {start unit after : ExecutionUnit}

/-- Whether a unit, apart from what it has executed, is still as it was when it was new. -/
structure Unstopped (start unit : ExecutionUnit) : Prop where
  index_eq : unit.worker.index = start.worker.index
  stopRequested : unit.worker.stopRequested = false
  status : unit.worker.current = none → unit.worker.status = .idle

theorem status_finish (unit : ExecutionUnit) (execution : Execution) (fault : Option FaultCode)
    (interrupted : Bool) : (unit.finish execution fault interrupted).worker.status =
      if (unit.finish execution fault interrupted).worker.stopRequested then .interrupted
      else .idle := rfl

theorem Move.unstopped (hmove : unit.Move after) (hunit : Unstopped start unit) :
    Unstopped start after := by
  have hstop := hmove.stopRequested_eq.trans hunit.stopRequested
  refine ⟨hmove.index_eq.trans hunit.index_eq, hstop, ?_⟩
  have hgoes := Bool.eq_false_iff.mp hstop
  cases hmove with
  | idles => exact hunit.status
  | discards hcurrent hqueue hstopped =>
    rw [hunit.stopRequested] at hstopped
    contradiction
  | begins => exact nofun
  | retires => exact nofun
  | parks hcurrent => exact fun hnone => absurd (hnone.symm.trans hcurrent) nofun
  | rejects => exact fun _ => (status_finish _ _ _ _).trans (if_neg hgoes)
  | ends => exact fun _ => (status_finish _ _ _ _).trans (if_neg hgoes)
  | faults => exact fun _ => (status_finish _ _ _ _).trans (if_neg hgoes)

theorem New.idle (hnew : start.New) : start.Idle := by
  obtain ⟨hworker, -⟩ := hnew
  exact ⟨congrArg Worker.current hworker, congrArg Worker.queue hworker,
    congrArg Worker.stopRequested hworker, congrArg Worker.status hworker⟩

/-- A unit that nobody stopped is idle when it has no program. -/
theorem History.unstopped {requests : List UnitRequest}
    (hhistory : History (fun _ request => request ≠ .stop) start requests unit)
    (hnew : start.New) : Unstopped start unit := by
  induction hhistory with
  | nothing => exact ⟨rfl, hnew.idle.stopRequested, fun _ => hnew.idle.status⟩
  | moves hunit htick ih => exact (move_of_tick htick).unstopped ih
  | @asks requests unit hunit request hpermits ih =>
    cases request with
    | submit program mode =>
      rw [ask, Worker.ask, Worker.submit]
      split
      · exact ⟨ih.index_eq, ih.stopRequested, ih.status⟩
      · exact ⟨ih.index_eq, ih.stopRequested, ih.status⟩
    | step ticket => exact ⟨ih.index_eq, ih.stopRequested, ih.status⟩
    | drop ticket => exact ⟨ih.index_eq, ih.stopRequested, ih.status⟩
    | stop => exact absurd rfl hpermits

end ExecutionUnit

namespace Course

variable {idle : ExecutionUnit} {program : Program} {events : List Event} {course : Course}

/-- A course of a program that was submitted to an idle unit, with what was reported since. -/
structure Of (idle : ExecutionUnit) (program : Program) (events : List Event) (course : Course) :
    Prop where
  program_eq : course.execution.program = program
  number : course.execution.ticket = idle.worker.tickets.size
  follows : course.execution.Follows course.memory idle.memory.words
  sound : course.memory.Sound idle.memory.map
  events_eq : course.memory.programEvents = idle.memory.programEvents ++ events

theorem Of.frame_eq (hof : course.Of idle program events) :
    course.frame = .capture
      (FlatMachine.after program idle.memory.words course.execution.retired).regs
      course.execution.retired
      (FlatMachine.after program idle.memory.words course.execution.retired).words.stack := by
  rw [frame, hof.follows.regs_eq, hof.program_eq]
  have hstack := congrArg UnitWords.stack hof.follows.words_eq
  rw [hof.program_eq] at hstack
  exact congrArg _ hstack

theorem Of.leaves_iff (hof : course.Of idle program events) : course.Leaves ↔
    (FlatMachine.after program idle.memory.words course.execution.retired).Leaves program := by
  have hleaves := hof.follows.leaves_iff
  rw [hof.program_eq] at hleaves
  exact hleaves

/-- The program has not left its image before. -/
theorem Of.stays (hof : course.Of idle program events) {earlier : Nat}
    (hearlier : earlier < course.execution.retired) :
    ¬(FlatMachine.after program idle.memory.words earlier).Leaves program := by
  have hstays := hof.follows.stays earlier hearlier
  rw [hof.program_eq] at hstays
  exact hstays

/-- A course goes on as the flat run of its program does. -/
theorem Of.next (hof : course.Of idle program events) (hstays : ¬course.Leaves) :
    ∃ fault after, course.next idle.worker.index = .ok (fault, after) ∧
      match (FlatMachine.after program idle.memory.words course.execution.retired).outcome with
      | .retired pc word _ mnemonic => fault = none ∧
        after.execution.retired = course.execution.retired + 1 ∧
        after.Of idle program (events ++
          [.fetch idle.worker.index pc word, .retire idle.worker.index pc mnemonic])
      | .faulted pc word cause => fault = some cause ∧ after.frame = course.frame ∧
        after.memory.programEvents = idle.memory.programEvents ++ (events ++
          (ExecutionUnit.fetched idle.worker.index pc word ++
            [.fault idle.worker.index pc cause])) := by
  obtain ⟨outcome, regs, memory, hstep, hserves⟩ :=
    UnitMemory.step_serves course.execution.regs hof.sound.wellFormed
  obtain ⟨houtcome, -, -⟩ := hof.follows.step hof.sound hstep
  have hevents := (UnitMemory.step_accessed hstep).events_eq.trans hof.events_eq
  rw [hof.program_eq] at houtcome
  rw [← houtcome]
  simp only [Course.next, hstep]
  cases outcome with
  | retired pc word group mnemonic =>
    refine ⟨none, _, rfl, rfl, rfl, hof.program_eq, hof.number,
      (hof.follows.retire hof.sound hstays hstep).of_words rfl,
      (hof.sound.of_serves hserves).reporting _, ?_⟩
    rw [← List.append_assoc, ← hevents]
    exact UnitMemory.programEvents_eq_append rfl rfl
  | faulted pc word cause =>
    obtain ⟨-, rfl, hafter⟩ := hof.follows.fault hof.sound hstep
    refine ⟨some cause, _, rfl, rfl, ?_, ?_⟩
    · have hstack : memory.stack.words = course.memory.stack.words :=
        congrArg UnitWords.stack (hafter.words_eq.trans hof.follows.words_eq.symm)
      exact congrArg (Frame.capture course.execution.regs course.execution.retired) hstack
    · rw [← List.append_assoc, ← hevents]
      cases word with
      | none => exact UnitMemory.programEvents_eq_append rfl rfl
      | some word => exact UnitMemory.programEvents_eq_append rfl rfl

/-- A program whose image fits begins its course. -/
theorem exists_enter (hsound : idle.memory.Sound idle.memory.map)
    (hfits : program.length ≤ idle.memory.hierarchy.size) :
    ∃ course, enter idle.worker program idle.memory = .ok (none, course) ∧
      course.Of idle program [.programStarted idle.worker.index program.entry] ∧
      course.execution.retired = 0 := by
  let started : UnitMemory := { idle.memory with
    events := idle.memory.events.push (.programStarted idle.worker.index program.entry) }
  have hstarted : started.Sound idle.memory.map := hsound.reporting _
  obtain ⟨machine, hmachine, -, hserves⟩ := Machine.start_serves hstarted.wellFormed hfits
  refine ⟨⟨{ program, ticket := idle.worker.tickets.size, regs := machine.regs, retired := 0 },
    machine.memory, idle.worker.diagnostics⟩, ?_, ⟨rfl, rfl, ?_, ?_, ?_⟩, rfl⟩
  · rw [enter]
    simp only [Nat.not_lt.mpr hfits, if_false]
    change (Machine.start program started >>= _) = _
    rw [hmachine]
    rfl
  · exact Machine.follows_of_start hstarted hfits hmachine idle.worker.tickets.size
  · exact hstarted.of_serves hserves
  · rw [(Machine.start_accessed hmachine).events_eq]
    exact UnitMemory.programEvents_eq_append rfl rfl

end Course

/-- A unit when it was new and when it is idle again, with a program that fits and reads no words of
RAM but its own. -/
structure Succession (start used : ExecutionUnit) (program : Program) : Prop where
  start_idle : start.Idle
  used_idle : used.Idle
  start_sound : start.memory.Sound start.memory.map
  used_sound : used.memory.Sound start.memory.map
  index_eq : used.worker.index = start.worker.index
  fits : program.length ≤ start.memory.hierarchy.size
  reads : FlatMachine.ReadsOwn program start.memory.words

theorem Succession.words_map {start used : ExecutionUnit} {program : Program}
    (hsuccession : Succession start used program) :
    used.memory.words.map = start.memory.words.map := by
  rw [UnitMemory.map_words, UnitMemory.map_words]
  exact hsuccession.used_sound.map_eq

/-- Two courses of a program, on a new unit and on a used one, that have come equally far. -/
structure Abreast (start used : ExecutionUnit) (program : Program) (first second : Course) :
    Prop where
  reported : ∃ events, first.Of start program events ∧ second.Of used program events
  retired_eq : second.execution.retired = first.execution.retired

/-- Two courses with the same frame, of which the same was reported. -/
structure Showing (start used : ExecutionUnit) (first second : Course) : Prop where
  frame_eq : second.frame = first.frame
  reported : ∃ events, first.memory.programEvents = start.memory.programEvents ++ events ∧
    second.memory.programEvents = used.memory.programEvents ++ events

namespace Abreast

variable {start used : ExecutionUnit} {program : Program} {first second : Course}

/-- Both have the same registers and the same stack. -/
theorem showing (habreast : Abreast start used program first second)
    (hsuccession : Succession start used program) : Showing start used first second := by
  obtain ⟨⟨events, hfirst, hsecond⟩, hretired⟩ := habreast
  refine ⟨?_, events, hfirst.events_eq, hsecond.events_eq⟩
  obtain ⟨hregs, -, hagree⟩ := FlatMachine.agree_after hsuccession.words_map hsuccession.reads
    first.execution.retired fun _ => hfirst.stays
  rw [hsecond.frame_eq, hfirst.frame_eq, hretired, hregs, hagree.stack_eq]

theorem leaves_iff (habreast : Abreast start used program first second)
    (hsuccession : Succession start used program) : second.Leaves ↔ first.Leaves := by
  have hframe := congrArg Frame.pc (habreast.showing hsuccession).frame_eq
  obtain ⟨⟨events, hfirst, hsecond⟩, -⟩ := habreast
  have hpc : second.execution.regs.pc = first.execution.regs.pc := hframe
  rw [Course.Leaves, Course.Leaves, hpc, hsecond.program_eq, hfirst.program_eq]

/-- Both retire the same instruction, or both fault in the same way. -/
theorem next (habreast : Abreast start used program first second)
    (hsuccession : Succession start used program) (hstays : ¬first.Leaves) :
    ∃ fault first' second', first.next start.worker.index = .ok (fault, first') ∧
      second.next used.worker.index = .ok (fault, second') ∧
      if fault.isSome then Showing start used first' second'
      else Abreast start used program first' second' := by
  have hframe := (habreast.showing hsuccession).frame_eq
  have hstays' := mt (habreast.leaves_iff hsuccession).mp hstays
  obtain ⟨⟨events, hfirst, hsecond⟩, hretired⟩ := habreast
  obtain ⟨fault, first', hnext, hends⟩ := hfirst.next hstays
  obtain ⟨fault', second', hnext', hends'⟩ := hsecond.next hstays'
  have houtcome := FlatMachine.outcome_after hsuccession.words_map hsuccession.reads
    first.execution.retired ?_
  · rw [hretired, houtcome, hsuccession.index_eq] at hends'
    cases hoc : (FlatMachine.after program start.memory.words first.execution.retired).outcome with
    | retired pc word group mnemonic =>
      rw [hoc] at hends hends'
      obtain ⟨rfl, hcount, hof⟩ := hends
      obtain ⟨rfl, hcount', hof'⟩ := hends'
      refine ⟨none, first', second', hnext, hnext', ⟨_, hof, hof'⟩, ?_⟩
      rw [hcount, hcount']
    | faulted pc word cause =>
      rw [hoc] at hends hends'
      obtain ⟨rfl, hkept, hevents⟩ := hends
      obtain ⟨rfl, hkept', hevents'⟩ := hends'
      refine ⟨some cause, first', second', hnext, hnext', ?_, _, hevents, hevents'⟩
      rw [hkept, hkept', hframe]
  · intro earlier hle
    rcases Nat.lt_or_eq_of_le hle with hlt | rfl
    · exact hfirst.stays hlt
    · exact mt hfirst.leaves_iff.mpr hstays

end Abreast

theorem Ticket.canStep_finish (ticket : Ticket) (frame : Frame) (fault : Option FaultCode)
    (interrupted : Bool) : (ticket.finish frame fault interrupted).canStep = false := by
  cases interrupted <;> simp [canStep, finish]

/-- A new unit and a used one to which the same program was submitted, at every moment. -/
inductive Alongside (start used : ExecutionUnit) (program : Program) (mode : RunMode) :
    ExecutionUnit → ExecutionUnit → Prop
  | submitted :
      Alongside start used program mode (start.submitted program mode) (used.submitted program mode)
  | underWay {first second : Course} (habreast : Abreast start used program first second)
      {ticket : Ticket} (hheld : ticket.abandoned = false) :
      Alongside start used program mode (first.unit start.worker ticket)
        (second.unit used.worker ticket)
  | ended {first second : Course} (hshowing : Showing start used first second) (ticket : Ticket)
      (fault : Option FaultCode) :
      Alongside start used program mode (first.ended start.worker ticket fault)
        (second.ended used.worker ticket fault)

namespace Alongside

variable {start used unit unit' : ExecutionUnit} {program : Program} {mode : RunMode}

theorem advanced {first second : Course} (hsuccession : Succession start used program)
    (habreast : Abreast start used program first second) (hstays : ¬first.Leaves)
    {ticket : Ticket} (hheld : ticket.abandoned = false) :
    BothOk (Alongside start used program mode) (first.advanced start.worker ticket)
      (second.advanced used.worker ticket) := by
  obtain ⟨fault, first', second', hnext, hnext', hends⟩ := habreast.next hsuccession hstays
  simp only [Course.advanced, hnext, hnext']
  cases fault with
  | none => exact .pure (underWay hends hheld)
  | some cause => exact .pure (ended hends ticket (some cause))

/-- A move of the new unit is a move of the used one. -/
theorem tick (halong : Alongside start used program mode unit unit')
    (hsuccession : Succession start used program) :
    BothOk (Alongside start used program mode) unit.tick unit'.tick := by
  cases halong with
  | submitted =>
    rw [hsuccession.start_idle.tick_submitted, hsuccession.used_idle.tick_submitted]
    have hmap := hsuccession.used_sound.map_eq
    have hfits : program.length ≤ used.memory.hierarchy.size := by
      have hsize : used.memory.hierarchy.size = start.memory.hierarchy.size :=
        congrArg AddressMap.hierarchyWords hmap
      rw [hsize]
      exact hsuccession.fits
    obtain ⟨first, henter, hfirst, hretired⟩ :=
      Course.exists_enter hsuccession.start_sound hsuccession.fits
    obtain ⟨second, henter', hsecond, hretired'⟩ :=
      Course.exists_enter (hmap ▸ hsuccession.used_sound) hfits
    rw [hsuccession.index_eq] at hsecond
    have habreast : Abreast start used program first second :=
      ⟨⟨_, hfirst, hsecond⟩, hretired'.trans hretired.symm⟩
    rw [henter, henter']
    simp only [bind, Except.bind, (habreast.showing hsuccession).frame_eq]
    exact .pure (underWay habreast rfl)
  | @underWay first second habreast ticket hheld =>
    have hshowing := habreast.showing hsuccession
    obtain ⟨events, hfirst, hsecond⟩ := habreast.reported
    rw [Course.tick_unit hsuccession.start_idle.stopRequested hfirst.number hheld,
      Course.tick_unit hsuccession.used_idle.stopRequested hsecond.number hheld]
    by_cases hleaves : first.Leaves
    · rw [if_pos hleaves, if_pos ((habreast.leaves_iff hsuccession).mpr hleaves)]
      exact .pure (ended hshowing ticket none)
    rw [if_neg hleaves, if_neg (mt (habreast.leaves_iff hsuccession).mp hleaves)]
    split
    · exact advanced hsuccession habreast hleaves hheld
    split
    · rw [hshowing.frame_eq]
      exact .pure (underWay habreast hheld)
    · exact advanced hsuccession habreast hleaves hheld
  | ended hshowing ticket fault => exact .pure (ended hshowing ticket fault)

/-- A step is granted to both programs or to none. -/
theorem grant (halong : Alongside start used program mode unit unit')
    (hsuccession : Succession start used program) :
    Alongside start used program mode (unit.ask (.step start.worker.tickets.size))
      (unit'.ask (.step used.worker.tickets.size)) := by
  cases halong with
  | submitted =>
    have hwaits {idle : ExecutionUnit} (hidle : idle.Idle) :
        (idle.submitted program mode).ask (.step idle.worker.tickets.size) =
          idle.submitted program mode := by
      simp only [ExecutionUnit.ask, Worker.ask, ExecutionUnit.submitted, hidle.submit_eq,
        Worker.grantStep, Worker.modifyTicket, modify_push_size]
      cases mode <;> rfl
    rw [hwaits hsuccession.start_idle, hwaits hsuccession.used_idle]
    exact submitted
  | @underWay first second habreast ticket hheld =>
    rw [ExecutionUnit.ask, ExecutionUnit.ask, Worker.ask, Worker.ask, Course.grantStep_unit,
      Course.grantStep_unit]
    refine underWay habreast ?_
    split
    · exact hheld
    · exact hheld
  | @ended first second hshowing ticket fault =>
    have hover (idle : ExecutionUnit) (course : Course) :
        (course.ended idle.worker ticket fault).ask (.step idle.worker.tickets.size) =
          course.ended idle.worker ticket fault := by
      simp only [ExecutionUnit.ask, Worker.ask, Course.ended, Worker.grantStep,
        Worker.modifyTicket, modify_push_size, Ticket.canStep_finish, Bool.false_eq_true, if_false]
    rw [hover, hover]
    exact ended hshowing ticket fault

end Alongside

/-- What can happen to a unit that was given a program: it makes a move, or a step is asked for. -/
inductive Drive where
  | moves | steps
  deriving Repr, DecidableEq

/-- What can be seen of a program: what is published about it, its frame while it is under way, and
what was reported since it was submitted. -/
structure ProgramView where
  ticket : Option Ticket
  frame : Option Frame
  events : List Event
  deriving Repr, DecidableEq

namespace ExecutionUnit

/-- The unit after what happened to it; the steps are those of one ticket. -/
def driven (number : Nat) : List Drive → ExecutionUnit → Except Violation ExecutionUnit
  | [], unit => pure unit
  | .moves :: rest, unit => unit.tick >>= driven number rest
  | .steps :: rest, unit => driven number rest (unit.ask (.step number))

def programView (idle unit : ExecutionUnit) : ProgramView where
  ticket := unit.worker.tickets[idle.worker.tickets.size]?
  frame := unit.worker.current.map fun execution => unit.frame execution.regs execution.retired
  events := unit.memory.programEvents.drop idle.memory.programEvents.length

end ExecutionUnit

namespace Alongside

variable {start used unit unit' : ExecutionUnit} {program : Program} {mode : RunMode}

theorem programView_eq (halong : Alongside start used program mode unit unit')
    (hsuccession : Succession start used program) :
    start.programView unit = used.programView unit' := by
  cases halong with
  | submitted =>
    simp only [ExecutionUnit.programView, ExecutionUnit.submitted, hsuccession.start_idle.submit_eq,
      hsuccession.used_idle.submit_eq, Array.getElem?_push_size, hsuccession.start_idle.current,
      hsuccession.used_idle.current, List.drop_length]
    rfl
  | @underWay first second habreast ticket hheld =>
    obtain ⟨hframe, events, hevents, hevents'⟩ := habreast.showing hsuccession
    simp only [ExecutionUnit.programView, Course.tickets_unit]
    simp only [Course.unit, hevents, hevents', List.drop_left]
    exact congrArg (ProgramView.mk (some ticket) · events) (congrArg some hframe.symm)
  | @ended first second hshowing ticket fault =>
    obtain ⟨hframe, events, hevents, hevents'⟩ := hshowing
    have hfinished {idle : ExecutionUnit} {course : Course}
        (hcourse : course.memory.programEvents = idle.memory.programEvents ++ events) :
        (course.ended idle.worker ticket fault).memory.programEvents =
          idle.memory.programEvents ++ (events ++ [.programFinished idle.worker.index fault.isSome]) := by
      rw [← List.append_assoc, ← hcourse]
      exact UnitMemory.programEvents_eq_append rfl rfl
    simp only [ExecutionUnit.programView, Course.tickets_ended, hfinished hevents,
      hfinished hevents', List.drop_left, hframe, hsuccession.index_eq]
    rfl

/-- Whatever happens to both units. -/
theorem driven (halong : Alongside start used program mode unit unit')
    (hsuccession : Succession start used program) (drives : List Drive) :
    BothOk (Alongside start used program mode)
      (unit.driven start.worker.tickets.size drives)
      (unit'.driven used.worker.tickets.size drives) := by
  induction drives generalizing unit unit' with
  | nil => exact .pure halong
  | cons drive rest ih =>
    cases drive with
    | moves => exact (halong.tick hsuccession).bind fun _ _ hafter => ih hafter
    | steps => exact ih (halong.grant hsuccession)

end Alongside

namespace ExecutionUnit

variable {start used : ExecutionUnit} {program : Program}

/-- A program that fits, and on a new unit reads no words of RAM but those of its image and those
that it has written, does not see what the unit executed before, as long as it was not stopped:
however the unit is driven from then on, the same is published about the program, at every moment,
as when it is the first one. -/
theorem predecessors_invisible {requests : List UnitRequest} (hnew : start.New)
    (hhistory : History (fun _ request => request ≠ .stop) start requests used)
    (hcurrent : used.worker.current = none) (hqueue : used.worker.queue = [])
    (hfits : program.length ≤ start.memory.hierarchy.size)
    (hreads : FlatMachine.ReadsOwn program start.memory.words) (mode : RunMode)
    (drives : List Drive) :
    BothOk (fun first later => start.programView first = used.programView later)
      ((start.submitted program mode).driven start.worker.tickets.size drives)
      ((used.submitted program mode).driven used.worker.tickets.size drives) := by
  have hunstopped := hhistory.unstopped hnew
  have hsuccession : Succession start used program := {
    start_idle := hnew.idle
    used_idle := ⟨hcurrent, hqueue, hunstopped.stopRequested, hunstopped.status hcurrent⟩
    start_sound := hnew.sound
    used_sound := hhistory.sound hnew.sound
    index_eq := hunstopped.index_eq
    fits := hfits
    reads := hreads }
  have hsubmitted : Alongside start used program mode (start.submitted program mode)
      (used.submitted program mode) := .submitted
  obtain ⟨first, later, hfirst, hlater, halong⟩ := hsubmitted.driven hsuccession drives
  exact ⟨first, later, hfirst, hlater, halong.programView_eq hsuccession⟩

/-- A program that writes a word after its image and reads it back, after one that finished, one that
faulted, one that did not fit and one that was abandoned. -/
theorem predecessors_invisible_store_load :
    let program : Program :=
      { words := #[0x52800501, 0x528000A0, 0xB9000020, 0xB9400022, 0xD65F03C0], entry := 0 }
    let requests : List UnitRequest :=
      [.drop 3, .submit .countdownSum .step,
        .submit { words := Array.replicate 65 0xD65F03C0, entry := 1 } .run,
        .submit { words := #[0xD503201F, 0], entry := 0 } .run, .submit .branchLadder .run]
    ∃ start used : ExecutionUnit, start.New ∧
      History (fun _ request => request ≠ .stop) start requests used ∧
      used.worker.tickets.size = 4 ∧
      ∀ mode drives, BothOk (fun first later => start.programView first = used.programView later)
        ((start.submitted program mode).driven 0 drives)
        ((used.submitted program mode).driven 4 drives) := by
  intro program requests
  let store : Ram := .zeroed "RAM" 64
  let hierarchy : Memory :=
    .cache { name := "L1", capacity := 64, lines := Vector.replicate 1 {} } (.ram store)
  let start : ExecutionUnit :=
    { worker := { index := 0 }, memory := { hierarchy, stack := .zeroed "STACK" 4 } }
  have hbuild : (Memory.ram store).withCache "L1" {} 64 = .ok hierarchy := rfl
  have hnew : start.New := ⟨rfl, .start (.cache (.ram store) hbuild) _ _⟩
  have hasked : History (fun _ request => request ≠ .stop) start requests
      (requests.foldr (fun request unit => unit.ask request) start) :=
    .asks (.asks (.asks (.asks (.asks .nothing nofun) nofun) nofun) nofun) nofun
  have hsettles : (settle 60 (requests.foldr (fun request unit => unit.ask request)
      start)).toOption.any (fun used => used.worker.tickets.size = 4 ∧
        used.worker.current = none ∧ used.worker.queue = []) = true := by
    decide +kernel
  have hfits : program.length ≤ start.memory.hierarchy.size := by decide +kernel
  have hleaves : (FlatMachine.after program start.memory.words 5).Leaves program := by
    decide +kernel
  have hwithin : ∀ count < 5, UnitWords.Within
      (FlatMachine.Owns program start.memory.words count)
      ((FlatMachine.after program start.memory.words count).words.reads
        (FlatMachine.after program start.memory.words count).regs) := by
    decide +kernel
  obtain ⟨used, hsettle, hused⟩ := (Option.any_eq_true _ _).mp hsettles
  obtain ⟨hsize, hcurrent, hqueue⟩ := of_decide_eq_true hused
  have hhistory := hasked.settle (eq_ok_of_toOption hsettle)
  refine ⟨start, used, hnew, hhistory, hsize, fun mode drives => ?_⟩
  rw [← hsize]
  exact predecessors_invisible hnew hhistory hcurrent hqueue hfits
    (FlatMachine.readsOwn_of_leaves hleaves hwithin) mode drives

end ExecutionUnit

end A64Machine
