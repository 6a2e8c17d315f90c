import A64Machine.Proofs.Execution.CheckedMachine
import A64Machine.Proofs.Memory.ByteStore
import A64Machine.Proofs.Unit.History

/-!
What the frames of a program show of memory.  A frame has a copy of the stack, and computes the place
of a word in it on its own, without the address map.  Both come to the same: a frame reads a word at
the addresses at which the unit finds its stack, and reads what the unit would load there when the
frame is published.
-/

namespace A64Machine

/-- The view of the stack that a frame gets. -/
def UnitMemory.stackView (memory : UnitMemory) : MemoryView :=
  ⟨BitVec.ofNat 64 stackBase, memory.stack.words⟩

/-- Whether a view reads a word where a load of four bytes finds the stack, and the word that the load
finds. -/
structure MemoryView.Shows (view : MemoryView) (memory : UnitMemory) : Prop where
  isSome_iff (address : Doubleword) :
    (view.read address).isSome ↔ ∃ word, memory.map.resolve address 4 = .ok ⟨.stack, word⟩
  load_eq {address : Doubleword} {word : Word} (hread : view.read address = some word) :
    ∃ later, memory.load address 4 = .ok (.ok (word.setWidth 64), later)
  eq_none_iff (address : Doubleword) : view.read address = none ↔
    address.toNat % wordBytes ≠ 0 ∨ address.toNat < stackBase ∨
      memory.map.stackTop ≤ address.toNat

namespace AddressMap

variable {map : AddressMap} {address : Doubleword}

/-- A word in the stack window is mapped. -/
theorem resolve_of_inWindow (hfits : map.stackTop < UInt64.size)
    (haligned : address.toNat % wordBytes = 0) (hwindow : map.InWindow address) :
    map.resolve address 4 = .ok ⟨.stack, (address.toNat - stackBase) / wordBytes⟩ := by
  rw [resolve_eq_ok_iff, locate_of_inWindow hwindow]
  refine ⟨haligned, ?_, rfl⟩
  obtain ⟨hbase, htop⟩ := hwindow
  have hbits : byteAddresses = UInt64.size := rfl
  -- The stack ends at the end of a word, so the last word that begins in the window ends in it.
  have hend : address.toNat + 4 ≤ map.stackTop := by
    simp only [stackTop, stackBase, wordBytes] at *
    omega
  exact ⟨by omega, .inl ⟨hbase, htop, hend⟩⟩

theorem resolve_eq_stack_iff (hfits : map.stackTop < UInt64.size) :
    (∃ word, map.resolve address 4 = .ok ⟨.stack, word⟩) ↔
      address.toNat % wordBytes = 0 ∧ map.InWindow address := by
  constructor
  · rintro ⟨word, hresolve⟩
    obtain ⟨haligned, -, hlocation⟩ := resolve_eq_ok_iff.1 hresolve
    have hregion := map.region_locate address
    rw [← hlocation] at hregion
    split at hregion
    next hwindow => exact ⟨haligned, hwindow⟩
    next => contradiction
  · rintro ⟨haligned, hwindow⟩
    exact ⟨_, resolve_of_inWindow hfits haligned hwindow⟩

end AddressMap

namespace UnitMemory

variable {memory : UnitMemory} {address : Doubleword}

/-- The view finds the words of the stack window by a computation of its own. -/
theorem read_stackView (memory : UnitMemory) (address : Doubleword) :
    memory.stackView.read address =
      if address.toNat % wordBytes = 0 ∧ memory.map.InWindow address then
        some (memory.stack.words.getD ((address.toNat - stackBase) / wordBytes) 0)
      else none := by
  have hbase : (BitVec.ofNat 64 stackBase).toNat = stackBase := by decide
  have htop : memory.map.stackTop = stackBase + memory.stack.words.size * wordBytes := rfl
  rw [MemoryView.read, stackView, hbase]
  by_cases haligned : address.toNat % wordBytes = 0
  case neg => rw [if_pos (.inl haligned), if_neg fun hfound => haligned hfound.1]
  by_cases hbelow : address.toNat < stackBase
  case pos =>
    rw [if_pos (.inr hbelow), if_neg fun hfound => Nat.not_le_of_lt hbelow hfound.2.1]
  rw [if_neg (not_or.2 ⟨not_not_intro haligned, hbelow⟩)]
  by_cases habove : memory.map.stackTop ≤ address.toNat
  case pos =>
    have hpast : memory.stack.words.size ≤ (address.toNat - stackBase) / wordBytes := by
      simp only [htop, wordBytes] at *
      omega
    rw [if_neg fun hfound => Nat.not_le_of_lt hfound.2.2 habove, Array.getElem?_eq_none hpast]
  case neg =>
    have hin : (address.toNat - stackBase) / wordBytes < memory.stack.words.size := by
      simp only [htop, wordBytes] at *
      omega
    rw [if_pos ⟨haligned, Nat.le_of_not_lt hbelow, Nat.lt_of_not_le habove⟩,
      Array.getElem?_eq_getElem hin, Array.getD_eq_getD_getElem?, Array.getElem?_eq_getElem hin]
    rfl

/-- A word of the stack is loaded without a look at the hierarchy. -/
theorem load_of_inWindow (hfits : memory.map.stackTop < UInt64.size)
    (haligned : address.toNat % wordBytes = 0) (hwindow : memory.map.InWindow address) :
    ∃ later, memory.load address 4 = .ok
      (.ok ((memory.stack.words.getD ((address.toNat - stackBase) / wordBytes) 0).setWidth 64),
        later) := by
  have hresolve := AddressMap.resolve_of_inWindow hfits haligned hwindow
  have hin := (AddressMap.resolve_in_range hresolve (by decide)).1
  rw [load, hresolve]
  simp only [readWord, onStack, Ram.read, checkRange_eq_ok (show _ + 1 ≤ memory.stack.size from hin)]
  exact ⟨_, rfl⟩

/-- The view of an allocated stack shows it. -/
theorem Allocated.shows (hallocated : memory.Allocated) : memory.stackView.Shows memory := by
  have hfits : memory.map.stackTop < UInt64.size := Checked.stackTop_lt hallocated.stack_le
  refine ⟨fun address => ?_, fun {address word} hread => ?_, fun address => ?_⟩
  · rw [AddressMap.resolve_eq_stack_iff hfits, read_stackView]
    split
    next hfound => exact iff_of_true rfl hfound
    next hmissed => exact iff_of_false Bool.false_ne_true hmissed
  · rw [read_stackView] at hread
    split at hread
    next hfound =>
      obtain rfl := Option.some.inj hread
      exact load_of_inWindow hfits hfound.1 hfound.2
    next => contradiction
  · rw [read_stackView]
    split
    next hfound =>
      obtain ⟨haligned, hbase, htop⟩ := hfound
      refine iff_of_false nofun ?_
      omega
    next hmissed =>
      refine iff_of_true rfl ?_
      have houtside : ¬ (address.toNat % wordBytes = 0 ∧ stackBase ≤ address.toNat ∧
        address.toNat < memory.map.stackTop) := hmissed
      omega

end UnitMemory

/-- Whether a ticket shows its program anew: with another frame, in another state, or waiting for a
step. -/
def Ticket.ShowsAnew (old ticket : Ticket) : Prop :=
  ticket.frame ≠ old.frame ∨ ticket.state ≠ old.state ∨ old.parked = false ∧ ticket.parked = true

/-- An instruction that uses up a granted step is not shown. -/
theorem Ticket.not_showsAnew_spend (ticket : Ticket) : ¬ ticket.ShowsAnew ticket.spend := by
  rintro (hframe | hstate | ⟨hmoving, hparked⟩)
  · apply hframe
    rw [spend]
    split <;> rfl
  · apply hstate
    rw [spend]
    split <;> rfl
  · rw [spend] at hparked
    split at hparked
    · rw [hmoving] at hparked
      contradiction
    · contradiction

theorem eq_of_getElem?_modify_self {tickets : Array Ticket} {number : Nat} {f : Ticket → Ticket}
    {old ticket : Ticket} (hold : tickets[number]? = some old)
    (hticket : (tickets.modify number f)[number]? = some ticket) : ticket = f old := by
  rw [Array.getElem?_modify, if_pos rfl, hold] at hticket
  exact (Option.some.inj hticket).symm

namespace ExecutionUnit

/-- Whether a move publishes a frame of a program that the unit has before it or after it. -/
structure Publishes (unit after : ExecutionUnit) (number : Nat) (ticket : Ticket) : Prop where
  underWay : ∃ execution, execution.ticket = number ∧
    (unit.worker.current = some execution ∨ after.worker.current = some execution)
  shown : after.worker.tickets[number]? = some ticket
  anew : ∃ old, unit.worker.tickets[number]? = some old ∧ old.ShowsAnew ticket

variable {start unit after : ExecutionUnit}

/-- A frame that is published has the stack as the move leaves it. -/
theorem Move.memory_eq_stackView (hmove : unit.Move after) {number : Nat} {ticket : Ticket}
    (hpublishes : unit.Publishes after number ticket) :
    ticket.frame.memory = after.memory.stackView := by
  obtain ⟨⟨execution', hnumber, hunderWay⟩, hshown, old, hold, hanew⟩ := hpublishes
  have hnone (hbefore : unit.worker.current = none) (hafter : after.worker.current = none) :
      False := by
    rw [hbefore, hafter] at hunderWay
    rcases hunderWay with hother | hother <;> contradiction
  have hsame {execution : Execution} (hbefore : unit.worker.current = some execution)
      (hafter : ∀ other, after.worker.current = some other → other.ticket = execution.ticket) :
      execution.ticket = number := by
    rcases hunderWay with hother | hother
    · obtain rfl := Option.some.inj (hbefore.symm.trans hother)
      exact hnumber
    · exact (hafter execution' hother).symm.trans hnumber
  cases hmove with
  | idles hcurrent => exact (hnone hcurrent hcurrent).elim
  | discards hcurrent => exact (hnone hcurrent hcurrent).elim
  | rejects hcurrent => exact (hnone hcurrent rfl).elim
  | @begins job rest machine hcurrent =>
    have hjob : job.ticket = number := by
      rcases hunderWay with hother | hother
      · rw [hcurrent] at hother
        contradiction
      · obtain rfl := Option.some.inj hother
        exact hnumber
    subst hjob
    rw [eq_of_getElem?_modify_self hold hshown]
    rfl
  | ends hcurrent =>
    obtain rfl := hsame hcurrent nofun
    rw [eq_of_getElem?_modify_self hold hshown]
    rfl
  | parks hcurrent =>
    obtain rfl := hsame hcurrent fun other hother =>
      congrArg Execution.ticket (Option.some.inj (hother.symm.trans hcurrent))
    rw [eq_of_getElem?_modify_self hold hshown]
    rfl
  | @retires execution pc word group mnemonic regs memory hexecutes =>
    obtain rfl := hsame hexecutes.current fun other hother => by
      obtain rfl := Option.some.inj hother
      rfl
    have hspent : (unit.worker.tickets.modify execution.ticket Ticket.spend)[execution.ticket]? =
        some ticket := by
      rw [← unit.worker.tickets_granted]
      exact hshown
    rw [eq_of_getElem?_modify_self hold hspent] at hanew
    exact (old.not_showsAnew_spend hanew).elim
  | @faults execution pc word cause regs memory hexecutes =>
    obtain rfl := hsame hexecutes.current nofun
    have hspent : (unit.worker.granted execution).tickets[execution.ticket]? = some old.spend := by
      rw [unit.worker.tickets_granted, Array.getElem?_modify, if_pos rfl, hold]
      rfl
    rw [eq_of_getElem?_modify_self hspent hshown]
    rfl

/-- A move leaves RAM and stack as they were allocated. -/
theorem Move.allocated (hmove : unit.Move after) (hallocated : unit.memory.Allocated) :
    after.memory.Allocated :=
  hmove.preserves (fun _ hmemory => hmemory.wellFormed)
    (fun _ _ hmemory => ⟨hmemory.wellFormed, hmemory.stack_le, hmemory.hierarchy_le⟩)
    (fun hmemory hserves => Checked.allocated_of_serves hmemory hserves) hallocated

/-- The states that a unit comes to by moves and requests of any kind, while other units use the
hierarchy as well: between two moves any caches and RAM of the same size may take its place. -/
inductive Shared (start : ExecutionUnit) : ExecutionUnit → Prop
  | nothing : Shared start start
  | moves {unit after : ExecutionUnit} (hunit : Shared start unit) (htick : unit.tick = .ok after) :
      Shared start after
  | asks {unit : ExecutionUnit} (hunit : Shared start unit) (request : UnitRequest) :
      Shared start (unit.ask request)
  | others {unit : ExecutionUnit} (hunit : Shared start unit) {hierarchy : Memory}
      (hformed : hierarchy.WellFormed) (hsize : hierarchy.size = unit.memory.hierarchy.size)
      (events : Array Event) :
      Shared start { unit with memory := { unit.memory with hierarchy, events } }

theorem Shared.of_history {permits : Worker → UnitRequest → Prop} {requests : List UnitRequest}
    (hhistory : History permits start requests unit) : start.Shared unit := by
  induction hhistory with
  | nothing => exact .nothing
  | moves _ htick ih => exact ih.moves htick
  | asks _ _ ih => exact ih.asks _

theorem Shared.allocated (hunit : start.Shared unit) (hallocated : start.memory.Allocated) :
    unit.memory.Allocated := by
  induction hunit with
  | nothing => exact hallocated
  | moves _ htick ih => exact (move_of_tick htick).allocated ih
  | asks _ _ ih => exact ih
  | others _ hformed hsize _ ih =>
    exact ⟨hformed, ih.stack_le, hsize.symm ▸ ih.hierarchy_le⟩

/-- Every frame that is published of a program under way reads, at every byte address, what the unit
loads from its stack there, and nothing anywhere else. -/
theorem frames_show_stack (hallocated : start.memory.Allocated) (hunit : start.Shared unit) :
    ∃ after, unit.tick = .ok after ∧ ∀ number ticket, unit.Publishes after number ticket →
      ticket.frame.memory.Shows after.memory := by
  have hmemory := hunit.allocated hallocated
  obtain ⟨after, htick⟩ := exists_tick hmemory.wellFormed
  have hmove := move_of_tick htick
  refine ⟨after, htick, fun number ticket hpublishes => ?_⟩
  rw [hmove.memory_eq_stackView hpublishes]
  exact (hmove.allocated hmemory).shows

/-- A program that stored the word 5 at the top of a stack of four words, in the move in which it
ends. -/
theorem frames_show_stack_branchLadder :
    ∃ unit after ticket, small.memory.Allocated ∧ small.Shared unit ∧ unit.tick = .ok after ∧
      unit.Publishes after 0 ticket ∧ ticket.frame.memory.Shows after.memory ∧
      ticket.frame.memory.read 0x7FFF0000000C = some 5 := by
  have hallocated : small.memory.Allocated := ⟨trivial, by decide, by decide⟩
  have hends : (settle 14 (small.ask (.submit .branchLadder .run))).toOption.any (fun unit =>
      unit.worker.current.any (·.ticket = 0) ∧
      unit.worker.tickets[0]?.any (fun old => unit.tick.toOption.any fun after =>
        after.worker.tickets[0]?.any fun ticket => ticket.state ≠ old.state ∧
          ticket.frame.memory.read 0x7FFF0000000C = some 5)) = true := by
    decide +kernel
  obtain ⟨unit, hsettle, hunit⟩ := (Option.any_eq_true _ _).mp hends
  obtain ⟨hcurrent, htickets⟩ := of_decide_eq_true hunit
  obtain ⟨execution, hexecution, hnumber⟩ := (Option.any_eq_true _ _).mp hcurrent
  obtain ⟨old, hold, hmoves⟩ := (Option.any_eq_true _ _).mp htickets
  obtain ⟨after, htick, hshows⟩ := (Option.any_eq_true _ _).mp hmoves
  obtain ⟨ticket, hticket, hshown⟩ := (Option.any_eq_true _ _).mp hshows
  obtain ⟨hstate, hread⟩ := of_decide_eq_true hshown
  have hasked : History (fun _ _ => True) small [.submit .branchLadder .run]
      (small.ask (.submit .branchLadder .run)) := .asks .nothing trivial
  have hshared : small.Shared unit := .of_history (hasked.settle (eq_ok_of_toOption hsettle))
  have hticked := eq_ok_of_toOption htick
  have hpublishes : unit.Publishes after 0 ticket :=
    ⟨⟨execution, of_decide_eq_true hnumber, .inl hexecution⟩, hticket, old, hold,
      .inr (.inl hstate)⟩
  obtain ⟨after', hmoved, hall⟩ := frames_show_stack hallocated hshared
  obtain rfl := Except.ok.inj (hmoved.symm.trans hticked)
  exact ⟨unit, after', ticket, hallocated, hshared, hticked, hpublishes, hall 0 ticket hpublishes,
    hread⟩

end ExecutionUnit

end A64Machine
