import A64Machine.Proofs.Execution.CheckedPlan
import A64Machine.Proofs.Execution.FlatMachine
import A64Machine.Proofs.Execution.Reachable
import A64Machine.Proofs.Memory.CheckedCalls

/-!
The machine in checked arithmetic: the accesses of a unit, the execution of an instruction, the
commit of its effects and a whole step.  On a unit whose memories could be allocated and whose
caches could be built, nothing stops it: no operation lacks an answer, no memory is used against its
contract, and the stores that were probed are still mapped when they are committed.
-/

namespace A64Machine

/-- The caches of a unit were accepted, and its RAM and its stack allocated. -/
structure UnitMemory.Allocated (memory : UnitMemory) : Prop where
  wellFormed : memory.WellFormed
  stack_le : memory.stack.size ≤ Ram.maxWords
  hierarchy_le : memory.hierarchy.size ≤ Ram.maxWords

namespace Checked

/-- A fault as an answer; anything else stops the computation. -/
def answer {α : Type} : Except Stop α → Except Stop (Except FaultCode α)
  | .ok value => pure (.ok value)
  | .error (.fault cause) => pure (.error cause)
  | .error stop => throw stop

def stackTop (map : AddressMap) : Except Stop Nat := do
  let bytes ← product UInt64.size map.stackWords wordBytes
  sum UInt64.size stackBase bytes

/-- The number of words up to a byte address. -/
def wordsBelow (stop : Nat) : Except Stop Nat := do
  let whole ← quotient stop wordBytes
  let rest ← remainder stop wordBytes
  if 0 < rest then sum UInt64.size whole 1 else pure whole

/-- The location of an access in the hierarchy, which ends before `stop`. -/
def resolveHierarchy (map : AddressMap) (start stop : Nat) : Except Stop Location := do
  let words ← wordsBelow stop
  if map.hierarchyWords < words then throw (.fault .dataAbort)
  else do
    let word ← quotient start wordBytes
    pure ⟨.hierarchy, word⟩

def resolve (map : AddressMap) (address : Doubleword) (bytes : Nat) : Except Stop Location := do
  let start := address.toNat
  let misaligned ← remainder start wordBytes
  if misaligned ≠ 0 then throw (.fault .unalignedAccess)
  else if UInt64.size ≤ start + bytes then throw (.fault .dataAbort)
  else if stackBase ≤ start then do
    let top ← stackTop map
    if start < top then
      if top < start + bytes then throw (.fault .dataAbort)
      else do
        let offset ← difference start stackBase
        let word ← quotient offset wordBytes
        pure ⟨.stack, word⟩
    else resolveHierarchy map start (start + bytes)
  else resolveHierarchy map start (start + bytes)

def onHierarchy {α : Type} (memory : UnitMemory)
    (call : Memory → Except Stop (Reply Memory α)) : Except Stop (α × UnitMemory) := do
  let reply ← call memory.hierarchy
  pure (reply.value,
    { memory with hierarchy := reply.state, events := memory.events.appendList reply.events })

def onStack {α : Type} (memory : UnitMemory)
    (call : Ram → Except Stop (Reply Ram α)) : Except Stop (α × UnitMemory) := do
  let reply ← call memory.stack
  pure (reply.value,
    { memory with stack := reply.state, events := memory.events.appendList reply.events })

def readWord (memory : UnitMemory) (location : Location) : Except Stop (Word × UnitMemory) :=
  match location.region with
  | .stack => onStack memory (readRam · location.word)
  | .hierarchy => onHierarchy memory (read · location.word)

def writeWord (memory : UnitMemory) (location : Location) (value : Word) :
    Except Stop (Unit × UnitMemory) :=
  match location.region with
  | .stack => onStack memory (writeRam · location.word value)
  | .hierarchy => onHierarchy memory (write · location.word value)

def next (location : Location) : Except Stop Location := do
  let word ← sum UInt64.size location.word 1
  pure { location with word }

def fetch (memory : UnitMemory) (pc : Doubleword) : Except Stop (Answer Word) := do
  let misaligned ← remainder pc.toNat wordBytes
  if misaligned ≠ 0 then pure (.error .unalignedAccess, memory)
  else do
    let word ← quotient pc.toNat wordBytes
    if memory.hierarchy.size ≤ word then pure (.error .dataAbort, memory)
    else do
      let (word, memory) ← onHierarchy memory (read · word)
      pure (.ok word, memory)

/-- Loads one word, or two with the low word first. -/
def load (memory : UnitMemory) (address : Doubleword) (bytes : Nat) :
    Except Stop (Answer Doubleword) := do
  match ← answer (resolve memory.map address bytes) with
  | .error fault => pure (.error fault, memory)
  | .ok location =>
    let (low, memory) ← readWord memory location
    if bytes ≤ wordBytes then pure (.ok (low.setWidth 64), memory)
    else do
      let (high, memory) ← readWord memory (← next location)
      let raised ← shiftLeft (high.setWidth 64) 32
      pure (.ok (raised ||| low.setWidth 64), memory)

/-- Stores one word, or two with the low word first, at an address that was probed. -/
def store (memory : UnitMemory) (address : Doubleword) (bytes : Nat) (value : Doubleword) :
    Except Stop UnitMemory := do
  match ← answer (resolve memory.map address bytes) with
  | .error _ => throw (.violation (.unprobedStore address))
  | .ok location =>
    let (_, memory) ← writeWord memory location (value.setWidth 32)
    if bytes ≤ wordBytes then pure memory
    else do
      let high ← shiftRight value 32
      let (_, memory) ← writeWord memory (← next location) (high.setWidth 32)
      pure memory

/-- What a load leaves in its register. -/
def loaded (request : LoadRequest) (value : Doubleword) : Except Stop Doubleword :=
  if request.signed then signExtend value 32 else pure value

def performLoads : List LoadRequest → UnitMemory → Except Stop (Answer (List RegisterWrite))
  | [], memory => pure (.ok [], memory)
  | request :: rest, memory => do
    match ← load memory request.address request.bytes with
    | (.error fault, memory) => pure (.error fault, memory)
    | (.ok value, memory) =>
      let result ← loaded request value
      match ← performLoads rest memory with
      | (.error fault, memory) => pure (.error fault, memory)
      | (.ok writes, memory) => pure (.ok (.data request.reg result :: writes), memory)

def probeStores (memory : UnitMemory) : List PendingStore → Except Stop Unit
  | [] => pure ()
  | pending :: rest => do
    let _ ← resolve memory.map pending.address pending.bytes
    probeStores memory rest

def perform (plan : Plan) (memory : UnitMemory) : Except Stop (Answer Effects) := do
  match ← performLoads plan.loads memory with
  | (.error fault, memory) => pure (.error fault, memory)
  | (.ok loaded, memory) =>
    match ← answer (probeStores memory plan.effects.stores) with
    | .error fault => pure (.error fault, memory)
    | .ok () => pure (.ok { plan.effects with writes := loaded ++ plan.effects.writes }, memory)

def execute (instruction : Instruction) (regs : RegisterFile) (memory : UnitMemory) :
    Except Stop (Answer Effects) := do
  match ← answer (plan instruction regs) with
  | .error fault => pure (.error fault, memory)
  | .ok plan => perform plan memory

def commitStores : List PendingStore → UnitMemory → Except Stop UnitMemory
  | [], memory => pure memory
  | pending :: rest, memory => do
    let memory ← store memory pending.address pending.bytes pending.value
    commitStores rest memory

def commit (effects : Effects) (regs : RegisterFile) (memory : UnitMemory) :
    Except Stop (RegisterFile × UnitMemory) := do
  let memory ← commitStores effects.stores memory
  pure (effects.applyTo regs, memory)

def step (regs : RegisterFile) (memory : UnitMemory) :
    Except Stop (StepOutcome × RegisterFile × UnitMemory) := do
  let pc := regs.pc
  match ← fetch memory pc with
  | (.error cause, memory) => pure (.faulted pc none cause, regs, memory)
  | (.ok word, memory) =>
    match decode word with
    | .error fault => pure (.faulted pc (some word) fault.code, regs, memory)
    | .ok instruction =>
      match ← execute instruction regs memory with
      | (.error cause, memory) => pure (.faulted pc (some word) cause, regs, memory)
      | (.ok effects, memory) =>
        let (regs, memory) ← commit effects regs memory
        pure (.retired pc word instruction.group instruction.mnemonic, regs, memory)

theorem mapError_ok {α ε ε' : Type} (f : ε → ε') (value : α) :
    (Except.ok value).mapError f = .ok value := rfl

/-- A computation that may only fault, as an answer. -/
theorem answer_mapError {α : Type} (result : Except FaultCode α) :
    answer (result.mapError .fault) = pure result := by
  cases result <;> rfl

section Resolve

variable {map : AddressMap}

theorem maxWords_bound : stackBase + Ram.maxWords * wordBytes < UInt64.size := by decide

/-- A stack that could be allocated ends at a byte address. -/
theorem stackTop_lt (hstack : map.stackWords ≤ Ram.maxWords) : map.stackTop < UInt64.size := by
  have hbound := maxWords_bound
  have hbytes : map.stackWords * wordBytes ≤ Ram.maxWords * wordBytes :=
    Nat.mul_le_mul_right wordBytes hstack
  exact Nat.lt_of_le_of_lt (Nat.add_le_add_left hbytes stackBase) hbound

theorem stackTop_eq (hfits : map.stackTop < UInt64.size) : stackTop map = pure map.stackTop := by
  unfold AddressMap.stackTop at hfits ⊢
  rw [stackTop, product_eq (by omega), pure_bind, sum_eq hfits]

theorem wordsBelow_eq {stop : Nat} (hstop : stop < UInt64.size) :
    wordsBelow stop = pure ((stop + 3) / wordBytes) := by
  have hbytes : wordBytes ≠ 0 := by decide
  rw [wordsBelow, quotient_eq hbytes, pure_bind, remainder_eq hbytes, pure_bind]
  unfold wordBytes
  by_cases hrest : 0 < stop % 4
  · have hceil : stop / 4 + 1 = (stop + 3) / 4 := by omega
    rw [if_pos hrest, sum_eq (by omega), hceil]
  · have hceil : stop / 4 = (stop + 3) / 4 := by omega
    rw [if_neg hrest, hceil]

theorem resolveHierarchy_eq {start stop : Nat} (hstop : stop < UInt64.size) :
    resolveHierarchy map start stop =
      if map.hierarchyWords < (stop + 3) / wordBytes then throw (.fault .dataAbort)
      else pure ⟨.hierarchy, start / wordBytes⟩ := by
  have hbytes : wordBytes ≠ 0 := by decide
  rw [resolveHierarchy, wordsBelow_eq hstop, pure_bind, quotient_eq hbytes]
  rfl

/-- An access resolves in checked arithmetic as it does in the address map. -/
theorem resolve_eq (hfits : map.stackTop < UInt64.size) (address : Doubleword) (bytes : Nat) :
    resolve map address bytes = (map.resolve address bytes).mapError .fault := by
  have hbytes : wordBytes ≠ 0 := by decide
  unfold resolve AddressMap.resolve
  dsimp only
  rw [remainder_eq hbytes, pure_bind, stackTop_eq hfits, pure_bind]
  by_cases haligned : address.toNat % wordBytes ≠ 0
  · rw [if_pos haligned, if_pos haligned]
    rfl
  rw [if_neg haligned, if_neg haligned]
  by_cases hpast : UInt64.size ≤ address.toNat + bytes
  · rw [if_pos hpast, byteAddresses, if_pos hpast]
    rfl
  rw [if_neg hpast, byteAddresses, if_neg hpast]
  -- The top of the stack is computed only for addresses at its base or above.
  by_cases hinside : stackBase ≤ address.toNat ∧ address.toNat < map.stackTop
  · rw [if_pos hinside.1, if_pos hinside.2, difference_eq hinside.1, pure_bind, quotient_eq hbytes,
      pure_bind, if_pos hinside]
    split <;> rfl
  · have hwhere : (if stackBase ≤ address.toNat then
        if address.toNat < map.stackTop then
          if map.stackTop < address.toNat + bytes then throw (.fault .dataAbort)
          else do
            let offset ← difference address.toNat stackBase
            let word ← quotient offset wordBytes
            pure ⟨.stack, word⟩
        else resolveHierarchy map address.toNat (address.toNat + bytes)
      else resolveHierarchy map address.toNat (address.toNat + bytes)) =
        resolveHierarchy map address.toNat (address.toNat + bytes) := by
      by_cases hbase : stackBase ≤ address.toNat
      · have htop : ¬address.toNat < map.stackTop := fun htop => hinside ⟨hbase, htop⟩
        rw [if_pos hbase, if_neg htop]
      · rw [if_neg hbase]
    rw [hwhere, resolveHierarchy_eq (Nat.lt_of_not_le hpast), if_neg hinside]
    split <;> rfl

end Resolve

section Accesses

variable {memory : UnitMemory} (hallocated : memory.Allocated)

theorem maxWords_lt : Ram.maxWords < UInt64.size := by decide

include hallocated

/-- A memory that an access leaves is allocated as well. -/
theorem allocated_of_serves {α : Type} {answer value : α} {after : UnitMemory} {words : UnitWords}
    (hserves : memory.Serves answer after value words) : after.Allocated := by
  have hstack : after.map.stackWords = memory.map.stackWords :=
    congrArg AddressMap.stackWords hserves.map_eq
  have hhierarchy : after.map.hierarchyWords = memory.map.hierarchyWords :=
    congrArg AddressMap.hierarchyWords hserves.map_eq
  exact ⟨hserves.wellFormed, Nat.le_trans (Nat.le_of_eq hstack) hallocated.stack_le,
    Nat.le_trans (Nat.le_of_eq hhierarchy) hallocated.hierarchy_le⟩

theorem regionWords_lt (region : Region) : memory.map.regionWords region < UInt64.size := by
  have hlimit := maxWords_lt
  cases region with
  | stack => exact Nat.lt_of_le_of_lt hallocated.stack_le hlimit
  | hierarchy => exact Nat.lt_of_le_of_lt hallocated.hierarchy_le hlimit

theorem next_eq {location : Location}
    (hin : location.word + 1 < memory.map.regionWords location.region) :
    next location = pure (UnitWords.next location) := by
  have hsize := regionWords_lt hallocated location.region
  rw [next, sum_eq (Nat.lt_trans hin hsize)]
  rfl

theorem readWord_eq {location : Location}
    (hin : location.word < memory.map.regionWords location.region) :
    readWord memory location = (memory.readWord location).mapError .violation := by
  have hsize := regionWords_lt hallocated location.region
  unfold readWord UnitMemory.readWord
  cases hregion : location.region with
  | stack =>
    rw [hregion] at hin hsize
    dsimp only [onStack, UnitMemory.onStack]
    rw [readRam_eq memory.stack hsize hin]
    cases memory.stack.read location.word <;> rfl
  | hierarchy =>
    rw [hregion] at hin hsize
    dsimp only [onHierarchy, UnitMemory.onHierarchy]
    rw [read_eq memory.hierarchy hallocated.wellFormed hsize hin]
    cases memory.hierarchy.read location.word <;> rfl

theorem writeWord_eq {location : Location} (value : Word)
    (hin : location.word < memory.map.regionWords location.region) :
    writeWord memory location value = (memory.writeWord location value).mapError .violation := by
  have hsize := regionWords_lt hallocated location.region
  unfold writeWord UnitMemory.writeWord
  cases hregion : location.region with
  | stack =>
    rw [hregion] at hin hsize
    dsimp only [onStack, UnitMemory.onStack]
    rw [writeRam_eq memory.stack hsize hin]
    cases memory.stack.write location.word value <;> rfl
  | hierarchy =>
    rw [hregion] at hin hsize
    dsimp only [onHierarchy, UnitMemory.onHierarchy]
    rw [write_eq memory.hierarchy hallocated.wellFormed hsize value hin]
    cases memory.hierarchy.write location.word value <;> rfl

theorem fetch_eq (pc : Doubleword) :
    fetch memory pc = (memory.fetch pc).mapError .violation := by
  have hbytes : wordBytes ≠ 0 := by decide
  unfold fetch UnitMemory.fetch
  rw [remainder_eq hbytes, pure_bind]
  by_cases haligned : pc.toNat % wordBytes ≠ 0
  · rw [if_pos haligned, if_pos haligned]
    rfl
  rw [if_neg haligned, if_neg haligned, quotient_eq hbytes, pure_bind]
  by_cases hmapped : memory.hierarchy.size ≤ pc.toNat / wordBytes
  · rw [if_pos hmapped, if_pos hmapped]
    rfl
  rw [if_neg hmapped, if_neg hmapped]
  dsimp only [onHierarchy, UnitMemory.onHierarchy]
  rw [read_eq memory.hierarchy hallocated.wellFormed (regionWords_lt hallocated .hierarchy)
    (Nat.lt_of_not_le hmapped)]
  cases memory.hierarchy.read (pc.toNat / wordBytes) <;> rfl

theorem load_eq (address : Doubleword) {bytes : Nat} (hbytes : 0 < bytes) :
    load memory address bytes = (memory.load address bytes).mapError .violation := by
  unfold load UnitMemory.load
  rw [resolve_eq (stackTop_lt hallocated.stack_le), answer_mapError, pure_bind]
  cases hresolve : memory.map.resolve address bytes with
  | error cause => rfl
  | ok location =>
    rcases AddressMap.resolve_in_range hresolve hbytes with ⟨hlow, hhigh⟩
    rcases UnitMemory.readWord_serves hallocated.wellFormed location hlow with
      ⟨low, middle, hread, hserves⟩
    dsimp only
    rw [readWord_eq hallocated hlow, hread]
    by_cases hword : bytes ≤ wordBytes
    · simp only [bind, Except.bind, mapError_ok, if_pos hword]
      rfl
    · have hmiddle := allocated_of_serves hallocated hserves
      -- The first word may have moved lines, but both words lie in the region as it was.
      have hnext := hhigh (Nat.lt_of_not_le hword)
      have hregion := hnext
      rw [← hserves.map_eq] at hregion
      rcases UnitMemory.readWord_serves hmiddle.wellFormed (UnitWords.next location) hregion with
        ⟨high, after, hread', -⟩
      have hboth : high.setWidth 64 <<< 32 ||| low.setWidth 64 = high ++ low := by
        rw [append_setWidth]
        exact BitVec.setWidth_eq _
      have hchecked : readWord middle (UnitWords.next location) = .ok (high, after) := by
        rw [readWord_eq hmiddle hregion, hread']
        rfl
      unfold UnitWords.next at hread'
      simp only [bind, Except.bind, mapError_ok, if_neg hword, next_eq hallocated hnext, pure,
        Except.pure, hchecked, hread', shiftLeft_eq _ (show 32 < 64 by decide), hboth]

theorem store_eq (address : Doubleword) {bytes : Nat} (hbytes : 0 < bytes) (value : Doubleword) :
    store memory address bytes value = (memory.store address bytes value).mapError .violation := by
  unfold store UnitMemory.store
  rw [resolve_eq (stackTop_lt hallocated.stack_le), answer_mapError, pure_bind]
  cases hresolve : memory.map.resolve address bytes with
  | error cause => rfl
  | ok location =>
    rcases AddressMap.resolve_in_range hresolve hbytes with ⟨hlow, hhigh⟩
    rcases UnitMemory.writeWord_serves hallocated.wellFormed location (value.setWidth 32) hlow with
      ⟨middle, hwrite, hserves⟩
    dsimp only
    rw [writeWord_eq hallocated _ hlow, hwrite]
    by_cases hword : bytes ≤ wordBytes
    · simp only [bind, Except.bind, mapError_ok, if_pos hword]
      rfl
    · have hmiddle := allocated_of_serves hallocated hserves
      have hnext := hhigh (Nat.lt_of_not_le hword)
      have hregion := hnext
      rw [← hserves.map_eq] at hregion
      rcases UnitMemory.writeWord_serves hmiddle.wellFormed (UnitWords.next location)
        ((value >>> 32).setWidth 32) hregion with ⟨after, hwrite', -⟩
      have hchecked : writeWord middle (UnitWords.next location) ((value >>> 32).setWidth 32) =
          .ok ((), after) := by
        rw [writeWord_eq hmiddle _ hregion, hwrite']
        rfl
      unfold UnitWords.next at hwrite'
      simp only [bind, Except.bind, mapError_ok, if_neg hword, next_eq hallocated hnext, pure,
        Except.pure, hchecked, hwrite', shiftRight_eq _ (show 32 < 64 by decide)]

end Accesses

theorem loaded_eq (request : LoadRequest) (value : Doubleword) :
    loaded request value = pure (request.result value) := by
  unfold loaded LoadRequest.result
  cases request.signed with
  | false => rfl
  | true => exact signExtend_eq value 32

section Execution

variable {memory : UnitMemory} (hallocated : memory.Allocated)

include hallocated

theorem performLoads_eq (loads : List LoadRequest) (hbytes : ∀ request ∈ loads, 0 < request.bytes) :
    performLoads loads memory = (A64Machine.performLoads loads memory).mapError .violation := by
  -- Each load may refill lines, so the rest is made on a memory that is only known to be allocated.
  induction loads generalizing memory with
  | nil => rfl
  | cons request rest ih =>
    have hrequest := hbytes request List.mem_cons_self
    rcases UnitMemory.load_serves hallocated.wellFormed request.address hrequest with
      ⟨answer, middle, hload, -, hserves⟩
    have hmiddle := allocated_of_serves hallocated hserves
    have hrest := ih hmiddle fun later hlater => hbytes later (List.mem_cons_of_mem request hlater)
    unfold performLoads A64Machine.performLoads
    rw [load_eq hallocated request.address hrequest, hload]
    cases answer with
    | error cause => rfl
    | ok value =>
      simp only [bind, Except.bind, mapError_ok, loaded_eq, pure, Except.pure, hrest]
      rcases A64Machine.performLoads rest middle with violation | ⟨writes | cause, after⟩ <;> rfl

theorem probeStores_eq (stores : List PendingStore) :
    probeStores memory stores = (A64Machine.probeStores memory stores).mapError .fault := by
  induction stores with
  | nil => rfl
  | cons pending rest ih =>
    unfold probeStores A64Machine.probeStores UnitMemory.probe
    rw [resolve_eq (stackTop_lt hallocated.stack_le)]
    cases memory.map.resolve pending.address pending.bytes with
    | error cause => rfl
    | ok location => exact ih

theorem perform_eq (plan : Plan) (hbytes : ∀ request ∈ plan.loads, 0 < request.bytes) :
    perform plan memory = (plan.perform memory).mapError .violation := by
  rcases UnitMemory.performLoads_serves plan.loads hallocated.wellFormed hbytes with
    ⟨answered, after, hperform, -, hserves⟩
  have hafter := allocated_of_serves hallocated hserves
  unfold perform Plan.perform
  rw [performLoads_eq hallocated plan.loads hbytes, hperform]
  cases answered with
  | error cause => rfl
  | ok loaded =>
    simp only [bind, Except.bind, mapError_ok, probeStores_eq hafter]
    cases A64Machine.probeStores after plan.effects.stores <;> rfl

theorem execute_eq (instruction : Instruction) (regs : RegisterFile) :
    execute instruction regs memory =
      (A64Machine.execute instruction regs memory).mapError .violation := by
  unfold execute A64Machine.execute
  rw [plan_eq, answer_mapError, pure_bind]
  cases hplan : A64Machine.plan instruction regs with
  | error cause => rfl
  | ok made =>
    refine perform_eq hallocated made ?_
    intro request hrequest
    have hmem : request.access ∈ made.accesses :=
      List.mem_append_left _ (List.mem_map_of_mem hrequest)
    exact Plan.bytes_pos_of_mem_accesses hplan hmem

/-- Stores that a probe accepted are committed in checked arithmetic as they are committed. -/
theorem commitStores_eq (stores : List PendingStore) (hmapped : ∀ pending ∈ stores,
      0 < pending.bytes ∧ memory.map.fault? pending.address pending.bytes = none) :
    commitStores stores memory = (A64Machine.commitStores stores memory).mapError .violation := by
  induction stores generalizing memory with
  | nil => rfl
  | cons pending rest ih =>
    rcases hmapped pending List.mem_cons_self with ⟨hbytes, hprobe⟩
    rcases UnitMemory.store_serves hallocated.wellFormed hbytes pending.value hprobe with
      ⟨middle, hstore, hserves⟩
    have hmiddle := allocated_of_serves hallocated hserves
    have hrest := ih hmiddle fun later hlater => by
      rw [hserves.map_eq]
      exact hmapped later (List.mem_cons_of_mem pending hlater)
    unfold commitStores A64Machine.commitStores
    rw [store_eq hallocated pending.address hbytes, hstore]
    exact hrest

/-- A step ends in checked arithmetic as it ends. -/
theorem step_eq (regs : RegisterFile) :
    step regs memory = (A64Machine.step regs memory).mapError .violation := by
  rcases UnitMemory.fetch_serves hallocated.wellFormed regs.pc with
    ⟨fetched, middle, hfetch, hserves⟩
  have hmiddle := allocated_of_serves hallocated hserves
  unfold step A64Machine.step
  dsimp only
  rw [fetch_eq hallocated, hfetch]
  cases fetched with
  | error cause => rfl
  | ok word =>
    simp only [bind, Except.bind, mapError_ok]
    cases decode word with
    | error fault => rfl
    | ok instruction =>
      rcases UnitMemory.execute_serves instruction regs hmiddle.wellFormed with
        ⟨answered, after, hexecute, -, hmapped, hserves'⟩
      have hafter := allocated_of_serves hmiddle hserves'
      dsimp only
      rw [execute_eq hmiddle, hexecute]
      cases answered with
      | error cause => rfl
      | ok effects =>
        have hcommit := commitStores_eq hafter effects.stores fun pending hpending => by
          rw [hserves'.map_eq]
          exact hmapped effects rfl pending hpending
        simp only [mapError_ok, commit, A64Machine.commit, hcommit]
        cases A64Machine.commitStores effects.stores after <;> rfl

end Execution

end Checked

namespace UnitMemory

/-- A unit whose caches were accepted is allocated after any calls, when RAM and stack were. -/
theorem Reachable.allocated {memory : UnitMemory} (hmemory : memory.Reachable)
    (hstack : memory.stack.size ≤ Ram.maxWords) (hram : memory.hierarchy.size ≤ Ram.maxWords) :
    memory.Allocated :=
  ⟨hmemory.coherent.1, hstack, hram⟩

/-- Nothing stops an allocated unit.  An instruction, whatever its word, class and mnemonic are, is
executed with effects or with a fault, the effects can be committed to the memory that the execution
leaves, and a step retires or faults; in checked arithmetic all three end as they end without it.
Decoding only compares the bits of a word, so no operation of it could lack an answer. -/
theorem Allocated.never_stops {memory : UnitMemory} (hallocated : memory.Allocated)
    (regs : RegisterFile) :
    (∀ instruction : Instruction, ∃ answer after,
      Checked.execute instruction regs memory = .ok (answer, after) ∧
        execute instruction regs memory = .ok (answer, after) ∧
        ∀ effects, answer = .ok effects → ∃ final,
          Checked.commit effects regs after = .ok (effects.applyTo regs, final) ∧
            commit effects regs after = .ok (effects.applyTo regs, final)) ∧
      ∃ outcome regs' final, Checked.step regs memory = .ok (outcome, regs', final) ∧
        step regs memory = .ok (outcome, regs', final) := by
  constructor
  · intro instruction
    rcases execute_serves instruction regs hallocated.wellFormed with
      ⟨answer, after, hexecute, -, hmapped, hserves⟩
    have hafter := Checked.allocated_of_serves hallocated hserves
    refine ⟨answer, after, ?_, hexecute, ?_⟩
    · rw [Checked.execute_eq hallocated, hexecute]
      rfl
    intro effects heffects
    have hprobed : ∀ pending ∈ effects.stores,
        0 < pending.bytes ∧ after.map.fault? pending.address pending.bytes = none := by
      rw [hserves.map_eq]
      exact hmapped effects heffects
    rcases commitStores_serves effects.stores hafter.wellFormed hprobed with ⟨final, hcommit, -⟩
    have hchecked := Checked.commitStores_eq hafter effects.stores hprobed
    rw [hcommit] at hchecked
    refine ⟨final, ?_, ?_⟩
    · rw [Checked.commit, hchecked]
      rfl
    · rw [commit, hcommit]
      rfl
  · rcases step_serves regs hallocated.wellFormed with ⟨outcome, regs', final, hstep, -⟩
    refine ⟨outcome, regs', final, ?_, hstep⟩
    rw [Checked.step_eq hallocated, hstep]
    rfl

/-- STP X0, X1, [SP, #-16]! on a stack of eight words leaves two stores to commit. -/
theorem Allocated.never_stops_push :
    ∃ memory : UnitMemory, memory.Allocated ∧ ∃ regs effects after,
      Checked.execute ⟨0xA9BF07E0, .loadStore, .loadStorePairPreIndexed, .stpX⟩ regs memory =
        .ok (.ok effects, after) ∧
      effects.stores = [⟨0x7FFF00000010, 8, 5⟩, ⟨0x7FFF00000018, 8, 6⟩] ∧
      (∃ final, Checked.commit effects regs after = .ok (effects.applyTo regs, final)) ∧
      ∃ outcome regs' final, Checked.step regs memory = .ok (outcome, regs', final) := by
  let store : Ram := { name := "RAM", words := (Array.replicate 64 0).set! 0 0xA9BF07E0 }
  let regs : RegisterFile :=
    { x := (Vector.replicate 31 0).set 0 5 |>.set 1 6, sps := Vector.replicate 4 0x7FFF00000020 }
  let instruction : Instruction := ⟨0xA9BF07E0, .loadStore, .loadStorePairPreIndexed, .stpX⟩
  have hbuild : (Memory.ram store).withCache "L1" {} 64 =
      .ok (.cache { name := "L1", capacity := 64, lines := Vector.replicate 1 {} } (.ram store)) :=
    rfl
  let memory : UnitMemory :=
    { hierarchy := .cache { name := "L1", capacity := 64, lines := Vector.replicate 1 {} }
        (.ram store)
      stack := .zeroed "STACK" 8 }
  have hmemory : memory.Reachable := .start (.cache (.ram store) hbuild) _ _
  have hallocated : memory.Allocated := hmemory.allocated (by decide) (by decide)
  rcases hmemory.coherent with ⟨hformed, hcoherent⟩
  rcases Allocated.never_stops hallocated regs with ⟨hexecutes, outcome, regs', final, hstep, -⟩
  rcases hexecutes instruction with ⟨answer, after, hchecked, hexecute, hcommits⟩
  rcases execute_serves instruction regs hformed with ⟨answer', after', hexecute', -, -, hserves⟩
  obtain ⟨rfl, rfl⟩ := Prod.mk.inj (Except.ok.inj (hexecute'.symm.trans hexecute))
  have hflat : (memory.words.execute instruction regs).toOption.map Effects.stores =
      some [⟨0x7FFF00000010, 8, 5⟩, ⟨0x7FFF00000018, 8, 6⟩] := by
    decide +kernel
  rw [← hserves.value_eq hcoherent] at hflat
  cases answer' with
  | error cause => contradiction
  | ok effects =>
    rcases hcommits effects rfl with ⟨committed, hcommit, -⟩
    exact ⟨memory, hallocated, regs, effects, after', hchecked, Option.some.inj hflat,
      ⟨committed, hcommit⟩, outcome, regs', final, hstep⟩

end UnitMemory

end A64Machine
