import A64Machine.Proofs.Execution.Transfers

/-!
Instructions that access the stack alone.  No cache takes part in what they do, so that the flat view
says how they end whatever state the caches are in.
-/

namespace A64Machine

namespace UnitMemory

/-- What it amounts to that memory becomes `after` through accesses of the stack alone, with the flat
view `words`. -/
structure OnStack (memory after : UnitMemory) (words : UnitWords) : Prop where
  hierarchy_eq : after.hierarchy = memory.hierarchy
  words_eq : after.words = words

section Words

variable {memory middle after : UnitMemory} {words : UnitWords}

theorem OnStack.refl (memory : UnitMemory) : memory.OnStack memory memory.words := ⟨rfl, rfl⟩

theorem OnStack.trans {other : UnitWords} (hfirst : memory.OnStack middle other)
    (hsecond : middle.OnStack after words) : memory.OnStack after words :=
  ⟨hsecond.hierarchy_eq.trans hfirst.hierarchy_eq, hsecond.words_eq⟩

theorem OnStack.map_eq (hstack : memory.OnStack after words) : after.map = words.map := by
  rw [← map_words, hstack.words_eq]

/-- Reading a word of the stack answers the word of the flat view. -/
theorem readWord_of_stack (location : Location) (hregion : location.region = .stack)
    (hin : location.word < memory.map.regionWords location.region) :
    ∃ after, memory.readWord location = .ok (memory.words.wordAt location, after) ∧
      memory.OnStack after memory.words := by
  obtain ⟨region, word⟩ := location
  obtain rfl : region = .stack := hregion
  have hrange : word + 1 ≤ memory.stack.size := hin
  refine ⟨{ memory with
    stack := memory.stack.record .read
    events := memory.events.appendList [memory.stack.accessed .read word] }, ?_, rfl, rfl⟩
  simp only [readWord, onStack, Ram.read, checkRange_eq_ok hrange, UnitWords.wordAt, words,
    Array.getD_eq_getD_getElem?]
  rfl

/-- Writing a word of the stack writes it into the flat view. -/
theorem writeWord_of_stack (location : Location) (hregion : location.region = .stack)
    (value : Word) (hin : location.word < memory.map.regionWords location.region) :
    ∃ after, memory.writeWord location value = .ok ((), after) ∧
      memory.OnStack after (memory.words.setWord location value) := by
  obtain ⟨region, word⟩ := location
  obtain rfl : region = .stack := hregion
  have hrange : word + 1 ≤ memory.stack.size := hin
  refine ⟨{ memory with
    stack := (memory.stack.withWords word [value]).record .write
    events := memory.events.appendList [memory.stack.accessed .write word] }, ?_, rfl, rfl⟩
  simp only [writeWord, onStack, Ram.write, checkRange_eq_ok hrange]
  rfl

theorem region_of_inWindow {map : AddressMap} {address : Doubleword} {bytes : Nat}
    {location : Location} (hwindow : map.InWindow address)
    (hresolve : map.resolve address bytes = .ok location) : location.region = .stack := by
  obtain ⟨-, -, rfl⟩ := AddressMap.resolve_eq_ok_iff.1 hresolve
  rw [AddressMap.locate_of_inWindow hwindow]

/-- A load from the stack answers as the flat view does. -/
theorem load_of_stack {address : Doubleword} {bytes : Nat} (hbytes : 0 < bytes)
    (hwindow : memory.map.InWindow address)
    (hmapped : memory.map.fault? address bytes = none) :
    ∃ after, memory.load address bytes = .ok (memory.words.load address bytes, after) ∧
      memory.OnStack after memory.words := by
  obtain ⟨location, hresolve⟩ := AddressMap.fault?_eq_none_iff.1 hmapped
  obtain ⟨hlow, hhigh⟩ := AddressMap.resolve_in_range hresolve hbytes
  have hregion := region_of_inWindow hwindow hresolve
  unfold load UnitWords.load
  rw [map_words, hresolve]
  dsimp only
  obtain ⟨middle, hread, hmiddle⟩ := readWord_of_stack location hregion hlow
  by_cases hword : bytes ≤ wordBytes
  · refine ⟨middle, ?_, hmiddle⟩
    simp only [hread, bind, Except.bind, hword, if_true]
    rfl
  · have hnext : (UnitWords.next location).word <
        middle.map.regionWords (UnitWords.next location).region := by
      rw [hmiddle.map_eq, map_words]
      exact hhigh (Nat.lt_of_not_le hword)
    obtain ⟨after, hread', hafter⟩ :=
      readWord_of_stack (UnitWords.next location) hregion hnext
    rw [hmiddle.words_eq] at hread' hafter
    refine ⟨after, ?_, hmiddle.trans hafter⟩
    generalize memory.words.wordAt location = low at hread ⊢
    generalize memory.words.wordAt (UnitWords.next location) = high at hread' ⊢
    simp only [UnitWords.next] at hread'
    simp only [hread, bind, Except.bind, hword, if_false, hread']
    rfl

/-- A store to the stack writes into the flat view. -/
theorem store_of_stack {address : Doubleword} {bytes : Nat} (hbytes : 0 < bytes)
    (value : Doubleword) (hwindow : memory.map.InWindow address)
    (hmapped : memory.map.fault? address bytes = none) :
    ∃ after, memory.store address bytes value = .ok after ∧
      memory.OnStack after (memory.words.store address bytes value) := by
  obtain ⟨location, hresolve⟩ := AddressMap.fault?_eq_none_iff.1 hmapped
  obtain ⟨hlow, hhigh⟩ := AddressMap.resolve_in_range hresolve hbytes
  have hregion := region_of_inWindow hwindow hresolve
  unfold store UnitWords.store
  rw [map_words, hresolve]
  obtain ⟨middle, hwrite, hmiddle⟩ := writeWord_of_stack location hregion (value.setWidth 32) hlow
  by_cases hword : bytes ≤ wordBytes
  · refine ⟨middle, ?_, ?_⟩
    · simp only [hwrite, bind, Except.bind, hword, if_true]
      rfl
    · simp only [hword, if_true]
      exact hmiddle
  · have hnext : (UnitWords.next location).word <
        middle.map.regionWords (UnitWords.next location).region := by
      rw [hmiddle.map_eq, UnitWords.map_setWord, map_words]
      exact hhigh (Nat.lt_of_not_le hword)
    obtain ⟨after, hwrite', hafter⟩ :=
      writeWord_of_stack (UnitWords.next location) hregion
        ((value >>> 32).setWidth 32) hnext
    rw [hmiddle.words_eq] at hafter
    refine ⟨after, ?_, ?_⟩
    · simp only [UnitWords.next] at hwrite'
      simp only [hwrite, bind, Except.bind, hword, if_false, hwrite']
      rfl
    · simp only [hword, if_false]
      exact hmiddle.trans hafter

end Words

/-- Whether an access is mapped and lies in the stack window. -/
structure InStack (map : AddressMap) (access : Access) : Prop where
  bytes_pos : 0 < access.bytes
  inWindow : map.InWindow access.address
  mapped : map.fault? access.address access.bytes = none

section Effects

variable {memory : UnitMemory}

theorem load_of_mapped {words : UnitWords} {address : Doubleword} {bytes : Nat}
    (hmapped : words.map.fault? address bytes = none) :
    ∃ value, words.load address bytes = .ok value := by
  obtain ⟨location, hresolve⟩ := AddressMap.fault?_eq_none_iff.1 hmapped
  rw [UnitWords.load, hresolve]
  simp only
  split
  · exact ⟨_, rfl⟩
  · exact ⟨_, rfl⟩

/-- Loads from the stack all answer. -/
theorem performLoads_of_stack (loads : List LoadRequest)
    (hstack : ∀ request ∈ loads, InStack memory.map request.access) :
    ∃ after, performLoads loads memory = .ok (.ok (loads.map memory.words.loadedWrite), after) ∧
      memory.OnStack after memory.words := by
  induction loads generalizing memory with
  | nil => exact ⟨memory, rfl, .refl memory⟩
  | cons request rest ih =>
    obtain ⟨hfirst, hrest⟩ := List.forall_mem_cons.1 hstack
    obtain ⟨middle, hload, hmiddle⟩ := load_of_stack hfirst.bytes_pos hfirst.inWindow hfirst.mapped
    have hmap : middle.map = memory.map := by rw [hmiddle.map_eq, map_words]
    obtain ⟨after, hloads, hafter⟩ := ih fun later hlater => by
      rw [hmap]
      exact hrest later hlater
    rw [hmiddle.words_eq] at hloads hafter
    have hmapped : memory.words.map.fault? request.address request.bytes = none := by
      rw [map_words]
      exact hfirst.mapped
    obtain ⟨value, hvalue⟩ := load_of_mapped hmapped
    simp only [LoadRequest.access] at hload
    refine ⟨after, ?_, hmiddle.trans hafter⟩
    have hwrite : memory.words.loadedWrite request = .data request.reg (request.result value) := by
      rw [UnitWords.loadedWrite, hvalue]
      rfl
    rw [hvalue] at hload
    rw [List.map_cons, hwrite]
    simp only [performLoads, hload, bind, Except.bind, hloads]
    rfl

/-- Stores to the stack are all made. -/
theorem commitStores_of_stack (stores : List PendingStore)
    (hstack : ∀ pending ∈ stores, InStack memory.map pending.access) :
    ∃ after, commitStores stores memory = .ok after ∧
      memory.OnStack after (memory.words.commitStores stores) := by
  induction stores generalizing memory with
  | nil => exact ⟨memory, rfl, .refl memory⟩
  | cons pending rest ih =>
    obtain ⟨hfirst, hrest⟩ := List.forall_mem_cons.1 hstack
    obtain ⟨middle, hstore, hmiddle⟩ :=
      store_of_stack hfirst.bytes_pos pending.value hfirst.inWindow hfirst.mapped
    have hmap : middle.map = memory.map := by
      rw [hmiddle.map_eq, UnitWords.map_store pending.access, map_words]
    obtain ⟨after, hcommit, hafter⟩ := ih fun later hlater => by
      rw [hmap]
      exact hrest later hlater
    rw [hmiddle.words_eq] at hafter
    refine ⟨after, ?_, hmiddle.trans hafter⟩
    rw [commitStores]
    exact (congrArg (· >>= commitStores rest) hstore).trans hcommit

end Effects

end UnitMemory

/-- A word whose instruction accesses the stack alone ends without a fault, and with the effects that
it has on the flat view. -/
theorem executeWord_of_stack {word : Word} {instruction : Instruction} {regs : RegisterFile}
    {memory : UnitMemory} {made : Plan} (hdecode : decode word = .ok instruction)
    (hplan : plan instruction regs = .ok made)
    (hstack : ∀ access ∈ made.accesses, UnitMemory.InStack memory.map access) :
    ∃ after, executeWord word regs memory = .ok (.ok (Effects.applyTo { made.effects with
        writes := made.loads.map memory.words.loadedWrite ++ made.effects.writes } regs), after) ∧
      memory.OnStack after (memory.words.commitStores made.effects.stores) := by
  have hloads : ∀ request ∈ made.loads, UnitMemory.InStack memory.map request.access :=
    fun request hrequest =>
      hstack _ (List.mem_append_left _ (List.mem_map_of_mem hrequest))
  have hstores : ∀ pending ∈ made.effects.stores, UnitMemory.InStack memory.map pending.access :=
    fun pending hpending =>
      hstack _ (List.mem_append_right _ (List.mem_map_of_mem hpending))
  obtain ⟨middle, hloaded, hmiddle⟩ := UnitMemory.performLoads_of_stack made.loads hloads
  have hmap : middle.map = memory.map := by rw [hmiddle.map_eq, UnitMemory.map_words]
  have hprobe : probeStores middle made.effects.stores = .ok () := by
    have hnone : memory.map.firstFault? (made.effects.stores.map PendingStore.access) = none := by
      apply List.findSome?_eq_none_iff.2
      intro access haccess
      obtain ⟨pending, hpending, rfl⟩ := List.mem_map.1 haccess
      exact (hstores pending hpending).mapped
    rw [UnitMemory.probeStores_eq, hmap, hnone]
  obtain ⟨after, hcommit, hafter⟩ :=
    UnitMemory.commitStores_of_stack made.effects.stores fun pending hpending => by
      rw [hmap]
      exact hstores pending hpending
  rw [hmiddle.words_eq] at hafter
  refine ⟨after, ?_, hmiddle.trans hafter⟩
  simp only [executeWord, hdecode, execute, hplan, Plan.perform, bind, Except.bind, hloaded, hprobe,
    commit, pure, Except.pure, hcommit]

end A64Machine
