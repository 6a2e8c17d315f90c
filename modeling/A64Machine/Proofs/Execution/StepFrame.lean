import A64Machine.Proofs.Execution.Destinations
import A64Machine.Proofs.Execution.Reachable
import A64Machine.Proofs.Execution.StepFaults

/-!
The frame of an instruction: what a step that retires leaves alone, in the registers, in the stack
and in RAM.
-/

namespace A64Machine

namespace RegisterFile

/-- What register writes to the given data and address registers leave alone. -/
structure Keeps (regs after : RegisterFile) (destinations : RegisterTarget → List Nat) : Prop where
  el_eq : after.el = regs.el
  pc_eq : after.pc = regs.pc
  nzcv_eq : after.nzcv = regs.nzcv
  spOf_eq : ∀ el, el ≠ regs.el → after.spOf el = regs.spOf el
  sp_eq : (∀ n ∈ destinations .address, n < zeroOrSp) → after.sp = regs.sp
  gpr_eq : ∀ n, (∀ target, n ∉ destinations target) → after.gpr n = regs.gpr n

variable {regs middle after : RegisterFile} {destinations : RegisterTarget → List Nat}

theorem Keeps.refl (regs : RegisterFile) : regs.Keeps regs destinations :=
  ⟨rfl, rfl, rfl, fun _ _ => rfl, fun _ => rfl, fun _ _ => rfl⟩

theorem Keeps.trans (hfirst : regs.Keeps middle destinations)
    (hsecond : middle.Keeps after destinations) : regs.Keeps after destinations where
  el_eq := hsecond.el_eq.trans hfirst.el_eq
  pc_eq := hsecond.pc_eq.trans hfirst.pc_eq
  nzcv_eq := hsecond.nzcv_eq.trans hfirst.nzcv_eq
  spOf_eq el hel := by
    rw [hsecond.spOf_eq el (by rwa [hfirst.el_eq]), hfirst.spOf_eq el hel]
  sp_eq hbelow := (hsecond.sp_eq hbelow).trans (hfirst.sp_eq hbelow)
  gpr_eq n hn := (hsecond.gpr_eq n hn).trans (hfirst.gpr_eq n hn)

theorem setGpr_keeps {n : Nat} (value : Doubleword) {target : RegisterTarget}
    (hn : n ∈ destinations target) : regs.Keeps (regs.setGpr n value) destinations where
  el_eq := rfl
  pc_eq := rfl
  nzcv_eq := rfl
  spOf_eq _ _ := rfl
  sp_eq _ := rfl
  gpr_eq m hm := by
    rw [gpr_setGpr, if_neg]
    rintro ⟨rfl, -⟩
    exact hm target hn

theorem setSp_keeps {n : Nat} (value : Doubleword) (hn : n ∈ destinations .address)
    (hsp : zeroOrSp ≤ n) : regs.Keeps (regs.setSp value) destinations where
  el_eq := rfl
  pc_eq := rfl
  nzcv_eq := rfl
  spOf_eq el hel := by
    have hindex : ∀ el el' : ExceptionLevel, el.index = el'.index → el = el' := by
      intro el el'
      cases el <;> cases el' <;> decide
    have hother : (regs.el.index : Nat) ≠ el.index := by
      intro hsame
      exact hel (hindex _ _ (Fin.ext hsame)).symm
    simp only [spOf, setSp, Fin.getElem_fin, Vector.getElem_set, if_neg hother]
  sp_eq hbelow := absurd (hbelow n hn) (Nat.not_lt.2 hsp)
  gpr_eq _ _ := rfl

theorem apply_keeps {write : RegisterWrite} (hwrite : write.reg ∈ destinations write.target) :
    regs.Keeps (regs.apply write) destinations := by
  rcases write with ⟨n, value, target⟩
  cases target with
  | data => exact setGpr_keeps value hwrite
  | address =>
    simp only [apply, setGprOrSp]
    split
    · exact setGpr_keeps value hwrite
    next hsp => exact setSp_keeps value hwrite (Nat.le_of_not_lt hsp)

/-- Register writes one after the other. -/
theorem foldl_apply_keeps (writes : List RegisterWrite)
    (hwrites : ∀ write ∈ writes, write.reg ∈ destinations write.target) :
    regs.Keeps (writes.foldl apply regs) destinations := by
  induction writes generalizing regs with
  | nil => exact .refl regs
  | cons write rest ih =>
    have hfirst : regs.Keeps (regs.apply write) destinations :=
      apply_keeps (hwrites write List.mem_cons_self)
    exact hfirst.trans (ih fun later hlater => hwrites later (List.mem_cons_of_mem write hlater))

/-- Writes to data register 31 alone change nothing. -/
theorem Keeps.eq_self (hkeeps : regs.Keeps after destinations)
    (hdata : ∀ n ∈ destinations .data, n = zeroOrSp) (haddress : destinations .address = []) :
    after = regs := by
  have hgpr : ∀ n < generalRegisterCount, after.gpr n = regs.gpr n := by
    intro n hn
    apply hkeeps.gpr_eq
    intro target hmem
    cases target with
    | data =>
      rw [hdata n hmem] at hn
      contradiction
    | address =>
      rw [haddress] at hmem
      contradiction
  have hsp : ∀ el, after.spOf el = regs.spOf el := by
    intro el
    by_cases hel : el = regs.el
    · have hcurrent : after.sp = regs.sp := by
        apply hkeeps.sp_eq
        rw [haddress]
        exact List.forall_mem_nil _
      rw [sp, sp, hkeeps.el_eq] at hcurrent
      rwa [hel]
    · exact hkeeps.spOf_eq el hel
  apply RegisterFile.ext
  · apply Vector.ext
    intro n hn
    simpa only [gpr, dif_pos hn] using hgpr n hn
  · exact hkeeps.pc_eq
  · apply Vector.ext
    intro n hn
    have hlevel : ∀ i : Fin 4, ∃ el ∈ ExceptionLevel.all, el.index = i := by decide
    rcases hlevel ⟨n, hn⟩ with ⟨el, -, hel⟩
    simpa only [spOf, Fin.getElem_fin, hel] using hsp el
  · exact hkeeps.el_eq
  · exact hkeeps.nzcv_eq

end RegisterFile

theorem Effects.applyTo_eq (effects : Effects) (regs : RegisterFile) :
    effects.applyTo regs =
      { effects.writes.foldl RegisterFile.apply regs with
        pc := effects.nextPc
        nzcv := effects.flags.getD (effects.writes.foldl RegisterFile.apply regs).nzcv } := by
  unfold applyTo
  cases effects.flags <;> rfl

/-- Whether a location is one of the words that an access reaches. -/
def Access.Covers (access : Access) (map : AddressMap) (location : Location) : Prop :=
  ∃ first, map.resolve access.address access.bytes = .ok first ∧
    location.region = first.region ∧ first.word ≤ location.word ∧
    location.word * wordBytes < first.word * wordBytes + access.bytes

namespace UnitWords

variable {words : UnitWords}

theorem map_setWord (location : Location) (value : Word) :
    (words.setWord location value).map = words.map := by
  rcases location with ⟨region, word⟩
  cases region <;> simp only [setWord, map, size_splice]

theorem wordAt_setWord {location other : Location} (value : Word) (hother : other ≠ location) :
    (words.setWord location value).wordAt other = words.wordAt other := by
  rcases location with ⟨region, word⟩
  rcases other with ⟨otherRegion, otherWord⟩
  have hplace (hregion : otherRegion = region) :
      otherWord < word ∨ word + [value].length ≤ otherWord := by
    have hne : otherWord ≠ word := by
      rintro rfl
      exact hother (congrArg (Location.mk · otherWord) hregion)
    rw [List.length_singleton]
    omega
  cases region <;> cases otherRegion <;> simp only [setWord, wordAt]
  all_goals rw [getElem?_splice_of_disjoint (hplace rfl)]

theorem map_store (access : Access) (value : Doubleword) :
    (words.store access.address access.bytes value).map = words.map := by
  unfold store
  split
  · rfl
  split
  · exact map_setWord _ _
  · rw [map_setWord, map_setWord]

/-- A store changes the words that it covers and no other. -/
theorem wordAt_store {access : Access} {location : Location} (hbytes : 0 < access.bytes)
    (value : Doubleword) (hout : ¬access.Covers words.map location) :
    (words.store access.address access.bytes value).wordAt location = words.wordAt location := by
  unfold store
  split
  · rfl
  next first hresolve =>
    have hlow : location ≠ first := by
      rintro rfl
      exact hout ⟨_, hresolve, rfl, Nat.le_refl _, by omega⟩
    split
    · exact wordAt_setWord _ hlow
    next hwide =>
      have hhigh : location ≠ next first := by
        rintro rfl
        refine hout ⟨_, hresolve, rfl, Nat.le_succ _, ?_⟩
        simp only [next, wordBytes] at hwide ⊢
        omega
      rw [wordAt_setWord _ hhigh, wordAt_setWord _ hlow]

/-- Stores change the words that they cover and no other. -/
theorem commitStores_frame (stores : List PendingStore)
    (hbytes : ∀ pending ∈ stores, 0 < pending.access.bytes) :
    (words.commitStores stores).map = words.map ∧
      ∀ location, (∀ pending ∈ stores, ¬pending.access.Covers words.map location) →
        (words.commitStores stores).wordAt location = words.wordAt location := by
  induction stores generalizing words with
  | nil => exact ⟨rfl, fun _ _ => rfl⟩
  | cons pending rest ih =>
    have hmap : (words.store pending.address pending.bytes pending.value).map = words.map :=
      map_store pending.access pending.value
    have hlater : ∀ later ∈ rest, 0 < later.access.bytes :=
      fun later hlater => hbytes later (List.mem_cons_of_mem pending hlater)
    rcases @ih (words.store pending.address pending.bytes pending.value) hlater with
      ⟨hsize, hrest⟩
    rw [hmap] at hsize hrest
    refine ⟨hsize, ?_⟩
    intro location hout
    have hfirst := wordAt_store (hbytes pending List.mem_cons_self) pending.value
      (hout pending List.mem_cons_self)
    have hlast := hrest location fun later hlater =>
      hout later (List.mem_cons_of_mem pending hlater)
    exact hlast.trans hfirst

/-- What loads bring in is written to their registers as data. -/
theorem performLoads_writes {loads : List LoadRequest} {loaded : List RegisterWrite}
    (hloads : words.performLoads loads = .ok loaded) {write : RegisterWrite}
    (hwrite : write ∈ loaded) :
    write.target = .data ∧ ∃ request ∈ loads, write.reg = request.reg := by
  induction loads generalizing loaded with
  | nil =>
    obtain rfl := Except.ok.inj hloads
    contradiction
  | cons request rest ih =>
    rcases bind_eq_ok hloads with ⟨value, -, hrest⟩
    cases hlater : words.performLoads rest with
    | error cause =>
      rw [hlater] at hrest
      contradiction
    | ok later =>
      rw [hlater] at hrest
      obtain rfl := Except.ok.inj hrest
      rcases List.mem_cons.1 hwrite with rfl | hmem
      · exact ⟨rfl, request, List.mem_cons_self, rfl⟩
      · rcases ih hlater hmem with ⟨htarget, found, hfound, hreg⟩
        exact ⟨htarget, found, List.mem_cons_of_mem request hfound, hreg⟩

end UnitWords

/-- The frame of an instruction that was executed: what the registers and the words after it have in
common with those before. -/
structure Instruction.Frame (instruction : Instruction) (regs regs' : RegisterFile)
    (words words' : UnitWords) : Prop where
  el_eq : regs'.el = regs.el
  spOf_eq : ∀ el, el ≠ regs.el → regs'.spOf el = regs.spOf el
  gpr : ∀ n, regs'.gpr n ≠ regs.gpr n → n ≠ zeroOrSp ∧
    (n ∈ instruction.dataDestinations ∨ n ∈ instruction.addressDestinations)
  sp : regs'.sp ≠ regs.sp → zeroOrSp ∈ instruction.addressDestinations
  nzcv : regs'.nzcv ≠ regs.nzcv → instruction.mnemonic.setsFlags
  pc : regs'.pc ≠ regs.pc + 4 → instruction.cls.isBranch
  map_eq : words'.map = words.map
  store : words' ≠ words → instruction.mnemonic.isStore
  wordAt : ∀ location, words'.wordAt location ≠ words.wordAt location →
    ∃ access ∈ instruction.accesses regs, access.Covers words.map location
  /-- Register 31 as the only destination, meant as data, is no destination. -/
  discarded : (∀ n ∈ instruction.dataDestinations, n = zeroOrSp) →
    instruction.addressDestinations = [] →
    regs' = { regs with pc := regs'.pc, nzcv := regs'.nzcv }

/-- The frame of an instruction whose effects keep to what can be read off it. -/
theorem Instruction.frame_of_effects {instruction : Instruction} {regs : RegisterFile}
    {effects : Effects} {words words' : UnitWords}
    (hwrites : ∀ write ∈ effects.writes, write.reg ∈ instruction.destinations write.target)
    (hflags : effects.flags ≠ none → instruction.mnemonic.setsFlags)
    (hnext : instruction.cls.isBranch = false → effects.nextPc = fallThrough regs)
    (hmap : words'.map = words.map) (hstore : words' ≠ words → instruction.mnemonic.isStore)
    (hwordAt : ∀ location, words'.wordAt location ≠ words.wordAt location →
      ∃ access ∈ instruction.accesses regs, access.Covers words.map location) :
    instruction.Frame regs (effects.applyTo regs) words words' := by
  have hkeeps :
      regs.Keeps (effects.writes.foldl RegisterFile.apply regs) instruction.destinations :=
    RegisterFile.foldl_apply_keeps effects.writes hwrites
  rw [effects.applyTo_eq]
  refine ⟨hkeeps.el_eq, hkeeps.spOf_eq, ?gpr, ?sp, ?nzcv, ?pc, hmap, hstore, hwordAt, ?discarded⟩
  case gpr =>
    intro n hchanged
    refine ⟨?_, ?_⟩
    · rintro rfl
      exact hchanged rfl
    · apply Classical.byContradiction
      intro hnone
      rw [not_or] at hnone
      refine hchanged (hkeeps.gpr_eq n ?_)
      intro target
      cases target with
      | data => exact hnone.1
      | address => exact hnone.2
  case sp =>
    intro hchanged
    apply Classical.byContradiction
    intro hnone
    refine hchanged (hkeeps.sp_eq ?_)
    intro n hn
    apply Nat.lt_of_le_of_ne (le_of_mem_addressDestinations hn)
    rintro rfl
    exact hnone hn
  case nzcv =>
    intro hchanged
    apply hflags
    intro hnone
    refine hchanged ?_
    rw [hnone]
    exact hkeeps.nzcv_eq
  case pc =>
    intro hchanged
    cases hbranch : instruction.cls.isBranch with
    | true => rfl
    | false => exact absurd (hnext hbranch) hchanged
  case discarded =>
    intro hdata haddress
    rw [hkeeps.eq_self hdata haddress]

/-- The frame of a word that decodes and is executed on the flat view. -/
theorem UnitWords.execute_frame {words : UnitWords} {regs : RegisterFile} {start : Word}
    {instruction : Instruction} (hdecode : decode start = .ok instruction) {effects : Effects}
    (hexecute : words.execute instruction regs = .ok effects) :
    instruction.Frame regs (effects.applyTo regs) words (words.commitStores effects.stores) := by
  rcases bind_eq_ok hexecute with ⟨made, hplan, hperform⟩
  rcases bind_eq_ok hperform with ⟨loaded, hloaded, hchecked⟩
  have hkeeps := plan_keepsTo hplan
  unfold Plan.checked at hchecked
  split at hchecked
  · contradiction
  obtain rfl := Except.ok.inj hchecked
  have hstores : ∀ pending ∈ made.effects.stores, pending.access ∈ instruction.accesses regs := by
    intro pending hpending
    rw [← Plan.accesses_of_decode hdecode hplan]
    exact List.mem_append_right _ (List.mem_map_of_mem hpending)
  have hbytes : ∀ pending ∈ made.effects.stores, 0 < pending.access.bytes := by
    intro pending hpending
    apply Plan.bytes_pos_of_mem_accesses hplan
    exact List.mem_append_right _ (List.mem_map_of_mem hpending)
  rcases words.commitStores_frame made.effects.stores hbytes with ⟨hmap, hout⟩
  refine instruction.frame_of_effects ?_ hkeeps.flags hkeeps.nextPc hmap ?_ ?_
  · intro write hwrite
    rcases List.mem_append.1 hwrite with hload | hown
    · rcases performLoads_writes hloaded hload with ⟨htarget, request, hrequest, hreg⟩
      rw [htarget, hreg]
      exact hkeeps.loads request hrequest
    · exact hkeeps.writes write hown
  · intro hchanged
    apply hkeeps.stores
    intro hnone
    refine hchanged ?_
    rw [hnone]
    rfl
  · intro location hchanged
    apply Classical.byContradiction
    intro hnone
    refine hchanged (hout location ?_)
    intro pending hpending hcovers
    exact hnone ⟨pending.access, hstores pending hpending, hcovers⟩

/-- The frame of a step of the flat view that retires. -/
theorem UnitWords.frame_of_retired {words words' : UnitWords} {regs regs' : RegisterFile}
    {pc : Doubleword} {word : Word} {group : InstructionGroup} {mnemonic : Mnemonic}
    (hstep : words.step regs = ((.retired pc word group mnemonic, regs'), words')) :
    words.fetch regs.pc = .ok word ∧ ∃ instruction, decode word = .ok instruction ∧
      instruction.group = group ∧ instruction.mnemonic = mnemonic ∧
      instruction.Frame regs regs' words words' := by
  unfold step at hstep
  cases hfetch : words.fetch regs.pc with
  | error cause =>
    rw [hfetch, stepFrom] at hstep
    cases hstep
  | ok fetched =>
    rw [hfetch, stepFrom] at hstep
    cases hdecode : decode fetched with
    | error fault =>
      simp only [hdecode] at hstep
      cases hstep
    | ok instruction =>
      simp only [hdecode] at hstep
      cases hexecute : words.execute instruction regs with
      | error cause =>
        rw [hexecute, conclude] at hstep
        cases hstep
      | ok effects =>
        rw [hexecute, conclude] at hstep
        obtain ⟨hends, rfl⟩ := Prod.mk.inj hstep
        obtain ⟨houtcome, rfl⟩ := Prod.mk.inj hends
        obtain ⟨-, hword, hgroup, hmnemonic⟩ := StepOutcome.retired.inj houtcome
        rw [(decode_eq_ok hdecode).1] at hword
        subst hword
        exact ⟨rfl, instruction, hdecode, hgroup, hmnemonic, execute_frame hdecode hexecute⟩

/-- A step that retires leaves alone whatever its instruction does not name: the exception level and
the stack pointers of the other levels, every register that is no destination, the flags unless it
sets them, the next instruction in sequence unless it branches, and every word of the stack and of
RAM that no store of it covers. -/
theorem UnitMemory.step_frame {memory after : UnitMemory} (hmemory : memory.Reachable)
    {regs regs' : RegisterFile} {pc : Doubleword} {word : Word} {group : InstructionGroup}
    {mnemonic : Mnemonic}
    (hstep : step regs memory = .ok (.retired pc word group mnemonic, regs', after)) :
    memory.words.fetch regs.pc = .ok word ∧ ∃ instruction, decode word = .ok instruction ∧
      instruction.group = group ∧ instruction.mnemonic = mnemonic ∧
      instruction.Frame regs regs' memory.words after.words := by
  rcases hmemory.coherent with ⟨hformed, hcoherent⟩
  rcases step_serves regs hformed with ⟨outcome, regs'', after', hstep', hserves⟩
  obtain ⟨rfl, hends⟩ := Prod.mk.inj (Except.ok.inj (hstep'.symm.trans hstep))
  obtain ⟨rfl, rfl⟩ := Prod.mk.inj hends
  apply UnitWords.frame_of_retired
  rw [hserves.value_eq hcoherent, hserves.words_eq hcoherent]

/-- STP X0, X1, [SP, #-16]! at the top of a stack of eight words. -/
theorem UnitMemory.step_frame_push :
    ∃ memory : UnitMemory, memory.Reachable ∧ ∃ regs regs' group after,
      step regs memory = .ok (.retired 0 0xA9BF07E0 group .stpX, regs', after) ∧
      (∃ instruction, decode 0xA9BF07E0 = .ok instruction ∧
        instruction.Frame regs regs' memory.words after.words) ∧
      regs'.sp = regs.sp - 16 ∧ after.words.stack = #[0, 0, 0, 0, 5, 0, 6, 0] := by
  let store : Ram := { name := "RAM", words := (Array.replicate 64 0).set! 0 0xA9BF07E0 }
  let regs : RegisterFile :=
    { x := (Vector.replicate 31 0).set 0 5 |>.set 1 6, sps := Vector.replicate 4 0x7FFF00000020 }
  have hbuild : (Memory.ram store).withCache "L1" {} 64 =
      .ok (.cache { name := "L1", capacity := 64, lines := Vector.replicate 1 {} } (.ram store)) :=
    rfl
  let memory : UnitMemory :=
    { hierarchy := .cache { name := "L1", capacity := 64, lines := Vector.replicate 1 {} }
        (.ram store)
      stack := .zeroed "STACK" 8 }
  have hmemory : memory.Reachable := .start (.cache (.ram store) hbuild) _ _
  rcases hmemory.coherent with ⟨hformed, hcoherent⟩
  rcases step_serves regs hformed with ⟨outcome, regs', after, hstep, hserves⟩
  have hvalue := hserves.value_eq hcoherent
  have hwords := hserves.words_eq hcoherent
  have hflat : memory.words.step regs =
      ((.retired 0 0xA9BF07E0 .loadStore .stpX,
        { regs with pc := 4, sps := regs.sps.set 0 0x7FFF00000010 }),
        ⟨#[0, 0, 0, 0, 5, 0, 6, 0], store.words⟩) := by
    decide +kernel
  rw [hflat] at hvalue hwords
  obtain ⟨rfl, rfl⟩ := Prod.mk.inj hvalue
  rcases UnitMemory.step_frame hmemory hstep with ⟨-, instruction, hdecode, -, -, hframe⟩
  exact ⟨memory, hmemory, regs, _, _, after, hstep, ⟨instruction, hdecode, hframe⟩,
    by decide +kernel, congrArg UnitWords.stack hwords⟩

end A64Machine
