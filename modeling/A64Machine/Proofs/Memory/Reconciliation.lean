import A64Machine.Proofs.Memory.Traffic

/-!
The counters of a hierarchy after any calls on its levels.  What the caches in front of a memory
count as traffic to it is what that memory counts as calls, apart from those made on it from outside.
-/

namespace A64Machine

/-- A call on one level of a hierarchy. -/
structure LevelCall where
  level : Nat
  call : MemoryCall
  deriving Repr, DecidableEq

namespace Hierarchy

/-- Makes calls in order.  There is how the levels handled them, and the hierarchy afterwards. -/
def conduct : List LevelCall → Hierarchy → Except Violation (List HandledCall × Hierarchy)
  | [], hierarchy => pure ([], hierarchy)
  | ⟨level, call⟩ :: rest, hierarchy => do
    let reply ← hierarchy.call level call.run
    let later ← conduct rest reply.state
    pure (handledBy hierarchy.levels (hierarchy.distance level) call ++ later.1, later.2)

/-- A hierarchy built by adding RAM and caches in front of the levels that there are. -/
inductive Built : Hierarchy → Prop
  | empty : Built ⟨[]⟩
  | ram {hierarchy : Hierarchy} (hbuilt : Built hierarchy) {store : Ram} (hnew : store.stats = {}) :
      Built (hierarchy.addRam store)
  | cache {hierarchy added : Hierarchy} {name : String} {policy : CachePolicy} {size backing : Nat}
      {event : Event} (hbuilt : Built hierarchy) (hbacking : backing < hierarchy.next)
      (hadd : hierarchy.addCache name policy size backing = .ok (added, event)) : Built added

/-- How many accesses of a kind level `number` has counted, hits and misses. -/
def countAt (hierarchy : Hierarchy) (number : Nat) (kind : AccessKind) : Nat :=
  (hierarchy.memory number).stats.count kind

/-- How many accesses of a kind the caches directly in front of level `number` have counted. -/
def countInFront (hierarchy : Hierarchy) (number : Nat) (kind : AccessKind) : Nat :=
  ((frontsOf hierarchy.levels number).map (hierarchy.countAt · kind)).sum

end Hierarchy

/-- How many of the calls were made on level `number` under a kind. -/
def LevelCall.direct (calls : List LevelCall) (number : Nat) (kind : AccessKind) : Nat :=
  calls.countP fun made => made.level = number ∧ made.call.kind? = some kind

/-- The counters of all levels add up, when the calls were made on them from outside. -/
structure Hierarchy.Reconciles (hierarchy : Hierarchy) (calls : List LevelCall) (number : Nat) :
    Prop where
  read : hierarchy.countAt number .read = LevelCall.direct calls number .read
  readBlock : hierarchy.countAt number .readBlock =
    LevelCall.direct calls number .readBlock + hierarchy.countInFront number .backingReadBlock
  write : hierarchy.countAt number .write =
    LevelCall.direct calls number .write + hierarchy.countInFront number .backingWrite
  writeBlock : hierarchy.countAt number .writeBlock =
    LevelCall.direct calls number .writeBlock + hierarchy.countInFront number .backingWriteBlock

namespace AccessKind

theorem isBacking_of_behind? {kind behind : AccessKind} (hbehind : kind.behind? = some behind) :
    behind.isBacking = true := by
  cases kind <;> simp only [behind?, Option.some.injEq, reduceCtorEq] at hbehind <;>
    rw [← hbehind] <;> rfl

theorem eq_of_behind? {kind other behind : AccessKind} (hbehind : kind.behind? = some behind)
    (hother : other.behind? = some behind) : other = kind := by
  cases kind <;> cases other <;> grind [behind?]

end AccessKind

theorem MemoryCall.isBacking_of_kind? {call : MemoryCall} {kind : AccessKind}
    (hkind : call.kind? = some kind) : kind.isBacking = false := by
  cases call <;> simp only [kind?, Option.some.injEq, reduceCtorEq] at hkind <;> rw [← hkind] <;> rfl

namespace HandledCall

/-- Hits and misses of a kind together. -/
theorem count_ofKind (own : Option AccessKind) (result : AccessResult) (kind : AccessKind) :
    (CountedAccess.ofKind own result).count ⟨kind, .hit⟩ +
      (CountedAccess.ofKind own result).count ⟨kind, .miss⟩ = if own = some kind then 1 else 0 := by
  cases own with
  | none => rfl
  | some own => cases result <;> simp [CountedAccess.ofKind, List.count_singleton]

/-- What a level counts under a kind that callers cause are the calls that it received. -/
theorem count_countedAt_received (traffic : List HandledCall) (number : Nat) {kind : AccessKind}
    (hkind : kind.isBacking = false) :
    (countedAt number traffic).count ⟨kind, .hit⟩ + (countedAt number traffic).count ⟨kind, .miss⟩ =
      received traffic number kind := by
  induction traffic with
  | nil => rfl
  | cons handled rest ih =>
    have hbehind : handled.passedKind?.bind AccessKind.behind? ≠ some kind := by
      intro hsome
      obtain ⟨own, -, hown⟩ := Option.bind_eq_some_iff.mp hsome
      rw [AccessKind.isBacking_of_behind? hown] at hkind
      contradiction
    have hown := count_ofKind handled.kind? handled.result kind
    have hpassed := count_ofKind (handled.passedKind?.bind AccessKind.behind?) .miss kind
    rw [if_neg hbehind] at hpassed
    rw [countedAt_cons, received_cons, ← ih]
    by_cases hlevel : handled.level = number
    · simp only [hlevel, true_and, if_true, List.count_append, counted]
      omega
    · simp only [hlevel, false_and, if_false, List.nil_append, Nat.add_zero]

/-- What a level counts as traffic to the memory behind it are the calls that it passed on. -/
theorem count_countedAt_passedOn (traffic : List HandledCall) (number : Nat)
    {kind behind : AccessKind} (hkind : kind.behind? = some behind) :
    (countedAt number traffic).count ⟨behind, .hit⟩ +
      (countedAt number traffic).count ⟨behind, .miss⟩ = passedOn traffic number kind := by
  induction traffic with
  | nil => rfl
  | cons handled rest ih =>
    have hcaller : handled.kind? ≠ some behind := by
      intro hsome
      have hnot := MemoryCall.isBacking_of_kind? hsome
      rw [AccessKind.isBacking_of_behind? hkind] at hnot
      contradiction
    have hiff : handled.passedKind?.bind AccessKind.behind? = some behind ↔
        handled.passedKind? = some kind := by
      rw [Option.bind_eq_some_iff]
      constructor
      · rintro ⟨own, hown, hbehind⟩
        rw [hown, AccessKind.eq_of_behind? hkind hbehind]
      · exact fun hown => ⟨kind, hown, hkind⟩
    have hown := count_ofKind handled.kind? handled.result behind
    have hpassed := count_ofKind (handled.passedKind?.bind AccessKind.behind?) .miss behind
    rw [if_neg hcaller] at hown
    simp only [hiff] at hpassed
    rw [countedAt_cons, passedOn_cons, ← ih]
    by_cases hlevel : handled.level = number
    · simp only [hlevel, true_and, if_true, List.count_append, counted]
      omega
    · simp only [hlevel, false_and, if_false, List.nil_append, Nat.add_zero]

/-- A level counts at most two accesses for each call that it handled. -/
theorem count_countedAt_le (number : Nat) (traffic : List HandledCall) (access : CountedAccess) :
    (countedAt number traffic).count access ≤ 2 * traffic.length := by
  induction traffic with
  | nil => exact Nat.le_refl _
  | cons handled rest ih =>
    have hcounted : (if handled.level = number then handled.counted else []).count access ≤ 2 := by
      refine Nat.le_trans List.count_le_length ?_
      split
      · have hkind (own : Option AccessKind) (result : AccessResult) :
            (CountedAccess.ofKind own result).length ≤ 1 := by
          cases own <;> simp [CountedAccess.ofKind]
        have hown := hkind handled.kind? handled.result
        have hpassed := hkind (handled.passedKind?.bind AccessKind.behind?) .miss
        rw [counted, List.length_append]
        omega
      · exact Nat.zero_le _
    rw [countedAt_cons, List.count_append, List.length_cons]
    omega

theorem received_append (traffic later : List HandledCall) (number : Nat) (kind : AccessKind) :
    received (traffic ++ later) number kind =
      received traffic number kind + received later number kind :=
  List.countP_append

theorem passedOn_append (traffic later : List HandledCall) (number : Nat) (kind : AccessKind) :
    passedOn (traffic ++ later) number kind =
      passedOn traffic number kind + passedOn later number kind :=
  List.countP_append

theorem passedTo_append (levels : List Level) (traffic later : List HandledCall) (number : Nat)
    (kind : AccessKind) : passedTo levels (traffic ++ later) number kind =
      passedTo levels traffic number kind + passedTo levels later number kind := by
  simp only [passedTo, passedOn_append, List.sum_map_add]

end HandledCall

theorem AccessStats.recordAll_append (stats : AccessStats) (accesses later : List CountedAccess) :
    stats.recordAll (accesses ++ later) = (stats.recordAll accesses).recordAll later :=
  List.foldl_append

namespace Hierarchy

variable {hierarchy last : Hierarchy}

theorem Built.grounded (hbuilt : hierarchy.Built) : Grounded hierarchy.levels := by
  induction hbuilt with
  | empty => trivial
  | ram hbuilt hnew ih => exact ih
  | cache hbuilt hbacking hadd ih =>
    obtain ⟨front, -, rfl, -⟩ := addCache_eq_ok hadd
    exact ⟨distance_lt hbacking, ih⟩

/-- New levels have counted nothing. -/
theorem Built.statsAt_eq (hbuilt : hierarchy.Built) (number : Nat) :
    statsAt hierarchy.levels number = {} := by
  induction hbuilt with
  | empty => rfl
  | ram hbuilt hnew ih =>
    rw [addRam, statsAt]
    split
    · exact hnew
    · exact ih
  | cache hbuilt hbacking hadd ih =>
    obtain ⟨front, hbuild, rfl, -⟩ := addCache_eq_ok hadd
    rw [withFront, statsAt]
    split
    · rw [Level.stats]
      grind [Cache.build]
    · exact ih

/-- Every level that there is starts a chain. -/
theorem chainAt_memory (hgrounded : Grounded hierarchy.levels) {number : Nat}
    (hlt : number < hierarchy.next) :
    chainAt hierarchy.levels (hierarchy.distance number) = some (hierarchy.memory number) := by
  obtain ⟨memory, hmemory⟩ := hgrounded.chainAt (distance_lt hlt)
  rw [hmemory, Hierarchy.memory, memory?, if_pos hlt, hmemory]
  rfl

theorem stats_memory (hgrounded : Grounded hierarchy.levels) {number : Nat}
    (hlt : number < hierarchy.next) :
    (hierarchy.memory number).stats = statsAt hierarchy.levels number := by
  rw [stats_chainAt (chainAt_memory hgrounded hlt), number_eq hlt]

/-- What calls made on the levels of a hierarchy amount to: each level counts the calls that it
handled, and received those made on it and those that the caches in front of it passed on. -/
structure Conducts (hierarchy last : Hierarchy) (calls : List LevelCall)
    (traffic : List HandledCall) : Prop where
  grounded : Grounded last.levels
  next_eq : last.next = hierarchy.next
  frontsOf_eq (number : Nat) : frontsOf last.levels number = frontsOf hierarchy.levels number
  statsAt_eq (number : Nat) : statsAt last.levels number =
    (statsAt hierarchy.levels number).recordAll (HandledCall.countedAt number traffic)
  received_eq (number : Nat) (kind : AccessKind) : HandledCall.received traffic number kind =
    LevelCall.direct calls number kind +
      HandledCall.passedTo hierarchy.levels traffic number kind
  passedOn_read (number : Nat) : HandledCall.passedOn traffic number .read = 0

/-- One accepted call. -/
theorem conducts_call (hgrounded : Grounded hierarchy.levels) {made : LevelCall}
    (hlevel : made.level < hierarchy.next) {reply : Reply Hierarchy (List Word)}
    (hcall : hierarchy.call made.level made.call.run = .ok reply) :
    hierarchy.Conducts reply.state [made]
      (handledBy hierarchy.levels (hierarchy.distance made.level) made.call) := by
  obtain ⟨answer, hrun, hlast⟩ := bind_eq_ok hcall
  obtain rfl := Except.ok.inj hlast
  have hstate : (answer.lift (hierarchy.replace made.level)).state =
      ⟨replaceChain hierarchy.levels (hierarchy.distance made.level) answer.state⟩ := by
    rw [Reply.lift, replace, if_pos hlevel]
  rw [hstate]
  refine ⟨hgrounded.replaceChain _ _, length_replaceChain _ _ _, frontsOf_replaceChain _ _ _,
    statsAt_replaceChain (chainAt_memory hgrounded hlevel) hrun, ?_, passedOn_read _ _⟩
  intro number kind
  rw [received_handledBy hgrounded (distance_lt hlevel), number_eq hlevel, LevelCall.direct,
    List.countP_singleton]
  simp only [decide_eq_true_eq]

theorem conducts_of_ok (hgrounded : Grounded hierarchy.levels) {calls : List LevelCall}
    (hcalls : ∀ made ∈ calls, made.level < hierarchy.next) {traffic : List HandledCall}
    (hconduct : conduct calls hierarchy = .ok (traffic, last)) :
    hierarchy.Conducts last calls traffic := by
  induction calls generalizing hierarchy traffic with
  | nil =>
    obtain ⟨rfl, rfl⟩ := Prod.mk.inj (Except.ok.inj hconduct)
    refine ⟨hgrounded, rfl, fun _ => rfl, fun _ => rfl, ?_, fun _ => rfl⟩
    intro number kind
    rw [HandledCall.passedTo_nil]
    rfl
  | cons made rest ih =>
    obtain ⟨reply, hcall, hlater⟩ := bind_eq_ok hconduct
    obtain ⟨⟨later, last'⟩, hrest, hlast⟩ := bind_eq_ok hlater
    obtain ⟨rfl, rfl⟩ := Prod.mk.inj (Except.ok.inj hlast)
    have hfirst := conducts_call hgrounded (hcalls made List.mem_cons_self) hcall
    have hnext : ∀ made ∈ rest, made.level < reply.state.next := by
      intro other hother
      rw [hfirst.next_eq]
      exact hcalls other (List.mem_cons_of_mem made hother)
    have hsecond := ih hfirst.grounded hnext hrest
    refine ⟨hsecond.grounded, hsecond.next_eq.trans hfirst.next_eq, ?_, ?_, ?_, ?_⟩
    · intro number
      rw [hsecond.frontsOf_eq, hfirst.frontsOf_eq]
    · intro number
      rw [hsecond.statsAt_eq, hfirst.statsAt_eq, HandledCall.countedAt_append,
        AccessStats.recordAll_append]
    · intro number kind
      have hone := hfirst.received_eq number kind
      have hmore := hsecond.received_eq number kind
      rw [HandledCall.passedTo, hfirst.frontsOf_eq, ← HandledCall.passedTo] at hmore
      have hdirect : LevelCall.direct (made :: rest) number kind =
          LevelCall.direct [made] number kind + LevelCall.direct rest number kind :=
        @List.countP_append _ _ [made] rest
      rw [HandledCall.received_append, HandledCall.passedTo_append, hdirect, hone, hmore]
      exact Nat.add_add_add_comm _ _ _ _
    · intro number
      rw [HandledCall.passedOn_append, hfirst.passedOn_read, hsecond.passedOn_read]

/-- Caches that share the memories behind them in any way, after any accepted calls on any levels:
every counter is the number of its accesses, and at every level the calls of a kind are those made
on it and those that the caches directly in front of it count as traffic to the memory behind them;
single words are read by callers only. -/
theorem counters_reconcile (hbuilt : hierarchy.Built) {calls : List LevelCall}
    (hcalls : ∀ made ∈ calls, made.level < hierarchy.next) {traffic : List HandledCall}
    (hconduct : conduct calls hierarchy = .ok (traffic, last))
    (hexact : ∀ number access,
      (HandledCall.countedAt number traffic).count access < UInt64.size)
    {number : Nat} (hnumber : number < hierarchy.next) :
    (∀ access, (last.memory number).stats.counter access =
      (HandledCall.countedAt number traffic).count access) ∧ last.Reconciles calls number := by
  have hconducts := conducts_of_ok hbuilt.grounded hcalls hconduct
  have hcounter : ∀ number < hierarchy.next, ∀ access, (last.memory number).stats.counter access =
      (HandledCall.countedAt number traffic).count access := by
    intro number hnumber access
    have hzero : AccessStats.counter {} access = 0 := by
      rcases access with ⟨kind, result⟩
      cases kind <;> cases result <;> rfl
    have hlimit : countLimit = UInt64.size - 1 := rfl
    have hbound := hexact number access
    rw [← hconducts.next_eq] at hnumber
    rw [stats_memory hconducts.grounded hnumber, hconducts.statsAt_eq, hbuilt.statsAt_eq,
      AccessStats.counter_recordAll _ _ _ (by omega), hzero, Nat.zero_add]
  have hreceived : ∀ kind : AccessKind, kind.isBacking = false →
      last.countAt number kind = HandledCall.received traffic number kind := by
    intro kind hkind
    rw [← HandledCall.count_countedAt_received traffic number hkind,
      ← hcounter number hnumber, ← hcounter number hnumber]
    rfl
  have hpassedOn : ∀ kind behind : AccessKind, kind.behind? = some behind →
      last.countInFront number behind =
        HandledCall.passedTo hierarchy.levels traffic number kind := by
    intro kind behind hbehind
    rw [countInFront, hconducts.frontsOf_eq, HandledCall.passedTo]
    congr 1
    apply List.map_congr_left
    intro front hfront
    have hlt : front < hierarchy.next := lt_of_mem_frontsOf hfront
    rw [← HandledCall.count_countedAt_passedOn traffic front hbehind, ← hcounter front hlt,
      ← hcounter front hlt]
    rfl
  refine ⟨hcounter number hnumber, ?_, ?_, ?_, ?_⟩
  · rw [hreceived .read rfl, hconducts.received_eq]
    simp [HandledCall.passedTo, hconducts.passedOn_read, List.map_const']
  · rw [hreceived .readBlock rfl, hconducts.received_eq, hpassedOn .readBlock _ rfl]
  · rw [hreceived .write rfl, hconducts.received_eq, hpassedOn .write _ rfl]
  · rw [hreceived .writeBlock rfl, hconducts.received_eq, hpassedOn .writeBlock _ rfl]

/-- Two caches in front of a third one, with calls on every level: a block of the RAM across lines,
lines that are brought in through both caches, words and lines that are passed on. -/
theorem counters_reconcile_shared :
    let calls : List LevelCall := [⟨2, .read 70⟩, ⟨3, .readBlock 64 4⟩, ⟨1, .readBlock 0 8⟩,
      ⟨2, .write 70 5⟩, ⟨3, .write 199 1⟩, ⟨0, .readBlock 60 10⟩, ⟨2, .writeBlock 130 [1, 2]⟩,
      ⟨1, .write 3 3⟩]
    ∃ (hierarchy last : Hierarchy) (traffic : List HandledCall),
      hierarchy.Built ∧ (∀ made ∈ calls, made.level < hierarchy.next) ∧
      conduct calls hierarchy = .ok (traffic, last) ∧
      (∀ number access, (HandledCall.countedAt number traffic).count access < UInt64.size) ∧
      1 < hierarchy.next ∧ frontsOf hierarchy.levels 1 = [3, 2] ∧
      (∀ access, (last.memory 1).stats.counter access =
        (HandledCall.countedAt 1 traffic).count access) ∧
      last.Reconciles calls 1 ∧ last.countAt 1 .readBlock = 3 ∧
      last.countInFront 1 .backingReadBlock = 2 := by
  intro calls
  let store : Ram := { name := "RAM", words := Array.replicate 200 9 }
  let shared : Cache := { name := "L2", capacity := 128, lines := Vector.replicate 2 {} }
  let one : Cache := { name := "A", capacity := 64, lines := Vector.replicate 1 {} }
  let two : Cache := { name := "B", capacity := 128, lines := Vector.replicate 2 {} }
  let base : Hierarchy := addRam ⟨[]⟩ store
  have hbase : (base.memory 0).size = 200 := Array.size_replicate
  have hshared : Cache.build "L2" {} 128 (base.memory 0).size = .ok shared := by
    rw [hbase]
    rfl
  have hone : Cache.build "A" {} 64 ((base.withFront shared 0).memory 1).size = .ok one := by
    rw [show ((base.withFront shared 0).memory 1).size = 200 from hbase]
    rfl
  have htwo : Cache.build "B" {} 128
      (((base.withFront shared 0).withFront one 1).memory 1).size = .ok two := by
    rw [show (((base.withFront shared 0).withFront one 1).memory 1).size = 200 from hbase]
    rfl
  let tree : Hierarchy := ((base.withFront shared 0).withFront one 1).withFront two 1
  have hbuilt : tree.Built :=
    .cache (.cache (.cache (.ram .empty rfl) (by decide) (addCache_of_build hshared)) (by decide)
      (addCache_of_build hone)) (by decide) (addCache_of_build htwo)
  have hlevels : ∀ made ∈ calls, made.level < tree.next := by decide
  have hcounts : (conduct calls tree).toOption.map (fun (traffic, last) => (traffic.length,
      last.countAt 1 .readBlock, last.countInFront 1 .backingReadBlock)) = some (19, 3, 2) := by
    decide +kernel
  cases hconduct : conduct calls tree with
  | error cause =>
    rw [hconduct] at hcounts
    exact absurd hcounts nofun
  | ok result =>
    obtain ⟨traffic, last⟩ := result
    rw [hconduct] at hcounts
    obtain ⟨hlength, hreads, hfronts⟩ : traffic.length = 19 ∧ last.countAt 1 .readBlock = 3 ∧
        last.countInFront 1 .backingReadBlock = 2 := by
      simpa [Except.toOption] using hcounts
    have hexact : ∀ number access,
        (HandledCall.countedAt number traffic).count access < UInt64.size := by
      intro number access
      have hbound := HandledCall.count_countedAt_le number traffic access
      have hsize : UInt64.size = 2 ^ 64 := rfl
      omega
    have hreconcile :=
      counters_reconcile hbuilt hlevels hconduct hexact (show 1 < tree.next by decide)
    exact ⟨tree, last, traffic, hbuilt, hlevels, hconduct, hexact, by decide, by decide,
      hreconcile.1, hreconcile.2, hreads, hfronts⟩

end Hierarchy

end A64Machine
