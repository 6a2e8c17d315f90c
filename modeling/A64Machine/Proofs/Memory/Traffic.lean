import Mathlib.Algebra.BigOperators.Group.List.Basic
import Mathlib.Algebra.Ring.Nat
import A64Machine.Proofs.Memory.Accounting
import A64Machine.Proofs.Memory.Levels

/-!
The traffic between the levels of a hierarchy.  A call on a cache is answered there or causes one
call on the memory directly behind, so the calls that a level receives are those made on it from
outside and those that the caches directly in front of it pass on.
-/

namespace A64Machine

/-- The kind under which a cache counts a call that it makes on the memory behind it. -/
def AccessKind.behind? : AccessKind → Option AccessKind
  | .readBlock => some .backingReadBlock
  | .write => some .backingWrite
  | .writeBlock => some .backingWriteBlock
  | _ => none

/-- The access of a kind, if it is counted at all. -/
def CountedAccess.ofKind (kind : Option AccessKind) (result : AccessResult) : List CountedAccess :=
  (kind.map fun own => ⟨own, result⟩).toList

namespace Cache

/-- The call that brings in the line of an address. -/
def refill (front : Cache) (size address : Nat) : MemoryCall :=
  .readBlock (front.baseOf address) (lengthAt size (front.baseOf address))

/-- The call that passes on the line of an address with what is written to it. -/
def push (front : Cache) (size address : Nat) (data : List Word) : MemoryCall :=
  .writeBlock (front.baseOf address) (front.pushedWords size address data)

/-- How a call on a cache is counted. -/
def result (front : Cache) : MemoryCall → AccessResult
  | .read address => if front.isHit address 1 then .hit else .miss
  | .readBlock start count => if count = 0 ∨ front.isHit start count then .hit else .miss
  | .write address _ => if front.isResident address then .hit else .miss
  | .writeBlock start data => if data = [] ∨ front.isResident start then .hit else .miss
  | .clear _ => .hit

/-- The call on the memory of `size` words behind a cache that a call on the cache causes. -/
def passed? (front : Cache) (size : Nat) : MemoryCall → Option MemoryCall
  | .read address => if front.isHit address 1 then none else some (front.refill size address)
  | .readBlock start count =>
    if count = 0 ∨ front.isHit start count then none else some (front.refill size start)
  | .write address value =>
    some (if front.isResident address then front.push size address [value] else .write address value)
  | .writeBlock start data =>
    if data = [] then none
    else some (if front.isResident start then front.push size start data else .writeBlock start data)
  | .clear 0 => none
  | .clear (depth + 1) => some (.clear depth)

end Cache

/-- A call that one level received, how it was counted there, and the call that it caused on the
level behind. -/
structure HandledCall where
  level : Nat
  call : MemoryCall
  result : AccessResult
  passed : Option MemoryCall
  deriving Repr, DecidableEq

namespace HandledCall

def kind? (handled : HandledCall) : Option AccessKind :=
  handled.call.kind?

def passedKind? (handled : HandledCall) : Option AccessKind :=
  handled.passed.bind MemoryCall.kind?

/-- What a level counts for a call: the call itself, and the traffic that it caused. -/
def counted (handled : HandledCall) : List CountedAccess :=
  CountedAccess.ofKind handled.kind? handled.result ++
    CountedAccess.ofKind (handled.passedKind?.bind AccessKind.behind?) .miss

/-- What one level counts for the calls of a hierarchy. -/
def countedAt (number : Nat) (traffic : List HandledCall) : List CountedAccess :=
  (traffic.filter (·.level = number)).flatMap counted

end HandledCall

def Level.stats : Level → AccessStats
  | .ram store => store.stats
  | .cache front _ => front.stats

/-- How the levels handle a call on the one that is `distance` places down the list. -/
def handledBy : List Level → Nat → MemoryCall → List HandledCall
  | [], _, _ => []
  | .ram _ :: older, 0, call => [⟨older.length, call, .hit, none⟩]
  | .cache front backing :: older, 0, call =>
    let passed := front.passed? (((chainAt older backing).map Memory.size).getD 0) call
    ⟨older.length, call, front.result call, passed⟩ ::
      passed.elim [] fun next => handledBy older backing next
  | _ :: older, distance + 1, call => handledBy older distance call

theorem handledBy_succ (level : Level) (older : List Level) (distance : Nat) (call : MemoryCall) :
    handledBy (level :: older) (distance + 1) call = handledBy older distance call := by
  cases level <;> rfl

def statsAt : List Level → Nat → AccessStats
  | [], _ => {}
  | level :: older, number => if number = older.length then level.stats else statsAt older number

/-- The numbers of the caches directly in front of level `number`. -/
def frontsOf : List Level → Nat → List Nat
  | [], _ => []
  | .ram _ :: older, number => frontsOf older number
  | .cache _ backing :: older, number =>
    if number = older.length - 1 - backing then older.length :: frontsOf older number
    else frontsOf older number

/-- The memory behind a cache after the call that the cache made on it, if any. -/
def Memory.Became (backing behind : Memory) : Option MemoryCall → Prop
  | none => behind = backing
  | some call => ∃ reply, call.run backing = .ok reply ∧ reply.state = behind

namespace MemoryCall

/-- A call that a RAM answers is counted as a hit there, and the RAM keeps its size. -/
theorem run_ram {store : Ram} {call : MemoryCall} {reply : Reply Memory (List Word)}
    (hrun : call.run (.ram store) = .ok reply) : ∃ store', reply.state = .ram store' ∧
      store'.size = store.size ∧
      store'.stats = store.stats.recordAll (CountedAccess.ofKind call.kind? .hit) := by
  cases call with
  | read address =>
    obtain ⟨answer, hread, hlast⟩ := bind_eq_ok hrun
    obtain ⟨_, hstore, hlift⟩ := bind_eq_ok hread
    obtain ⟨_, -, hcounted⟩ := bind_eq_ok hstore
    obtain rfl := Except.ok.inj hcounted
    obtain rfl := Except.ok.inj hlift
    obtain rfl := Except.ok.inj hlast
    exact ⟨_, rfl, rfl, rfl⟩
  | write address value =>
    obtain ⟨answer, hwrite, hlast⟩ := bind_eq_ok hrun
    obtain ⟨_, hstore, hlift⟩ := bind_eq_ok hwrite
    obtain ⟨_, -, hcounted⟩ := bind_eq_ok hstore
    obtain rfl := Except.ok.inj hcounted
    obtain rfl := Except.ok.inj hlift
    obtain rfl := Except.ok.inj hlast
    exact ⟨_, rfl, size_splice _ _ _, rfl⟩
  | readBlock start count =>
    obtain ⟨_, hstore, hlift⟩ := bind_eq_ok hrun
    obtain ⟨_, -, hcounted⟩ := bind_eq_ok hstore
    obtain rfl := Except.ok.inj hcounted
    obtain rfl := Except.ok.inj hlift
    exact ⟨_, rfl, rfl, rfl⟩
  | writeBlock start data =>
    obtain ⟨answer, hwrite, hlast⟩ := bind_eq_ok hrun
    obtain ⟨_, hstore, hlift⟩ := bind_eq_ok hwrite
    obtain ⟨_, -, hcounted⟩ := bind_eq_ok hstore
    obtain rfl := Except.ok.inj hcounted
    obtain rfl := Except.ok.inj hlift
    obtain rfl := Except.ok.inj hlast
    exact ⟨_, rfl, size_splice _ _ _, rfl⟩
  | clear depth =>
    cases depth with
    | zero =>
      obtain rfl := Except.ok.inj hrun
      exact ⟨_, rfl, rfl, rfl⟩
    | succ depth =>
      obtain rfl := Except.ok.inj hrun
      exact ⟨_, rfl, rfl, rfl⟩

end MemoryCall

namespace Memory

variable {backing : Memory} {address : Nat}

theorem became_write {value : Word} {reply : Reply Memory Unit}
    (hwrite : backing.write address value = .ok reply) :
    backing.Became reply.state (some (.write address value)) :=
  ⟨⟨[], reply.state, reply.events⟩, congrArg (· >>= _) hwrite, rfl⟩

theorem became_writeBlock {data : List Word} {reply : Reply Memory Unit}
    (hwrite : backing.writeBlock address data = .ok reply) :
    backing.Became reply.state (some (.writeBlock address data)) :=
  ⟨⟨[], reply.state, reply.events⟩, congrArg (· >>= _) hwrite, rfl⟩

theorem became_clear {depth : Nat} {reply : Reply Memory Unit}
    (hclear : backing.atDepth (fun level => .ok ⟨(), level.clear, []⟩) depth = .ok reply) :
    backing.Became reply.state (some (.clear depth)) :=
  ⟨⟨[], reply.state, reply.events⟩, congrArg (· >>= _) hclear, rfl⟩

end Memory

namespace Cache

variable {front : Cache} {backing : Memory} {address start : Nat}

/-- Whether a cache and the memory behind it became `after` by a call: the cache counted the call
and what it passed on, and that is all that was done behind it. -/
def Handles (front : Cache) (backing : Memory) (call : MemoryCall) (number : Nat)
    (after : Memory) : Prop :=
  ∃ front' behind, after = .cache front' behind ∧
    front'.stats = front.stats.recordAll (HandledCall.counted
      ⟨number, call, front.result call, front.passed? backing.size call⟩) ∧
    backing.Became behind (front.passed? backing.size call)

theorem handles_read {reply : Reply Memory Word}
    (hread : (Memory.cache front backing).read address = .ok reply) (number : Nat) :
    front.Handles backing (.read address) number reply.state := by
  obtain ⟨_, -, hchecked⟩ := bind_eq_ok hread
  rw [Handles, result, passed?]
  split at hchecked
  next hhit =>
    obtain rfl := Except.ok.inj hchecked
    rw [if_pos hhit, if_pos hhit]
    exact ⟨_, _, rfl, rfl, rfl⟩
  next hmiss =>
    obtain ⟨fill, hfill, hfilled⟩ := bind_eq_ok hchecked
    obtain rfl := Except.ok.inj hfilled
    rw [if_neg hmiss, if_neg hmiss]
    exact ⟨_, _, rfl, rfl, fill, hfill, rfl⟩

theorem handles_readBlock {count : Nat} {reply : Reply Memory (List Word)}
    (hread : (Memory.cache front backing).readBlock start count = .ok reply) (number : Nat) :
    front.Handles backing (.readBlock start count) number reply.state := by
  obtain ⟨_, -, hchecked⟩ := bind_eq_ok hread
  rw [Handles, result, passed?]
  split at hchecked
  next hhit =>
    obtain rfl := Except.ok.inj hchecked
    rw [if_pos hhit, if_pos hhit]
    exact ⟨_, _, rfl, rfl, rfl⟩
  next hmiss =>
    obtain ⟨fill, hfill, hfilled⟩ := bind_eq_ok hchecked
    obtain rfl := Except.ok.inj hfilled
    rw [if_neg hmiss, if_neg hmiss]
    exact ⟨_, _, rfl, rfl, fill, hfill, rfl⟩

/-- A word of a resident line goes on with its line, and any other word as it is. -/
theorem handles_write {value : Word} {reply : Reply Memory Unit}
    (hwrite : (Memory.cache front backing).write address value = .ok reply) (number : Nat) :
    front.Handles backing (.write address value) number reply.state := by
  obtain ⟨_, -, hchecked⟩ := bind_eq_ok hwrite
  rw [Handles, result, passed?]
  split at hchecked
  next hresident =>
    obtain ⟨pushed, hpushed, hwritten⟩ := bind_eq_ok hchecked
    obtain rfl := Except.ok.inj hwritten
    rw [if_pos hresident, if_pos hresident]
    exact ⟨_, _, rfl, rfl, Memory.became_writeBlock hpushed⟩
  next hother =>
    obtain ⟨passed, hpassed, hwritten⟩ := bind_eq_ok hchecked
    obtain rfl := Except.ok.inj hwritten
    rw [if_neg hother, if_neg hother]
    exact ⟨_, _, rfl, rfl, Memory.became_write hpassed⟩

theorem handles_writeBlock {data : List Word} {reply : Reply Memory Unit}
    (hwrite : (Memory.cache front backing).writeBlock start data = .ok reply) (number : Nat) :
    front.Handles backing (.writeBlock start data) number reply.state := by
  obtain ⟨_, -, hchecked⟩ := bind_eq_ok hwrite
  rw [Handles, result, passed?]
  split at hchecked
  next hempty =>
    rw [List.isEmpty_iff] at hempty
    obtain rfl := Except.ok.inj hchecked
    rw [if_pos (.inl hempty), if_pos hempty]
    exact ⟨_, _, rfl, rfl, rfl⟩
  next hdata =>
    rw [List.isEmpty_iff] at hdata
    rw [if_neg hdata]
    split at hchecked
    next hresident =>
      obtain ⟨pushed, hpushed, hwritten⟩ := bind_eq_ok hchecked
      obtain rfl := Except.ok.inj hwritten
      rw [if_pos (.inr hresident), if_pos hresident]
      exact ⟨_, _, rfl, rfl, Memory.became_writeBlock hpushed⟩
    next hother =>
      obtain ⟨passed, hpassed, hwritten⟩ := bind_eq_ok hchecked
      obtain rfl := Except.ok.inj hwritten
      rw [if_neg (not_or.mpr ⟨hdata, hother⟩), if_neg hother]
      exact ⟨_, _, rfl, rfl, Memory.became_writeBlock hpassed⟩

theorem handles_clear {depth : Nat} {reply : Reply Memory Unit}
    (hclear : Memory.atDepth (fun level => .ok ⟨(), level.clear, []⟩) (.cache front backing) depth =
      .ok reply) (number : Nat) : front.Handles backing (.clear depth) number reply.state := by
  cases depth with
  | zero =>
    obtain rfl := Except.ok.inj hclear
    exact ⟨_, _, rfl, rfl, rfl⟩
  | succ depth =>
    obtain ⟨cleared, hcleared, hlifted⟩ := bind_eq_ok hclear
    obtain rfl := Except.ok.inj hlifted
    exact ⟨_, _, rfl, rfl, Memory.became_clear hcleared⟩

end Cache

/-- A cache answers a call itself or with one call on the memory behind it, and counts both. -/
theorem MemoryCall.handles_of_run {front : Cache} {backing : Memory} {call : MemoryCall}
    {reply : Reply Memory (List Word)} (hrun : call.run (.cache front backing) = .ok reply)
    (number : Nat) : front.Handles backing call number reply.state := by
  cases call with
  | read address =>
    obtain ⟨answer, hread, hlast⟩ := bind_eq_ok hrun
    obtain rfl := Except.ok.inj hlast
    exact Cache.handles_read hread number
  | readBlock start count => exact Cache.handles_readBlock hrun number
  | write address value =>
    obtain ⟨answer, hwrite, hlast⟩ := bind_eq_ok hrun
    obtain rfl := Except.ok.inj hlast
    exact Cache.handles_write hwrite number
  | writeBlock start data =>
    obtain ⟨answer, hwrite, hlast⟩ := bind_eq_ok hrun
    obtain rfl := Except.ok.inj hlast
    exact Cache.handles_writeBlock hwrite number
  | clear depth =>
    obtain ⟨answer, hclear, hlast⟩ := bind_eq_ok hrun
    obtain rfl := Except.ok.inj hlast
    exact Cache.handles_clear hclear number

/-- Every chain of the levels ends at a RAM. -/
def Grounded : List Level → Prop
  | [] => True
  | .ram _ :: older => Grounded older
  | .cache _ backing :: older => backing < older.length ∧ Grounded older

theorem Grounded.older {level : Level} {older : List Level} (hgrounded : Grounded (level :: older)) :
    Grounded older := by
  cases level with
  | ram store => exact hgrounded
  | cache front backing => exact hgrounded.2

theorem Grounded.chainAt {levels : List Level} (hgrounded : Grounded levels) {distance : Nat}
    (hlt : distance < levels.length) : ∃ memory, chainAt levels distance = some memory := by
  induction levels generalizing distance with
  | nil => contradiction
  | cons level older ih =>
    cases distance with
    | succ distance =>
      rw [chainAt_succ]
      exact ih hgrounded.older (Nat.lt_of_succ_lt_succ hlt)
    | zero =>
      cases level with
      | ram store => exact ⟨_, rfl⟩
      | cache front backing =>
        obtain ⟨behind, hbehind⟩ := ih hgrounded.2 hgrounded.1
        exact ⟨_, congrArg (Option.map (Memory.cache front)) hbehind⟩

theorem Grounded.replaceChain {levels : List Level} (hgrounded : Grounded levels) (distance : Nat)
    (after : Memory) : Grounded (replaceChain levels distance after) := by
  induction levels generalizing distance after with
  | nil => trivial
  | cons level older ih =>
    cases distance with
    | succ distance =>
      cases level with
      | ram store => exact ih hgrounded distance after
      | cache front backing =>
        refine ⟨?_, ih hgrounded.2 distance after⟩
        rw [length_replaceChain]
        exact hgrounded.1
    | zero =>
      cases level with
      | ram store =>
        cases after with
        | ram store' => exact hgrounded
        | cache front' rest => exact hgrounded
      | cache front backing =>
        cases after with
        | ram store' => exact hgrounded
        | cache front' rest =>
          refine ⟨?_, ih hgrounded.2 backing rest⟩
          rw [length_replaceChain]
          exact hgrounded.1

theorem lt_of_chainAt {levels : List Level} {distance : Nat} {memory : Memory}
    (hchain : chainAt levels distance = some memory) : distance < levels.length := by
  induction levels generalizing distance with
  | nil => contradiction
  | cons level older ih =>
    cases distance with
    | zero => exact Nat.zero_lt_succ _
    | succ distance => exact Nat.succ_lt_succ (ih ((chainAt_succ level older distance) ▸ hchain))

/-- The counters of the top of a chain are those of its level. -/
theorem stats_chainAt {levels : List Level} {distance : Nat} {memory : Memory}
    (hchain : chainAt levels distance = some memory) :
    memory.stats = statsAt levels (levels.length - 1 - distance) := by
  induction levels generalizing distance with
  | nil => contradiction
  | cons level older ih =>
    rw [List.length_cons, Nat.add_sub_cancel, statsAt]
    cases distance with
    | succ distance =>
      rw [chainAt_succ] at hchain
      have hlt : distance < older.length := lt_of_chainAt hchain
      rw [if_neg (by omega), ih hchain]
      congr 1
      omega
    | zero =>
      rw [Nat.sub_zero, if_pos rfl]
      cases level with
      | ram store =>
        obtain rfl := Option.some.inj hchain
        rfl
      | cache front backing =>
        obtain ⟨behind, -, rfl⟩ := Option.map_eq_some_iff.mp hchain
        rfl

/-- Putting a chain back as it was changes nothing. -/
theorem replaceChain_self {levels : List Level} {distance : Nat} {memory : Memory}
    (hchain : chainAt levels distance = some memory) :
    replaceChain levels distance memory = levels := by
  induction levels generalizing distance memory with
  | nil => contradiction
  | cons level older ih =>
    cases distance with
    | succ distance =>
      rw [chainAt_succ] at hchain
      rw [replaceChain_succ, ih hchain]
    | zero =>
      cases level with
      | ram store =>
        obtain rfl := Option.some.inj hchain
        rfl
      | cache front backing =>
        obtain ⟨behind, hbehind, rfl⟩ := Option.map_eq_some_iff.mp hchain
        exact congrArg (List.cons (.cache front backing)) (ih hbehind)

/-- Which caches stand in front of a level does not change. -/
theorem frontsOf_replaceChain (levels : List Level) (distance : Nat) (after : Memory)
    (number : Nat) : frontsOf (replaceChain levels distance after) number = frontsOf levels number := by
  induction levels generalizing distance after with
  | nil => rfl
  | cons level older ih =>
    cases distance with
    | succ distance =>
      cases level with
      | ram store => exact ih distance after
      | cache front backing =>
        rw [replaceChain, frontsOf, frontsOf, ih, length_replaceChain]
    | zero =>
      cases level with
      | ram store => cases after <;> rfl
      | cache front backing =>
        cases after with
        | ram store' => rfl
        | cache front' rest => rw [replaceChain, frontsOf, frontsOf, ih, length_replaceChain]

/-- No cache asks the memory behind it for a single word. -/
theorem Cache.kind_passed?_ne_read (front : Cache) (size : Nat) (call : MemoryCall) :
    (front.passed? size call).bind MemoryCall.kind? ≠ some .read := by
  cases call with
  | clear depth => cases depth <;> exact nofun
  | _ => grind [passed?, refill, push, MemoryCall.kind?]

/-- Only levels that there are handle calls, and what they pass on is no read of a single word. -/
theorem mem_handledBy {levels : List Level} {distance : Nat} {call : MemoryCall}
    {handled : HandledCall} (hmem : handled ∈ handledBy levels distance call) :
    handled.level < levels.length ∧ handled.passedKind? ≠ some .read := by
  induction levels generalizing distance call with
  | nil => contradiction
  | cons level older ih =>
    rw [List.length_cons]
    cases distance with
    | succ distance =>
      rw [handledBy_succ] at hmem
      exact ⟨Nat.lt_succ_of_lt (ih hmem).1, (ih hmem).2⟩
    | zero =>
      cases level with
      | ram store =>
        obtain rfl := List.mem_singleton.mp hmem
        exact ⟨Nat.lt_succ_self _, nofun⟩
      | cache front backing =>
        rcases List.mem_cons.mp hmem with rfl | hrest
        · exact ⟨Nat.lt_succ_self _, front.kind_passed?_ne_read _ call⟩
        · cases hpassed : front.passed? (((chainAt older backing).map Memory.size).getD 0) call with
          | none =>
            rw [hpassed] at hrest
            contradiction
          | some next =>
            rw [hpassed] at hrest
            exact ⟨Nat.lt_succ_of_lt (ih hrest).1, (ih hrest).2⟩

/-- What a cache passes on is handled by older levels. -/
theorem lt_of_mem_passed (older : List Level) (backing : Nat) (passed : Option MemoryCall) :
    ∀ handled ∈ passed.elim [] fun next => handledBy older backing next,
      handled.level < older.length := by
  intro handled hmem
  cases passed with
  | none => contradiction
  | some next => exact (mem_handledBy hmem).1

namespace HandledCall

theorem countedAt_append (number : Nat) (traffic later : List HandledCall) :
    countedAt number (traffic ++ later) = countedAt number traffic ++ countedAt number later := by
  simp [countedAt]

theorem countedAt_cons (number : Nat) (handled : HandledCall) (rest : List HandledCall) :
    countedAt number (handled :: rest) =
      (if handled.level = number then handled.counted else []) ++ countedAt number rest := by
  rw [countedAt, List.filter_cons]
  by_cases hlevel : handled.level = number <;> simp [hlevel, countedAt]

/-- A level counts nothing when all calls are handled by older ones. -/
theorem countedAt_of_lt {number : Nat} {traffic : List HandledCall}
    (hlt : ∀ handled ∈ traffic, handled.level < number) : countedAt number traffic = [] := by
  have hnone : traffic.filter (·.level = number) = [] := by
    rw [List.filter_eq_nil_iff]
    intro handled hmem
    have := hlt handled hmem
    simp only [decide_eq_true_eq]
    omega
  rw [countedAt, hnone]
  rfl

end HandledCall

/-- The newest level handles a call, and older ones those that it leads to. -/
theorem statsAt_cons {level level' : Level} {older older' : List Level} {handled : HandledCall}
    {later : List HandledCall} {number : Nat} (hlength : older'.length = older.length)
    (hlevel : handled.level = older.length)
    (hlt : ∀ handled ∈ later, handled.level < older.length)
    (hstats : level'.stats = level.stats.recordAll handled.counted)
    (hbehind : statsAt older' number =
      (statsAt older number).recordAll (HandledCall.countedAt number later)) :
    statsAt (level' :: older') number = (statsAt (level :: older) number).recordAll
      (HandledCall.countedAt number (handled :: later)) := by
  rw [statsAt, statsAt, hlength, HandledCall.countedAt_cons, hlevel]
  by_cases hnumber : number = older.length
  · subst hnumber
    rw [if_pos rfl, if_pos rfl, if_pos rfl, HandledCall.countedAt_of_lt hlt, List.append_nil]
    exact hstats
  · rw [if_neg hnumber, if_neg hnumber, if_neg (Ne.symm hnumber), List.nil_append]
    exact hbehind

/-- The counters after a call are those before it with what the levels counted for it. -/
theorem statsAt_replaceChain {levels : List Level} {distance : Nat} {memory : Memory}
    (hchain : chainAt levels distance = some memory) {call : MemoryCall}
    {reply : Reply Memory (List Word)} (hrun : call.run memory = .ok reply) (number : Nat) :
    statsAt (replaceChain levels distance reply.state) number = (statsAt levels number).recordAll
      (HandledCall.countedAt number (handledBy levels distance call)) := by
  induction levels generalizing distance memory call reply with
  | nil => contradiction
  | cons level older ih =>
    cases distance with
    | succ distance =>
      rw [chainAt_succ] at hchain
      rw [replaceChain_succ, handledBy_succ, statsAt, statsAt, length_replaceChain]
      split
      next hnumber =>
        rw [hnumber, HandledCall.countedAt_of_lt fun handled hmem => (mem_handledBy hmem).1]
        rfl
      next => exact ih hchain hrun
    | zero =>
      cases level with
      | ram store =>
        obtain rfl := Option.some.inj hchain
        obtain ⟨store', hstate, -, hstats⟩ := MemoryCall.run_ram hrun
        have hcounted : store'.stats = store.stats.recordAll
            (HandledCall.counted ⟨older.length, call, .hit, none⟩) :=
          hstats.trans (congrArg store.stats.recordAll (List.append_nil _).symm)
        rw [hstate, replaceChain, handledBy]
        exact statsAt_cons rfl rfl (fun _ hmem => absurd hmem List.not_mem_nil) hcounted rfl
      | cache front backing =>
        obtain ⟨behind, hbehind, rfl⟩ := Option.map_eq_some_iff.mp hchain
        obtain ⟨front', rest, hstate, hstats, hbecame⟩ :=
          MemoryCall.handles_of_run hrun older.length
        have hsize : ((chainAt older backing).map Memory.size).getD 0 = behind.size := by
          rw [hbehind]
          rfl
        rw [hstate, replaceChain, handledBy, hsize]
        generalize front.passed? behind.size call = passed at hstats hbecame
        refine statsAt_cons (length_replaceChain _ _ _) rfl
          (lt_of_mem_passed older backing passed) hstats ?_
        -- What the levels behind count is the induction hypothesis for the call that is passed on.
        cases passed with
        | none =>
          obtain rfl : rest = behind := hbecame
          rw [replaceChain_self hbehind]
          rfl
        | some next =>
          obtain ⟨answer, hanswer, rfl⟩ := hbecame
          exact ih hbehind hanswer

namespace HandledCall

def received (traffic : List HandledCall) (number : Nat) (kind : AccessKind) : Nat :=
  traffic.countP fun handled => handled.level = number ∧ handled.kind? = some kind

/-- How many calls of a kind a level made on the one behind it. -/
def passedOn (traffic : List HandledCall) (number : Nat) (kind : AccessKind) : Nat :=
  traffic.countP fun handled => handled.level = number ∧ handled.passedKind? = some kind

theorem received_cons (handled : HandledCall) (rest : List HandledCall) (number : Nat)
    (kind : AccessKind) : received (handled :: rest) number kind = received rest number kind +
      if handled.level = number ∧ handled.kind? = some kind then 1 else 0 := by
  simp only [received, List.countP_cons, decide_eq_true_eq]

theorem passedOn_cons (handled : HandledCall) (rest : List HandledCall) (number : Nat)
    (kind : AccessKind) : passedOn (handled :: rest) number kind = passedOn rest number kind +
      if handled.level = number ∧ handled.passedKind? = some kind then 1 else 0 := by
  simp only [passedOn, List.countP_cons, decide_eq_true_eq]

theorem passedOn_of_lt {number : Nat} {traffic : List HandledCall}
    (hlt : ∀ handled ∈ traffic, handled.level < number) (kind : AccessKind) :
    passedOn traffic number kind = 0 := by
  rw [passedOn, List.countP_eq_zero]
  intro handled hmem
  have := hlt handled hmem
  simp only [decide_eq_true_eq]
  omega

end HandledCall

theorem lt_of_mem_frontsOf {levels : List Level} {number front : Nat}
    (hmem : front ∈ frontsOf levels number) : front < levels.length := by
  induction levels with
  | nil => contradiction
  | cons level older ih =>
    rw [List.length_cons]
    cases level with
    | ram store => exact Nat.lt_succ_of_lt (ih hmem)
    | cache cache backing =>
      rw [frontsOf] at hmem
      split at hmem
      · rcases List.mem_cons.mp hmem with rfl | hrest
        · exact Nat.lt_succ_self _
        · exact Nat.lt_succ_of_lt (ih hrest)
      · exact Nat.lt_succ_of_lt (ih hmem)

/-- How many calls of a kind the caches directly in front of a level made on it. -/
def HandledCall.passedTo (levels : List Level) (traffic : List HandledCall) (number : Nat)
    (kind : AccessKind) : Nat :=
  ((frontsOf levels number).map fun front => passedOn traffic front kind).sum

namespace HandledCall

variable {older : List Level} {traffic later : List HandledCall}

theorem passedTo_nil (levels : List Level) (number : Nat) (kind : AccessKind) :
    passedTo levels [] number kind = 0 := by
  simp [passedTo, passedOn, List.map_const']

/-- A newer level passes on nothing when older ones handle all calls. -/
theorem passedTo_of_lt (level : Level) (hlt : ∀ handled ∈ traffic, handled.level < older.length)
    (number : Nat) (kind : AccessKind) :
    passedTo (level :: older) traffic number kind = passedTo older traffic number kind := by
  cases level with
  | ram store => rfl
  | cache front backing =>
    rw [passedTo, frontsOf]
    split
    · rw [List.map_cons, List.sum_cons, passedOn_of_lt hlt, Nat.zero_add, passedTo]
    · rfl

/-- What a newer level handles is not passed on by an older one. -/
theorem passedTo_cons_newer (handled : HandledCall) (hnewer : older.length ≤ handled.level)
    (number : Nat) (kind : AccessKind) :
    passedTo older (handled :: later) number kind = passedTo older later number kind := by
  rw [passedTo, passedTo]
  congr 1
  apply List.map_congr_left
  intro front hmem
  have hlt := lt_of_mem_frontsOf hmem
  rw [passedOn_cons, if_neg (by omega), Nat.add_zero]

/-- A call on the newest cache, and those that it leads to behind it. -/
theorem passedTo_cons_front {front : Cache} {backing : Nat} {handled : HandledCall}
    (hlevel : handled.level = older.length)
    (hlt : ∀ handled ∈ later, handled.level < older.length) (number : Nat) (kind : AccessKind) :
    passedTo (.cache front backing :: older) (handled :: later) number kind =
      (if older.length - 1 - backing = number ∧ handled.passedKind? = some kind then 1 else 0) +
        passedTo older later number kind := by
  have holder : ((frontsOf older number).map fun cache => passedOn (handled :: later) cache kind).sum =
      passedTo older later number kind :=
    passedTo_cons_newer handled (Nat.le_of_eq hlevel.symm) number kind
  rw [passedTo, frontsOf]
  by_cases hnumber : older.length - 1 - backing = number
  · rw [if_pos hnumber.symm, List.map_cons, List.sum_cons, holder, passedOn_cons,
      passedOn_of_lt hlt, Nat.zero_add]
    simp only [hlevel, hnumber, true_and]
  · rw [if_neg (Ne.symm hnumber), holder, if_neg (fun hboth => hnumber hboth.1), Nat.zero_add]

end HandledCall

open HandledCall in
/-- The calls that a level received when one call was made somewhere: that one, if it was made
there, and what the caches directly in front passed on. -/
theorem received_handledBy {levels : List Level} (hgrounded : Grounded levels) {distance : Nat}
    (hlt : distance < levels.length) (call : MemoryCall) (number : Nat) (kind : AccessKind) :
    received (handledBy levels distance call) number kind =
      (if levels.length - 1 - distance = number ∧ call.kind? = some kind then 1 else 0) +
      passedTo levels (handledBy levels distance call) number kind := by
  induction levels generalizing distance call with
  | nil => contradiction
  | cons level older ih =>
    rw [List.length_cons] at hlt
    rw [List.length_cons, Nat.add_sub_cancel]
    cases distance with
    | succ distance =>
      rw [handledBy_succ, ih hgrounded.older (Nat.lt_of_succ_lt_succ hlt), Nat.add_comm distance,
        Nat.sub_sub, passedTo_of_lt level fun handled hmem => (mem_handledBy hmem).1]
    | zero =>
      rw [Nat.sub_zero]
      cases level with
      | ram store =>
        rw [handledBy, received_cons, passedTo, frontsOf, ← passedTo,
          passedTo_cons_newer _ (Nat.le_refl _), passedTo_nil]
        exact Nat.zero_add _
      | cache front backing =>
        obtain ⟨hbacking, holder⟩ := hgrounded
        rw [handledBy]
        generalize front.passed? (((chainAt older backing).map Memory.size).getD 0) call = passed
        have hbehind : received (passed.elim [] fun next => handledBy older backing next) number
            kind = (if older.length - 1 - backing = number ∧ passed.bind MemoryCall.kind? = some kind
              then 1 else 0) +
              passedTo older (passed.elim [] fun next => handledBy older backing next) number
                kind := by
          cases passed with
          | none => simp [received, passedTo_nil]
          | some next => exact ih holder hbacking next
        rw [received_cons, hbehind,
          passedTo_cons_front rfl (lt_of_mem_passed older backing passed)]
        exact Nat.add_comm _ _

theorem passedOn_read {levels : List Level} (distance : Nat) (call : MemoryCall) (number : Nat) :
    HandledCall.passedOn (handledBy levels distance call) number .read = 0 := by
  rw [HandledCall.passedOn, List.countP_eq_zero]
  intro handled hmem
  simp only [decide_eq_true_eq]
  exact fun hread => (mem_handledBy hmem).2 hread.2

end A64Machine
