import A64Machine.Proofs.Memory.CheckedCalls
import A64Machine.Proofs.Memory.Reconciliation

/-!
The contract between the levels of a hierarchy.  A cache that is called inside the memory and inside
one line calls the memory behind it in the same way, also where the memory ends in the middle of a
line, and so down to RAM.  Which caches share a level, and what was done to the levels before, makes
no difference: a cache is asked to fit the memory behind it once, when it is built, and no call
changes the size of a memory.
-/

namespace A64Machine

def Checked.run (memory : Memory) :
    MemoryCall → Except Stop (Reply Memory (List Word))
  | .read address => do
    let reply ← read memory address
    pure ⟨[reply.value], reply.state, reply.events⟩
  | .write address value => do
    let reply ← write memory address value
    pure ⟨[], reply.state, reply.events⟩
  | .readBlock start count => readBlock memory start count
  | .writeBlock start data => do
    let reply ← writeBlock memory start data
    pure ⟨[], reply.state, reply.events⟩
  | .clear depth => (MemoryCall.run memory (.clear depth)).mapError .violation

/-- Whether the RAM of the levels have sizes that 64 bits can count, and every cache fits the memory
behind it. -/
def Formed : List Level → Prop
  | [] => True
  | .ram store :: older => store.size < UInt64.size ∧ Formed older
  | .cache front backing :: older =>
    (∃ size, (chainAt older backing).map Memory.size = some size ∧ front.Fits size) ∧ Formed older

/-- A call on a memory makes one of its levels receive a call: the top receives it, and what a cache
passes on is received behind it. -/
inductive Receives : Memory → MemoryCall → Memory → MemoryCall → Prop
  | top (memory : Memory) (call : MemoryCall) : Receives memory call memory call
  | behind {front : Cache} {backing level : Memory} {call next received : MemoryCall}
      (hpassed : front.passed? backing.size call = some next)
      (hreceives : Receives backing next level received) :
      Receives (.cache front backing) call level received

/-- What it means that a call that a level received keeps the contract: the level may be asked it
and answers it, every index and bound on the way exists, and what became of the memory behind is
what the one call does that is passed on. -/
structure MemoryCall.KeptBy (call : MemoryCall) (level : Memory) : Prop where
  allowed : call.Allowed level.size
  answered : ∃ reply, call.run level = .ok reply ∧ Checked.run level call = .ok reply ∧
    ∀ front backing, level = .cache front backing → ∃ front' behind,
      reply.state = .cache front' behind ∧
        backing.Became behind (front.passed? backing.size call)

/-- A hierarchy in a state that it can come to: RAM and caches were added, and calls made on any
levels, in any order. -/
inductive Hierarchy.Reachable : Hierarchy → Prop
  | empty : Reachable ⟨[]⟩
  | ram {hierarchy : Hierarchy} (hreachable : Reachable hierarchy) {store : Ram}
      (hsize : store.size < UInt64.size) : Reachable (hierarchy.addRam store)
  | cache {hierarchy added : Hierarchy} {name : String} {policy : CachePolicy} {size backing : Nat}
      {event : Event} (hreachable : Reachable hierarchy) (hbacking : backing < hierarchy.next)
      (hadd : hierarchy.addCache name policy size backing = .ok (added, event)) : Reachable added
  | call {hierarchy : Hierarchy} {made : LevelCall} {reply : Reply Hierarchy (List Word)}
      (hreachable : Reachable hierarchy) (hlevel : made.level < hierarchy.next)
      (hcall : hierarchy.call made.level made.call.run = .ok reply) : Reachable reply.state

theorem Checked.run_eq {memory : Memory} (hformed : memory.WellFormed)
    (hsize : memory.size < UInt64.size) {call : MemoryCall} (hallowed : call.Allowed memory.size) :
    Checked.run memory call = (call.run memory).mapError .violation := by
  cases call with
  | read address =>
    simp only [Checked.run, MemoryCall.run, read_eq memory hformed hsize hallowed]
    cases memory.read address <;> rfl
  | write address value =>
    simp only [Checked.run, MemoryCall.run, write_eq memory hformed hsize value hallowed]
    cases memory.write address value <;> rfl
  | readBlock start count => exact readBlock_eq memory hformed hsize hallowed.1 hallowed.2
  | writeBlock start data =>
    simp only [Checked.run, MemoryCall.run,
      writeBlock_eq memory hformed hsize hallowed.1 hallowed.2]
    cases memory.writeBlock start data <;> rfl
  | clear depth => rfl

namespace Cache

variable {front : Cache} {size address : Nat}

theorem refill_allowed (hfits : front.Fits size) (hin : address < size) :
    (front.refill size address).Allowed size :=
  Checked.line_in_range hfits hin

theorem push_allowed (hfits : front.Fits size) (hin : address < size) (data : List Word) :
    (front.push size address data).Allowed size := by
  have hrange := Checked.line_in_range hfits hin
  rwa [← front.length_pushedWords _ _ data] at hrange

/-- A cache passes on calls that the memory behind it may be asked. -/
theorem passed?_allowed (hfits : front.Fits size) {call next : MemoryCall}
    (hallowed : call.Allowed size) (hpassed : front.passed? size call = some next) :
    next.Allowed size := by
  cases call with
  | read address =>
    rw [passed?] at hpassed
    split at hpassed
    · contradiction
    · obtain rfl := Option.some.inj hpassed
      exact refill_allowed hfits hallowed
  | readBlock start count =>
    rw [passed?] at hpassed
    split at hpassed
    · contradiction
    next hmiss =>
      obtain rfl := Option.some.inj hpassed
      have hin : start + count ≤ size := hallowed.1
      have hcount : count ≠ 0 := fun hzero => hmiss (.inl hzero)
      exact refill_allowed hfits (by omega)
  | write address value =>
    obtain rfl := Option.some.inj hpassed
    split
    · exact push_allowed hfits hallowed [value]
    · exact hallowed
  | writeBlock start data =>
    rw [passed?] at hpassed
    split at hpassed
    · contradiction
    next hdata =>
      obtain rfl := Option.some.inj hpassed
      have hin : start + data.length ≤ size := hallowed.1
      have hpositive := List.length_pos_iff.2 hdata
      split
      · exact push_allowed hfits (by omega) data
      · exact hallowed
  | clear depth =>
    cases depth with
    | zero => contradiction
    | succ depth =>
      obtain rfl := Option.some.inj hpassed
      trivial

end Cache

/-- A call that is answered leaves the memory well-formed and as large as it was. -/
theorem MemoryCall.run_wellFormed {memory : Memory} (hformed : memory.WellFormed)
    {call : MemoryCall} {reply : Reply Memory (List Word)} (hrun : call.run memory = .ok reply) :
    reply.state.WellFormed ∧ reply.state.size = memory.size := by
  cases memory with
  | ram store =>
    obtain ⟨store', hstate, hsize, -⟩ := run_ram hrun
    rw [hstate]
    exact ⟨trivial, hsize⟩
  | cache front backing =>
    have hallowed : call.Allowed (Memory.cache front backing).size := by
      by_contra hrefused
      obtain ⟨violation, hviolation⟩ := run_refused front backing hrefused
      rw [hrun] at hviolation
      contradiction
    obtain ⟨answer, hanswer, hserves⟩ := run_serves hformed hallowed
    obtain rfl := Except.ok.inj (hanswer.symm.trans hrun)
    exact ⟨hserves.wellFormed, hserves.size_eq⟩

/-- By induction down the chain: what keeps the contract at one level makes the next one receive a
call that keeps it too. -/
theorem Receives.keptBy {memory level : Memory} {call received : MemoryCall}
    (hreceives : Receives memory call level received) (hformed : memory.WellFormed)
    (hsize : memory.size < UInt64.size) (hallowed : call.Allowed memory.size) :
    received.KeptBy level := by
  induction hreceives with
  | top memory call =>
    obtain ⟨reply, hrun, -⟩ := MemoryCall.run_serves hformed hallowed
    refine ⟨hallowed, reply, hrun, ?_, ?_⟩
    · rw [Checked.run_eq hformed hsize hallowed, hrun]
      rfl
    · rintro front backing rfl
      obtain ⟨front', behind, hstate, -, hbecame⟩ := MemoryCall.handles_of_run hrun 0
      exact ⟨front', behind, hstate, hbecame⟩
  | behind hpassed hreceives ih =>
    exact ih hformed.2 hsize (Cache.passed?_allowed hformed.1 hallowed hpassed)

theorem size_chainAt_cache (front : Cache) (backing : Nat) (older : List Level) :
    (chainAt (.cache front backing :: older) 0).map Memory.size =
      (chainAt older backing).map Memory.size := by
  rw [chainAt, Option.map_map]
  rfl

/-- A memory of the same size in the place of another one leaves all memories as large as they were.
-/
theorem size_chainAt_replaceChain {levels : List Level} {distance : Nat} {memory after : Memory}
    (hchain : chainAt levels distance = some memory) (hdepth : after.depth = memory.depth)
    (hsize : after.size = memory.size) (place : Nat) :
    (chainAt (replaceChain levels distance after) place).map Memory.size =
      (chainAt levels place).map Memory.size := by
  induction levels generalizing distance memory after place with
  | nil => contradiction
  | cons level older ih =>
    cases distance with
    | succ distance =>
      rw [chainAt_succ] at hchain
      rw [replaceChain_succ]
      cases place with
      | succ place =>
        rw [chainAt_succ, chainAt_succ]
        exact ih hchain hdepth hsize place
      | zero =>
        cases level with
        | ram store => rfl
        | cache front backing =>
          rw [size_chainAt_cache, size_chainAt_cache]
          exact ih hchain hdepth hsize backing
    | zero =>
      cases level with
      | ram store =>
        obtain rfl := Option.some.inj hchain
        cases after with
        | cache front' rest => contradiction
        | ram store' =>
          cases place with
          | succ place => rfl
          | zero => exact congrArg some hsize
      | cache front backing =>
        obtain ⟨behind, hbehind, rfl⟩ := Option.map_eq_some_iff.mp hchain
        cases after with
        | ram store' => contradiction
        | cache front' rest =>
          have holder := ih hbehind (Nat.succ.inj hdepth) hsize
          rw [replaceChain]
          cases place with
          | succ place =>
            rw [chainAt_succ, chainAt_succ]
            exact holder place
          | zero =>
            rw [size_chainAt_cache, size_chainAt_cache]
            exact holder backing

namespace Formed

variable {levels : List Level}

theorem grounded (hformed : Formed levels) : Grounded levels := by
  induction levels with
  | nil => trivial
  | cons level older ih =>
    cases level with
    | ram store => exact ih hformed.2
    | cache front backing =>
      obtain ⟨⟨size, hsize, -⟩, holder⟩ := hformed
      obtain ⟨behind, hbehind, -⟩ := Option.map_eq_some_iff.mp hsize
      exact ⟨lt_of_chainAt hbehind, ih holder⟩

/-- Every memory of such levels is well-formed. -/
theorem wellFormed (hformed : Formed levels) {distance : Nat} {memory : Memory}
    (hchain : chainAt levels distance = some memory) :
    memory.WellFormed ∧ memory.size < UInt64.size := by
  induction levels generalizing distance memory with
  | nil => contradiction
  | cons level older ih =>
    cases distance with
    | succ distance =>
      rw [chainAt_succ] at hchain
      cases level with
      | ram store => exact ih hformed.2 hchain
      | cache front backing => exact ih hformed.2 hchain
    | zero =>
      cases level with
      | ram store =>
        obtain rfl := Option.some.inj hchain
        exact ⟨trivial, hformed.1⟩
      | cache front backing =>
        obtain ⟨behind, hbehind, rfl⟩ := Option.map_eq_some_iff.mp hchain
        obtain ⟨⟨size, hsize, hfits⟩, holder⟩ := hformed
        obtain ⟨hbacking, hlimit⟩ := ih holder hbehind
        rw [hbehind] at hsize
        obtain rfl := Option.some.inj hsize
        exact ⟨⟨hfits, hbacking⟩, hlimit⟩

/-- A well-formed memory of the same size may take the place of another one. -/
theorem replaceChain (hformed : Formed levels) {distance : Nat} {memory after : Memory}
    (hchain : chainAt levels distance = some memory) (hdepth : after.depth = memory.depth)
    (hsize : after.size = memory.size) (hafter : after.WellFormed) :
    Formed (replaceChain levels distance after) := by
  induction levels generalizing distance memory after with
  | nil => contradiction
  | cons level older ih =>
    cases distance with
    | succ distance =>
      rw [chainAt_succ] at hchain
      rw [replaceChain_succ]
      cases level with
      | ram store => exact ⟨hformed.1, ih hformed.2 hchain hdepth hsize hafter⟩
      | cache front backing =>
        refine ⟨?_, ih hformed.2 hchain hdepth hsize hafter⟩
        rw [size_chainAt_replaceChain hchain hdepth hsize]
        exact hformed.1
    | zero =>
      cases level with
      | ram store =>
        obtain rfl := Option.some.inj hchain
        cases after with
        | cache front' rest => contradiction
        | ram store' => exact ⟨Nat.lt_of_le_of_lt (Nat.le_of_eq hsize) hformed.1, hformed.2⟩
      | cache front backing =>
        obtain ⟨behind, hbehind, rfl⟩ := Option.map_eq_some_iff.mp hchain
        cases after with
        | ram store' => contradiction
        | cache front' rest =>
          have hrest : rest.size = behind.size := hsize
          have hbehindDepth := Nat.succ.inj hdepth
          refine ⟨⟨rest.size, ?_, hafter.1⟩, ih hformed.2 hbehind hbehindDepth hsize hafter.2⟩
          rw [size_chainAt_replaceChain hbehind hbehindDepth hsize, hbehind, hrest]
          rfl

end Formed

namespace Hierarchy

variable {hierarchy : Hierarchy}

theorem Reachable.formed (hreachable : hierarchy.Reachable) : Formed hierarchy.levels := by
  induction hreachable with
  | empty => trivial
  | ram hreachable hsize ih => exact ⟨hsize, ih⟩
  | cache hreachable hbacking hadd ih =>
    obtain ⟨front, hbuild, rfl, -⟩ := addCache_eq_ok hadd
    obtain ⟨hfits, -⟩ := Cache.build_eq_ok hbuild
    refine ⟨⟨_, ?_, hfits⟩, ih⟩
    rw [chainAt_memory ih.grounded hbacking]
    rfl
  | call hreachable hlevel hcall ih =>
    obtain ⟨answer, hrun, hlast⟩ := bind_eq_ok hcall
    obtain rfl := Except.ok.inj hlast
    have hchain := chainAt_memory ih.grounded hlevel
    obtain ⟨hformed, hsize⟩ := MemoryCall.run_wellFormed (ih.wellFormed hchain).1 hrun
    rw [Reply.lift, replace, if_pos hlevel]
    exact ih.replaceChain hchain (MemoryCall.run_accessOf hrun).depth_eq hsize hformed

/-- Whatever RAM and caches there are and whatever was done with them, a call that a level may be
asked makes every level behind it receive only calls that it may be asked, and all of them are
answered. -/
theorem keeps_contracts (hreachable : hierarchy.Reachable) {number : Nat}
    (hnumber : number < hierarchy.next) {call : MemoryCall}
    (hallowed : call.Allowed (hierarchy.memory number).size) {level : Memory}
    {received : MemoryCall} (hreceives : Receives (hierarchy.memory number) call level received) :
    received.KeptBy level := by
  have hformed := hreachable.formed
  obtain ⟨hmemory, hsize⟩ := hformed.wellFormed (chainAt_memory hformed.grounded hnumber)
  exact hreceives.keptBy hmemory hsize hallowed

/-- Two caches in front of 100 words: the line of the last word, which the memory cuts short, is
brought in through both. -/
theorem keeps_contracts_short_line :
    ∃ (hierarchy : Hierarchy) (store : Ram), hierarchy.Reachable ∧ 2 < hierarchy.next ∧
      (MemoryCall.read 99).Allowed (hierarchy.memory 2).size ∧
      Receives (hierarchy.memory 2) (.read 99) (.ram store) (.readBlock 64 36) ∧
      (MemoryCall.readBlock 64 36).KeptBy (.ram store) := by
  let store : Ram := { name := "RAM", words := Array.replicate 100 9 }
  let second : Cache := { name := "L2", capacity := 64, lines := Vector.replicate 1 {} }
  let first : Cache := { name := "L1", capacity := 64, lines := Vector.replicate 1 {} }
  let base : Hierarchy := addRam ⟨[]⟩ store
  have hsize : (base.memory 0).size = 100 := Array.size_replicate
  have hsecond : Cache.build "L2" {} 64 (base.memory 0).size = .ok second := by
    rw [hsize]
    rfl
  have hfirst : Cache.build "L1" {} 64 ((base.withFront second 0).memory 1).size = .ok first := by
    rw [show ((base.withFront second 0).memory 1).size = 100 from hsize]
    rfl
  let tree : Hierarchy := (base.withFront second 0).withFront first 1
  have htree : tree.Reachable :=
    .cache (.cache (.ram .empty (by decide)) (by decide) (addCache_of_build hsecond)) (by decide)
      (addCache_of_build hfirst)
  have hallowed : (MemoryCall.read 99).Allowed (tree.memory 2).size := by decide
  have hnear : first.passed? store.size (.read 99) = some (.readBlock 64 36) := by decide +kernel
  have hfar : second.passed? store.size (.readBlock 64 36) = some (.readBlock 64 36) := by
    decide +kernel
  have hreceives : Receives (tree.memory 2) (.read 99) (.ram store) (.readBlock 64 36) :=
    .behind hnear (.behind hfar (.top _ _))
  exact ⟨tree, store, htree, by decide, hallowed, hreceives,
    keeps_contracts htree (by decide) hallowed hreceives⟩

end Hierarchy

end A64Machine
