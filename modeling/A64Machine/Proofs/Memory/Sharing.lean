import Mathlib.Data.List.Forall2
import A64Machine.Proofs.Execution.Reachable
import A64Machine.Proofs.Memory.Levels

/-!
Two caches in front of one memory.  A write pushes its whole line, so it would undo what was written
through the other cache to a line of which this one holds an old copy; as long as nobody writes to a
line that the other cache holds, there is no old copy, and the two caches answer together like the
words of the memory alone.
-/

namespace A64Machine

/-- The address of the first word that a call writes, if it writes any. -/
def MemoryCall.written? : MemoryCall → Option Nat
  | .write address _ => some address
  | .writeBlock start data => if data.isEmpty then none else some start
  | .read _ => none
  | .readBlock _ _ => none
  | .clear _ => none

def Memory.holdsLine : Memory → Nat → Bool
  | .ram _, _ => false
  | .cache front _, address => front.isResident address

/-- The two caches that stand in front of a memory, in the order in which they were added. -/
inductive Client where
  | first | second
  deriving Repr, DecidableEq

namespace Client

def other : Client → Client
  | .first => .second
  | .second => .first

def level (base : Nat) : Client → Nat
  | .first => base
  | .second => base + 1

def update (caches : Client → Cache) (client : Client) (front : Cache) : Client → Cache :=
  fun user => if user = client then front else caches user

variable (caches : Client → Cache) (client : Client) (front : Cache)

theorem update_self : update caches client front client = front := if_pos rfl

theorem update_other : update caches client front client.other = caches client.other := by
  cases client <;> rfl

theorem eq_or_eq_other (client user : Client) : user = client ∨ user = client.other := by
  cases client <;> cases user <;> simp [other]

end Client

/-- A call of one of the two clients. -/
structure ClientCall where
  client : Client
  call : MemoryCall
  deriving Repr, DecidableEq

namespace Hierarchy

/-- Makes the calls of two clients in order.  For each there is what it returns, and the hierarchy
after it. -/
def serve (base : Nat) : List ClientCall → Hierarchy →
    Except Violation (List (List Word × Hierarchy))
  | [], _ => pure []
  | ⟨client, call⟩ :: rest, hierarchy => do
    let reply ← hierarchy.call (client.level base) call.run
    let later ← serve base rest reply.state
    pure ((reply.value, reply.state) :: later)

/-- Whether no client writes to a line that the other one's cache holds at that moment. -/
def undisputed (base : Nat) : List ClientCall → Hierarchy → Bool
  | [], _ => true
  | ⟨client, call⟩ :: rest, hierarchy =>
    !call.written?.any (hierarchy.memory (client.other.level base)).holdsLine &&
      match hierarchy.call (client.level base) call.run with
      | .ok reply => undisputed base rest reply.state
      | .error _ => true

/-- Whether a hierarchy shows the given words at the shared level and in both caches in front of it:
they are the RAM words, the shared level reads them, and a resident word is a copy of one. -/
structure Shows (hierarchy : Hierarchy) (shared base : Nat) (words : List Word) : Prop where
  ramWords_eq : (hierarchy.memory shared).ramWords.toList = words
  read_eq (address : Nat) (word : Word) (hword : words[address]? = some word) :
    ∃ reply, (hierarchy.memory shared).read address = .ok reply ∧ reply.value = word
  resident (client : Client) : ∃ front,
    hierarchy.memory (client.level base) = .cache front (hierarchy.memory shared) ∧
      ∀ address word, front.resident words.length address = some word →
        words[address]? = some word

end Hierarchy

namespace Cache

variable {front : Cache}

/-- A cache agrees with the words behind it after a call that somebody else made there, unless the
call wrote to a line that the cache holds. -/
theorem Mirrors.onArray {words : Array Word} (hmirrors : front.Mirrors words)
    (hfits : front.Fits words.size) {call : MemoryCall} (hallowed : call.Allowed words.size)
    (hother : ¬call.written?.any front.isResident) :
    front.Mirrors (call.onArray words.toList).2.toArray := by
  cases call with
  | read address => exact hmirrors
  | readBlock start count => exact hmirrors
  | clear depth => exact hmirrors
  | write address value =>
    have hline : address % 64 + [value].length ≤ 64 := by
      simp only [List.length_singleton]
      omega
    rw [MemoryCall.onArray, MemoryCall.toArray_set hallowed]
    exact hmirrors.bypass hfits hother hline
  | writeBlock start data =>
    rw [MemoryCall.onArray, ← toList_splice hallowed.1]
    cases data with
    | nil => simpa using hmirrors
    | cons word rest => exact hmirrors.bypass hfits hother hallowed.2

/-- A resident word of a cache that agrees with the words behind it is a copy of one of them. -/
theorem Mirrors.getElem?_of_resident {words : Array Word} (hmirrors : front.Mirrors words)
    (hfits : front.Fits words.size) {address : Nat} {word : Word}
    (hword : front.resident words.size address = some word) : words[address]? = some word := by
  unfold resident at hword
  split at hword
  next hheld =>
    rw [isHit, Bool.and_eq_true] at hheld
    rw [← hmirrors.data hfits hheld.2.1 hheld.1]
    exact hword
  next => contradiction

end Cache

namespace Hierarchy

variable {older : Hierarchy} {shared : Nat} {memory : Memory} {caches : Client → Cache}

/-- The hierarchy whose two newest levels are the caches of the two clients, both in front of level
`shared`. -/
def withClients (older : Hierarchy) (shared : Nat) (caches : Client → Cache) : Hierarchy :=
  (older.withFront (caches .first) shared).withFront (caches .second) shared

theorem memory_shared (hshared : older.memory? shared = some memory) :
    (older.withClients shared caches).memory shared = memory := by
  have hlt := lt_next_of_memory? hshared
  apply memory_eq
  rw [withClients, memory?_withFront _ _ (Nat.lt_succ_of_lt hlt), memory?_withFront _ _ hlt]
  exact hshared

theorem memory_level (hshared : older.memory? shared = some memory) (client : Client) :
    (older.withClients shared caches).memory (client.level older.next) =
      .cache (caches client) memory := by
  have hlt := lt_next_of_memory? hshared
  apply memory_eq
  cases client with
  | first =>
    rw [withClients, Client.level, memory?_withFront _ _ (Nat.lt_succ_self _),
      memory?_withFront_next _ hlt, hshared]
    rfl
  | second =>
    rw [withClients, Client.level, ← next_withFront older (caches .first) shared,
      memory?_withFront_next _ (Nat.lt_succ_of_lt hlt), memory?_withFront _ _ hlt, hshared]
    rfl

/-- A call of one client changes its cache and the shared memory. -/
theorem replace_level (hshared : older.memory? shared = some memory) (client : Client)
    (front : Cache) (after : Memory) :
    (older.withClients shared caches).replace (client.level older.next) (.cache front after) =
      (older.replace shared after).withClients shared (Client.update caches client front) := by
  have hlt := lt_next_of_memory? hshared
  cases client with
  | first =>
    rw [withClients, Client.level, replace_withFront _ _ (Nat.lt_succ_self _),
      replace_withFront_next _ _ hlt]
    rfl
  | second =>
    rw [withClients, Client.level, ← next_withFront older (caches .first) shared,
      replace_withFront_next _ _ (Nat.lt_succ_of_lt hlt), replace_withFront _ _ hlt]
    rfl

end Hierarchy

/-- A memory and the caches in front of it, all of which agree with the RAM words. -/
structure Memory.Agrees (memory : Memory) (caches : Client → Cache) : Prop where
  wellFormed : memory.WellFormed
  coherent : memory.Coherent
  fits (client : Client) : (caches client).Fits memory.size
  mirrors (client : Client) : (caches client).Mirrors memory.ramWords

/-- A call of one client is answered by the RAM words, and both caches agree with them afterwards:
its own cache as the top of a chain, the other one because it does not hold the line. -/
theorem Memory.Agrees.run {memory : Memory} {caches : Client → Cache}
    (hagrees : memory.Agrees caches) (client : Client) {call : MemoryCall}
    (hallowed : call.Allowed memory.size)
    (hother : ¬call.written?.any (caches client.other).isResident) :
    ∃ front after events,
      call.run (.cache (caches client) memory) =
        .ok ⟨(call.onArray memory.ramWords.toList).1, .cache front after, events⟩ ∧
      after.depth = memory.depth ∧ after.size = memory.size ∧
      after.ramWords = (call.onArray memory.ramWords.toList).2.toArray ∧
      after.Agrees (Client.update caches client front) := by
  have hformed : (Memory.cache (caches client) memory).WellFormed :=
    ⟨hagrees.fits client, hagrees.wellFormed⟩
  have hcoherent : (Memory.cache (caches client) memory).Coherent :=
    ⟨hagrees.mirrors client, hagrees.coherent⟩
  obtain ⟨⟨value, state, events⟩, hrun, hserves⟩ := MemoryCall.run_serves hformed hallowed
  obtain rfl : value = _ := hserves.value_eq hcoherent
  have hdepth := (MemoryCall.run_accessOf hrun).depth_eq
  cases state with
  | ram store => contradiction
  | cache front after =>
    have hsize : after.size = memory.size := hserves.size_eq
    have hwords : after.ramWords = (call.onArray memory.ramWords.toList).2.toArray :=
      hserves.ramWords_eq hcoherent
    obtain ⟨hfits, hafter⟩ := hserves.wellFormed
    obtain ⟨hmirrors, hbehind⟩ := hserves.coherent hcoherent
    refine ⟨front, after, events, hrun, Nat.succ.inj hdepth, hsize, hwords, hafter, hbehind, ?_, ?_⟩
    · intro user
      rcases client.eq_or_eq_other user with rfl | rfl
      · rw [Client.update_self]
        exact hfits
      · rw [Client.update_other, hsize]
        exact hagrees.fits _
    · intro user
      rcases client.eq_or_eq_other user with rfl | rfl
      · rw [Client.update_self]
        exact hmirrors
      · rw [Client.update_other, hwords]
        rw [← memory.size_ramWords] at hallowed
        refine (hagrees.mirrors client.other).onArray ?_ hallowed hother
        rw [memory.size_ramWords]
        exact hagrees.fits _

namespace Hierarchy

variable {older : Hierarchy} {shared : Nat} {memory : Memory} {caches : Client → Cache}

theorem shows_withClients (hshared : older.memory? shared = some memory)
    (hagrees : memory.Agrees caches) :
    (older.withClients shared caches).Shows shared older.next memory.ramWords.toList := by
  refine ⟨?_, ?_, fun client => ⟨caches client, ?_, ?_⟩⟩
  · rw [memory_shared hshared]
  · intro address word hword
    rw [memory_shared hshared]
    have hin : address < memory.size := by
      rw [← memory.size_ramWords]
      exact (List.getElem?_eq_some_iff.mp hword).1
    obtain ⟨reply, hread, hserves⟩ := memory.read_serves hagrees.wellFormed hin
    refine ⟨reply, hread, ?_⟩
    rw [hserves.value_eq hagrees.coherent, ← Array.getElem?_toList, hword]
    rfl
  · rw [memory_shared hshared, memory_level hshared]
  · intro address word hword
    have hfits : (caches client).Fits memory.ramWords.size := by
      rw [memory.size_ramWords]
      exact hagrees.fits client
    rw [Array.length_toList] at hword
    rw [Array.getElem?_toList]
    exact (hagrees.mirrors client).getElem?_of_resident hfits hword

/-- Two caches that agree with the memory behind them answer like its words and go on to agree. -/
theorem serve_withClients (hshared : older.memory? shared = some memory)
    (hagrees : memory.Agrees caches) (calls : List ClientCall)
    (hallowed : ∀ call ∈ calls, call.call.Allowed memory.size)
    (hundisputed : (older.withClients shared caches).undisputed older.next calls = true) :
    ∃ results, serve older.next calls (older.withClients shared caches) = .ok results ∧
      List.Forall₂ (fun got expected =>
        got.1 = expected.1 ∧ got.2.Shows shared older.next expected.2) results
        (arrayTrace (calls.map (·.call)) memory.ramWords.toList) := by
  -- One call changes the shared memory and one cache; that all three agree carries the induction.
  induction calls generalizing older memory caches with
  | nil => exact ⟨[], rfl, .nil⟩
  | cons head rest ih =>
    obtain ⟨client, call⟩ := head
    have hcall : call.Allowed memory.size := hallowed _ List.mem_cons_self
    rw [undisputed, Bool.and_eq_true, memory_level hshared] at hundisputed
    obtain ⟨hother, hlater⟩ := hundisputed
    obtain ⟨front, after, events, hrun, hdepth, hsize, hwords, hafter⟩ :=
      hagrees.run client hcall (Bool.eq_false_iff.mp ((Bool.not_eq_true' _).mp hother))
    have hreply : (older.withClients shared caches).call (client.level older.next) call.run =
        .ok ⟨(call.onArray memory.ramWords.toList).1,
          (older.replace shared after).withClients shared (Client.update caches client front),
          events⟩ := by
      rw [Hierarchy.call, memory_level hshared, hrun, ← replace_level hshared]
      rfl
    rw [hreply] at hlater
    have hnext : (older.replace shared after).next = older.next := next_replace _ _ _
    have hnow := memory?_replace hshared hdepth
    have hrest : ∀ later ∈ rest, later.call.Allowed after.size := by
      intro later hlater
      rw [hsize]
      exact hallowed later (List.mem_cons_of_mem _ hlater)
    obtain ⟨results, hserve, hresults⟩ := ih hnow hafter hrest (by rw [hnext]; exact hlater)
    have hshows := shows_withClients hnow hafter
    rw [hnext] at hserve hresults hshows
    rw [hwords, List.toList_toArray] at hresults hshows
    refine ⟨((call.onArray memory.ramWords.toList).1, (older.replace shared after).withClients shared
      (Client.update caches client front)) :: results, ?_, .cons ⟨rfl, hshows⟩ hresults⟩
    rw [serve, hreply]
    simp only [bind, Except.bind, hserve]
    rfl

/-- Two caches in front of one memory, whatever their sizes, answer any interleaving of calls like
the words of the memory as long as neither writes to a line that the other one holds; after each
call the memory has those words, and so has each cache where it has any. -/
theorem two_caches_share {hierarchy one both : Hierarchy} {shared : Nat} {memory : Memory}
    (hshared : hierarchy.memory? shared = some memory) (hreachable : memory.Reachable)
    {firstName secondName : String} {firstPolicy secondPolicy : CachePolicy}
    {firstSize secondSize : Nat} {firstEvent secondEvent : Event}
    (hfirst : hierarchy.addCache firstName firstPolicy firstSize shared = .ok (one, firstEvent))
    (hsecond : one.addCache secondName secondPolicy secondSize shared = .ok (both, secondEvent))
    (calls : List ClientCall) (hallowed : ∀ call ∈ calls, call.call.Allowed memory.size)
    (hundisputed : both.undisputed hierarchy.next calls = true) :
    ∃ results, both.serve hierarchy.next calls = .ok results ∧
      List.Forall₂ (fun got expected =>
        got.1 = expected.1 ∧ got.2.Shows shared hierarchy.next expected.2) results
        (arrayTrace (calls.map (·.call)) memory.ramWords.toList) := by
  obtain ⟨first, hbuild, rfl, -⟩ := addCache_eq_ok hfirst
  obtain ⟨second, hbuild', rfl, -⟩ := addCache_eq_ok hsecond
  have hsame : (hierarchy.withFront first shared).memory shared = memory := by
    apply memory_eq
    rw [memory?_withFront _ _ (lt_next_of_memory? hshared)]
    exact hshared
  rw [memory_eq hshared] at hbuild
  rw [hsame] at hbuild'
  let caches : Client → Cache
    | .first => first
    | .second => second
  have hagrees : memory.Agrees caches := by
    obtain ⟨hformed, hcoherent⟩ := hreachable.coherent
    refine ⟨hformed, hcoherent, fun client => ?_, fun client => ?_⟩
    · cases client with
      | first => exact (Cache.build_eq_ok hbuild).1
      | second => exact (Cache.build_eq_ok hbuild').1
    · cases client with
      | first => exact Cache.mirrors_of_empty _ (Cache.build_eq_ok hbuild).2
      | second => exact Cache.mirrors_of_empty _ (Cache.build_eq_ok hbuild').2
  exact serve_withClients hshared hagrees calls hallowed hundisputed

/-- Caches of one and of two lines in front of a third one, over 200 words.  The first client drops
its line before the second one writes there, and brings the line in again afterwards. -/
theorem two_caches_share_handover :
    let calls : List ClientCall := [⟨.first, .write 70 1⟩, ⟨.first, .read 71⟩, ⟨.first, .write 71 2⟩,
      ⟨.second, .readBlock 192 8⟩, ⟨.first, .clear 0⟩, ⟨.second, .writeBlock 70 [3, 4]⟩,
      ⟨.first, .read 70⟩, ⟨.first, .read 130⟩, ⟨.second, .read 70⟩]
    ∃ (hierarchy one both : Hierarchy) (memory : Memory) (firstEvent secondEvent : Event),
      hierarchy.memory? 1 = some memory ∧ memory.Reachable ∧ memory.size = 200 ∧
      hierarchy.addCache "A" {} 64 1 = .ok (one, firstEvent) ∧
      one.addCache "B" {} 128 1 = .ok (both, secondEvent) ∧
      both.undisputed hierarchy.next calls = true ∧
      ∃ results, both.serve hierarchy.next calls = .ok results ∧
        List.Forall₂ (fun got expected =>
          got.1 = expected.1 ∧ got.2.Shows 1 hierarchy.next expected.2) results
          (arrayTrace (calls.map (·.call)) (List.replicate 200 9)) := by
  intro calls
  let store : Ram := { name := "RAM", words := Array.replicate 200 9 }
  let third : Cache := { name := "L2", capacity := 128, lines := Vector.replicate 2 {} }
  let first : Cache := { name := "A", capacity := 64, lines := Vector.replicate 1 {} }
  let second : Cache := { name := "B", capacity := 128, lines := Vector.replicate 2 {} }
  let hierarchy := withFront ⟨[.ram store]⟩ third 0
  have hsize : store.size = 200 := Array.size_replicate
  have hthird : (Memory.ram store).withCache "L2" {} 128 = .ok (.cache third (.ram store)) := by
    rw [Memory.withCache, Memory.size, hsize]
    rfl
  have hreachable : (Memory.cache third (.ram store)).Reachable := .cache (.ram store) hthird
  have hfirst : Cache.build "A" {} 64 (hierarchy.memory 1).size = .ok first := by
    rw [show (hierarchy.memory 1).size = 200 from hsize]
    rfl
  have hsecond : Cache.build "B" {} 128 ((hierarchy.withFront first 1).memory 1).size =
      .ok second := by
    rw [show ((hierarchy.withFront first 1).memory 1).size = 200 from hsize]
    rfl
  have hundisputed : undisputed hierarchy.next calls
      ((hierarchy.withFront first 1).withFront second 1) = true := by decide +kernel
  have hallowed : ∀ call ∈ calls, call.call.Allowed (Memory.cache third (.ram store)).size := by
    rw [Memory.size, Memory.size, hsize]
    decide
  refine ⟨hierarchy, _, _, _, _, _, rfl, hreachable, hsize, addCache_of_build hfirst,
    addCache_of_build hsecond, hundisputed, ?_⟩
  have hshare := two_caches_share rfl hreachable (addCache_of_build hfirst)
    (addCache_of_build hsecond) calls hallowed hundisputed
  rw [Memory.ramWords, Memory.ramWords, Array.toList_replicate] at hshare
  exact hshare

end Hierarchy

end A64Machine
