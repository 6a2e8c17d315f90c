import A64Machine.Proofs.Memory.Service

/-!
A chain of caches in front of RAM answers every sequence of calls as the flat array of its RAM words
would, and the RAM words are that array after every call.
-/

namespace A64Machine

/-- A call on the top level of a memory, or a clear of the level `depth` levels below it. -/
inductive MemoryCall where
  | read (address : Nat)
  | write (address : Nat) (value : Word)
  | readBlock (start count : Nat)
  | writeBlock (start : Nat) (data : List Word)
  | clear (depth : Nat)
  deriving Repr, DecidableEq

namespace MemoryCall

/-- A call keeps the contract of a memory of `size` words when it lies inside the memory and inside
one line. -/
def Allowed (size : Nat) : MemoryCall → Prop
  | .read address | .write address _ => address < size
  | .readBlock start count => start + count ≤ size ∧ start % lineSize + count ≤ lineSize
  | .writeBlock start data =>
    start + data.length ≤ size ∧ start % lineSize + data.length ≤ lineSize
  | .clear _ => True

instance (size : Nat) (call : MemoryCall) : Decidable (call.Allowed size) := by
  cases call <;> simp only [Allowed] <;> infer_instance

/-- Makes a call; the answer is the list of the words it returns. -/
def run (memory : Memory) : MemoryCall → Except Violation (Reply Memory (List Word))
  | .read address => do
    let reply ← memory.read address
    pure ⟨[reply.value], reply.state, reply.events⟩
  | .write address value => do
    let reply ← memory.write address value
    pure ⟨[], reply.state, reply.events⟩
  | .readBlock start count => memory.readBlock start count
  | .writeBlock start data => do
    let reply ← memory.writeBlock start data
    pure ⟨[], reply.state, reply.events⟩
  | .clear depth => do
    let reply ← Memory.atDepth (fun level => .ok ⟨(), level.clear, []⟩) memory depth
    pure ⟨[], reply.state, reply.events⟩

/-- What a flat array of words answers to a call, and the array afterwards. -/
def onArray (words : List Word) : MemoryCall → List Word × List Word
  | .read address => (words[address]?.toList, words)
  | .write address value => ([], words.set address value)
  | .readBlock start count => ((words.drop start).take count, words)
  | .writeBlock start data =>
    ([], words.take start ++ data ++ words.drop (start + data.length))
  | .clear _ => ([], words)

theorem toArray_set {words : Array Word} {address : Nat} {value : Word}
    (hin : address < words.size) :
    (words.toList.set address value).toArray = splice words address [value] := by
  apply Array.toList_inj.1
  rw [toList_splice hin, List.set_eq_take_append_cons_drop]
  simp [hin]

/-- One call that keeps the contract. -/
theorem run_serves {memory : Memory} (hformed : memory.WellFormed) {call : MemoryCall}
    (hallowed : call.Allowed memory.size) :
    ∃ reply, call.run memory = .ok reply ∧
      memory.Serves reply (call.onArray memory.ramWords.toList).1
        (call.onArray memory.ramWords.toList).2.toArray := by
  cases call with
  | read address =>
    obtain ⟨reply, hreply, hserves⟩ := memory.read_serves hformed hallowed
    refine ⟨⟨[reply.value], reply.state, reply.events⟩, ?_, hserves.wellFormed, hserves.size_eq,
      ?_, hserves.coherent, ?_⟩
    · simp only [run, hreply]
      rfl
    · intro hcoherent
      have hin : address < memory.ramWords.size := by rwa [Memory.size_ramWords]
      simp [hserves.value_eq hcoherent, onArray, hin]
    · simpa [onArray] using hserves.ramWords_eq
  | write address value =>
    obtain ⟨reply, hreply, hserves⟩ := memory.write_serves hformed value hallowed
    refine ⟨⟨[], reply.state, reply.events⟩, ?_, hserves.wellFormed, hserves.size_eq,
      fun _ => rfl, hserves.coherent, ?_⟩
    · simp only [run, hreply]
      rfl
    · have hin : address < memory.ramWords.size := by rwa [Memory.size_ramWords]
      rw [onArray, toArray_set hin]
      exact hserves.ramWords_eq
  | readBlock start count =>
    obtain ⟨reply, hreply, hserves⟩ := memory.readBlock_serves hformed hallowed.1 hallowed.2
    rw [toList_slice] at hserves
    refine ⟨reply, hreply, ?_⟩
    simpa [onArray] using hserves
  | writeBlock start data =>
    obtain ⟨reply, hreply, hserves⟩ := memory.writeBlock_serves hformed hallowed.1 hallowed.2
    refine ⟨⟨[], reply.state, reply.events⟩, ?_, hserves.wellFormed, hserves.size_eq,
      fun _ => rfl, hserves.coherent, ?_⟩
    · simp only [run, hreply]
      rfl
    · have hin : start + data.length ≤ memory.ramWords.size := by
        rw [Memory.size_ramWords]
        exact hallowed.1
      rw [onArray, ← toList_splice hin]
      exact hserves.ramWords_eq
  | clear depth =>
    obtain ⟨reply, hreply, hserves⟩ := memory.clear_serves hformed depth
    refine ⟨⟨[], reply.state, reply.events⟩, ?_, hserves.wellFormed, hserves.size_eq,
      fun _ => rfl, hserves.coherent, ?_⟩
    · simp only [run, hreply]
      rfl
    · simpa [onArray] using hserves.ramWords_eq

end MemoryCall

namespace Memory

/-- A memory built from RAM by putting caches in front of it, one after the other. -/
inductive Built : Memory → Prop
  | ram (store : Ram) : Built (.ram store)
  | cache {backing memory : Memory} {name : String} {policy : CachePolicy} {size : Nat}
      (hbacking : Built backing) (hbuild : backing.withCache name policy size = .ok memory) :
      Built memory

theorem withCache_eq_ok {backing memory : Memory} {name : String} {policy : CachePolicy}
    {size : Nat} (hbuild : backing.withCache name policy size = .ok memory) :
    ∃ front, Cache.build name policy size backing.size = .ok front ∧
      .cache front backing = memory := by
  unfold withCache at hbuild
  cases hfront : Cache.build name policy size backing.size with
  | error cause =>
    rw [hfront] at hbuild
    contradiction
  | ok front =>
    rw [hfront] at hbuild
    exact ⟨front, rfl, Except.ok.inj hbuild⟩

theorem coherent_withCache {backing memory : Memory} {name : String} {policy : CachePolicy}
    {size : Nat} (hformed : backing.WellFormed) (hcoherent : backing.Coherent)
    (hbuild : backing.withCache name policy size = .ok memory) :
    memory.WellFormed ∧ memory.Coherent := by
  obtain ⟨front, hfront, rfl⟩ := withCache_eq_ok hbuild
  obtain ⟨hfits, hempty⟩ := Cache.build_eq_ok hfront
  exact ⟨⟨hfits, hformed⟩, Cache.mirrors_of_empty _ hempty, hcoherent⟩

theorem Built.coherent {memory : Memory} (hbuilt : memory.Built) :
    memory.WellFormed ∧ memory.Coherent := by
  induction hbuilt with
  | ram store => exact ⟨trivial, trivial⟩
  | cache hbacking hbuild ih => exact coherent_withCache ih.1 ih.2 hbuild

/-- Makes calls in order.  For each there is what it returns and the RAM words after it. -/
def trace : List MemoryCall → Memory → Except Violation (List (List Word × List Word))
  | [], _ => pure []
  | call :: rest, memory => do
    let reply ← call.run memory
    let later ← trace rest reply.state
    pure ((reply.value, reply.state.ramWords.toList) :: later)

end Memory

/-- What a flat array answers to the same calls, with the array after each. -/
def arrayTrace : List MemoryCall → List Word → List (List Word × List Word)
  | [], _ => []
  | call :: rest, words =>
    let after := call.onArray words
    after :: arrayTrace rest after.2

/-- The trace of a coherent chain is the trace of its RAM words. -/
theorem Memory.trace_of_coherent {memory : Memory} (hformed : memory.WellFormed)
    (hcoherent : memory.Coherent) (calls : List MemoryCall)
    (hallowed : ∀ call ∈ calls, call.Allowed memory.size) :
    memory.trace calls = .ok (arrayTrace calls memory.ramWords.toList) := by
  induction calls generalizing memory with
  | nil => rfl
  | cons call rest ih =>
    obtain ⟨reply, hreply, hserves⟩ :=
      MemoryCall.run_serves hformed (hallowed call List.mem_cons_self)
    have hrest : ∀ later ∈ rest, later.Allowed reply.state.size := by
      intro later hlater
      rw [hserves.size_eq]
      exact hallowed later (List.mem_cons_of_mem call hlater)
    have htrace := ih hserves.wellFormed (hserves.coherent hcoherent) hrest
    simp only [trace, arrayTrace, hreply, bind, Except.bind, htrace,
      hserves.value_eq hcoherent, hserves.ramWords_eq hcoherent]
    rfl

/-- Caches in front of RAM, however many and of whatever sizes, answer like the RAM words alone, and
the RAM words are never behind. -/
theorem Memory.trace_eq_arrayTrace {memory : Memory} (hbuilt : memory.Built)
    (calls : List MemoryCall) (hallowed : ∀ call ∈ calls, call.Allowed memory.size) :
    memory.trace calls = .ok (arrayTrace calls memory.ramWords.toList) :=
  Memory.trace_of_coherent hbuilt.coherent.1 hbuilt.coherent.2 calls hallowed

/-- Two caches in front of 100 words: the second line of the memory is cut short, and both lines
compete for the only slot of each cache. -/
theorem Memory.trace_eq_arrayTrace_two_caches :
    ∃ memory : Memory, memory.Built ∧ memory.size = 100 ∧
      memory.trace [.read 70, .write 99 5, .readBlock 64 36, .clear 1, .writeBlock 62 [1, 2],
        .readBlock 0 64, .write 63 7, .clear 0, .read 63, .readBlock 100 0] =
      .ok (arrayTrace [.read 70, .write 99 5, .readBlock 64 36, .clear 1, .writeBlock 62 [1, 2],
        .readBlock 0 64, .write 63 7, .clear 0, .read 63, .readBlock 100 0]
          (List.replicate 100 9)) := by
  let store : Ram := { name := "RAM", words := Array.replicate 100 9 }
  let second : Memory :=
    .cache { name := "L2", capacity := 64, lines := Vector.replicate 1 {} } (.ram store)
  let first : Memory :=
    .cache { name := "L1", capacity := 64, lines := Vector.replicate 1 {} } second
  have hsecond : (Memory.ram store).withCache "L2" {} 64 = .ok second := rfl
  have hfirst : second.withCache "L1" {} 64 = .ok first := rfl
  have hbuilt : first.Built := .cache (.cache (.ram store) hsecond) hfirst
  exact ⟨first, hbuilt, rfl, Memory.trace_eq_arrayTrace hbuilt _ (by decide)⟩

end A64Machine
