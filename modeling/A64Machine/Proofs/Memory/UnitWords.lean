import A64Machine.UnitMemory
import A64Machine.Proofs.Memory.Service

/-!
The flat view of a unit's memory: the words of its stack and the RAM words, with nothing in between.
Fetches, loads and stores are defined on the flat view alone, and a unit whose caches agree with RAM
answers as its flat view does.
-/

namespace A64Machine

/-- The fault that an answer is. -/
def faultOf {α : Type} : Except FaultCode α → Option FaultCode
  | .error cause => some cause
  | .ok _ => none

namespace AddressMap

def fault? (map : AddressMap) (address : Doubleword) (bytes : Nat) : Option FaultCode :=
  faultOf (map.resolve address bytes)

def regionWords (map : AddressMap) : Region → Nat
  | .stack => map.stackWords
  | .hierarchy => map.hierarchyWords

/-- Both words of a resolved access lie in its region. -/
theorem resolve_in_range {map : AddressMap} {address : Doubleword} {bytes : Nat}
    {location : Location} (hresolve : map.resolve address bytes = .ok location)
    (hbytes : 0 < bytes) :
    location.word < map.regionWords location.region ∧
      (wordBytes < bytes → location.word + 1 < map.regionWords location.region) := by
  simp only [resolve] at hresolve
  split at hresolve
  · contradiction
  split at hresolve
  · contradiction
  rename_i haligned hfits
  simp only [wordBytes, Decidable.not_not] at haligned ⊢
  split at hresolve
  · split at hresolve
    · contradiction
    rename_i hwindow htop
    obtain rfl := Except.ok.inj hresolve
    simp only [stackTop, stackBase, wordBytes, regionWords] at hwindow htop ⊢
    omega
  · split at hresolve
    · contradiction
    rename_i hwords
    obtain rfl := Except.ok.inj hresolve
    simp only [wordBytes, regionWords] at hwords ⊢
    omega

end AddressMap

/-- The words that a unit can see: those of its private stack and those of RAM. -/
@[ext] structure UnitWords where
  stack : Array Word
  ram : Array Word
  deriving Repr, DecidableEq

namespace UnitWords

def map (words : UnitWords) : AddressMap :=
  ⟨words.stack.size, words.ram.size⟩

def wordAt (words : UnitWords) (location : Location) : Word :=
  match location.region with
  | .stack => words.stack[location.word]?.getD 0
  | .hierarchy => words.ram[location.word]?.getD 0

def setWord (words : UnitWords) (location : Location) (value : Word) : UnitWords :=
  match location.region with
  | .stack => { words with stack := splice words.stack location.word [value] }
  | .hierarchy => { words with ram := splice words.ram location.word [value] }

def next (location : Location) : Location :=
  { location with word := location.word + 1 }

def fetch (words : UnitWords) (pc : Doubleword) : Except FaultCode Word :=
  if pc.toNat % wordBytes ≠ 0 then .error .unalignedAccess
  else if words.ram.size ≤ pc.toNat / wordBytes then .error .dataAbort
  else .ok (words.ram[pc.toNat / wordBytes]?.getD 0)

def load (words : UnitWords) (address : Doubleword) (bytes : Nat) : Except FaultCode Doubleword :=
  match words.map.resolve address bytes with
  | .error cause => .error cause
  | .ok location =>
    if bytes ≤ wordBytes then .ok ((words.wordAt location).setWidth 64)
    else .ok (words.wordAt (next location) ++ words.wordAt location)

/-- The words after a store; nothing changes where there is no memory. -/
def store (words : UnitWords) (address : Doubleword) (bytes : Nat) (value : Doubleword) :
    UnitWords :=
  match words.map.resolve address bytes with
  | .error _ => words
  | .ok location =>
    let low := words.setWord location (value.setWidth 32)
    if bytes ≤ wordBytes then low
    else low.setWord (next location) ((value >>> 32).setWidth 32)

def loadImage (words : UnitWords) (image : List Word) : UnitWords :=
  { words with ram := splice words.ram 0 image }

def resetStack (words : UnitWords) : UnitWords :=
  { words with stack := Array.replicate words.stack.size 0 }

end UnitWords

namespace UnitMemory

/-- The flat view of a unit's memory. -/
def words (memory : UnitMemory) : UnitWords :=
  ⟨memory.stack.words, memory.hierarchy.ramWords⟩

@[simp] theorem map_words (memory : UnitMemory) : memory.words.map = memory.map := by
  simp only [UnitWords.map, words, map, Memory.size_ramWords]
  rfl

/-- Every cache of the unit has a capacity that the memory behind it accepts. -/
def WellFormed (memory : UnitMemory) : Prop :=
  memory.hierarchy.WellFormed

/-- Every cache of the unit agrees with RAM. -/
def Coherent (memory : UnitMemory) : Prop :=
  memory.hierarchy.Coherent

/-- What it amounts to that an access answers `answer` and leaves the memory `after`, where the flat
view answers `value` and becomes `words`. -/
structure Serves {α : Type} (memory : UnitMemory) (answer : α) (after : UnitMemory) (value : α)
    (words : UnitWords) : Prop where
  wellFormed : after.WellFormed
  map_eq : after.map = memory.map
  value_eq : memory.Coherent → answer = value
  coherent : memory.Coherent → after.Coherent
  words_eq : memory.Coherent → after.words = words

theorem serves_self {α : Type} {memory : UnitMemory} (hformed : memory.WellFormed) (value : α) :
    memory.Serves value memory value memory.words :=
  ⟨hformed, rfl, fun _ => rfl, id, fun _ => rfl⟩

/-- Two accesses one after the other, where the second may depend on what the first answers. -/
theorem Serves.bind {α β : Type} {memory middle after : UnitMemory} {first value : α} {second : β}
    {words : UnitWords} (flat : α → UnitWords → β × UnitWords)
    (hfirst : memory.Serves first middle value words)
    (hsecond : middle.Serves second after (flat first middle.words).1
      (flat first middle.words).2) :
    memory.Serves second after (flat value words).1 (flat value words).2 where
  wellFormed := hsecond.wellFormed
  map_eq := hsecond.map_eq.trans hfirst.map_eq
  value_eq hcoherent := by
    rw [hsecond.value_eq (hfirst.coherent hcoherent), hfirst.value_eq hcoherent,
      hfirst.words_eq hcoherent]
  coherent hcoherent := hsecond.coherent (hfirst.coherent hcoherent)
  words_eq hcoherent := by
    rw [hsecond.words_eq (hfirst.coherent hcoherent), hfirst.value_eq hcoherent,
      hfirst.words_eq hcoherent]

/-- The answer of an access, computed further. -/
theorem Serves.map {α β : Type} {memory after : UnitMemory} {answer value : α} {words : UnitWords}
    (f : α → β) (hserves : memory.Serves answer after value words) :
    memory.Serves (f answer) after (f value) words :=
  hserves.bind (fun a later => (f a, later)) (serves_self hserves.wellFormed _)

/-- An access that faults ends what depends on its value. -/
theorem Serves.error {α β : Type} {memory after : UnitMemory} {cause : FaultCode}
    {value : Except FaultCode α} {words : UnitWords}
    (hserves : memory.Serves (.error cause) after value words) (next : α → Except FaultCode β) :
    memory.Serves (.error cause) after (value >>= next) words where
  wellFormed := hserves.wellFormed
  map_eq := hserves.map_eq
  value_eq hcoherent := by
    rw [← hserves.value_eq hcoherent]
    rfl
  coherent := hserves.coherent
  words_eq := hserves.words_eq

/-- An access that answers a value, and what depends on the value. -/
theorem Serves.ok {α β : Type} {memory middle after : UnitMemory} {first : α}
    {second : Except FaultCode β} {value : Except FaultCode α}
    (hfirst : memory.Serves (.ok first) middle value memory.words)
    (next : UnitWords → α → Except FaultCode β)
    (hsecond : middle.Serves second after (next middle.words first) middle.words) :
    memory.Serves second after (value >>= next memory.words) memory.words :=
  hfirst.bind (fun answer words => (answer >>= next words, words)) hsecond

/-- A call on the hierarchy that is served there. -/
theorem onHierarchy_serves {α : Type} {memory : UnitMemory}
    (call : Memory → Except Violation (Reply Memory α)) {reply : Reply Memory α} {value : α}
    {ram : Array Word} (hreply : call memory.hierarchy = .ok reply)
    (hserves : memory.hierarchy.Serves reply value ram) :
    ∃ after, memory.onHierarchy call = .ok (reply.value, after) ∧
      memory.Serves reply.value after value { memory.words with ram } := by
  refine ⟨{ memory with
      hierarchy := reply.state, events := memory.events.appendList reply.events },
    ?_, hserves.wellFormed, ?_, hserves.value_eq, hserves.coherent, ?_⟩
  · simp only [onHierarchy, hreply]
    rfl
  · simp only [map, hserves.size_eq]
  · intro hcoherent
    simp only [words, hserves.ramWords_eq hcoherent]

/-- A call on the stack; a stack has no caches. -/
theorem onStack_serves {α : Type} {memory : UnitMemory} (hformed : memory.WellFormed)
    (call : Ram → Except Violation (Reply Ram α)) {reply : Reply Ram α}
    (hreply : call memory.stack = .ok reply)
    (hsize : reply.state.words.size = memory.stack.words.size) :
    ∃ after, memory.onStack call = .ok (reply.value, after) ∧
      memory.Serves reply.value after reply.value
        { memory.words with stack := reply.state.words } := by
  refine ⟨{ memory with
      stack := reply.state, events := memory.events.appendList reply.events },
    ?_, hformed, ?_, fun _ => rfl, id, fun _ => rfl⟩
  · simp only [onStack, hreply]
    rfl
  · simp only [map, Ram.size, hsize]

/-- Reading a word of a region answers the word of the flat view. -/
theorem readWord_serves {memory : UnitMemory} (hformed : memory.WellFormed) (location : Location)
    (hin : location.word < memory.map.regionWords location.region) :
    ∃ word after, memory.readWord location = .ok (word, after) ∧
      memory.Serves word after (memory.words.wordAt location) memory.words := by
  obtain ⟨region, word⟩ := location
  cases region with
  | stack =>
    have hread : memory.stack.read word =
        .ok ⟨memory.stack.words.getD word 0, memory.stack.record .read,
          [memory.stack.accessed .read word]⟩ := by
      simp only [Ram.read, checkRange_eq_ok (show word + 1 ≤ memory.stack.size from hin)]
      rfl
    obtain ⟨after, hcall, hserves⟩ := onStack_serves hformed (·.read word) hread rfl
    refine ⟨_, after, hcall, ?_⟩
    rw [Array.getD_eq_getD_getElem?] at hserves ⊢
    exact hserves
  | hierarchy =>
    obtain ⟨reply, hreply, hserves⟩ := memory.hierarchy.read_serves hformed hin
    obtain ⟨after, hcall, hafter⟩ := onHierarchy_serves (·.read word) hreply hserves
    exact ⟨_, after, hcall, hafter⟩

/-- Writing a word of a region writes it into the flat view. -/
theorem writeWord_serves {memory : UnitMemory} (hformed : memory.WellFormed) (location : Location)
    (value : Word) (hin : location.word < memory.map.regionWords location.region) :
    ∃ after, memory.writeWord location value = .ok ((), after) ∧
      memory.Serves () after () (memory.words.setWord location value) := by
  obtain ⟨region, word⟩ := location
  cases region with
  | stack =>
    have hwrite : memory.stack.write word value =
        .ok ⟨(), (memory.stack.withWords word [value]).record .write,
          [memory.stack.accessed .write word]⟩ := by
      simp only [Ram.write, checkRange_eq_ok (show word + 1 ≤ memory.stack.size from hin)]
      rfl
    exact onStack_serves hformed (·.write word value) hwrite (size_splice _ _ _)
  | hierarchy =>
    obtain ⟨reply, hreply, hserves⟩ := memory.hierarchy.write_serves hformed value hin
    exact onHierarchy_serves (·.write word value) hreply hserves

/-- A fetch answers as the flat view does. -/
theorem fetch_serves {memory : UnitMemory} (hformed : memory.WellFormed) (pc : Doubleword) :
    ∃ answer after, memory.fetch pc = .ok (answer, after) ∧
      memory.Serves answer after (memory.words.fetch pc) memory.words := by
  have hsize : memory.words.ram.size = memory.hierarchy.size := Memory.size_ramWords _
  unfold fetch UnitWords.fetch
  rw [hsize]
  split
  · exact ⟨_, memory, rfl, serves_self hformed _⟩
  split
  · exact ⟨_, memory, rfl, serves_self hformed _⟩
  rename_i hmapped
  obtain ⟨reply, hreply, hserves⟩ := memory.hierarchy.read_serves hformed (Nat.lt_of_not_le hmapped)
  obtain ⟨after, hcall, hafter⟩ :=
    onHierarchy_serves (·.read (pc.toNat / wordBytes)) hreply hserves
  refine ⟨.ok reply.value, after, ?_, hafter.map Except.ok⟩
  simp only [hcall]
  rfl

/-- A load answers as the flat view does, and whether it faults depends on the address map alone. -/
theorem load_serves {memory : UnitMemory} (hformed : memory.WellFormed) (address : Doubleword)
    {bytes : Nat} (hbytes : 0 < bytes) :
    ∃ answer after, memory.load address bytes = .ok (answer, after) ∧
      faultOf answer = memory.map.fault? address bytes ∧
      memory.Serves answer after (memory.words.load address bytes) memory.words := by
  unfold load UnitWords.load AddressMap.fault?
  rw [map_words]
  cases hresolve : memory.map.resolve address bytes with
  | error cause => exact ⟨_, memory, rfl, rfl, serves_self hformed _⟩
  | ok location =>
    obtain ⟨hlow, hhigh⟩ := AddressMap.resolve_in_range hresolve hbytes
    obtain ⟨low, middle, hread, hserves⟩ := readWord_serves hformed location hlow
    by_cases hword : bytes ≤ wordBytes
    · refine ⟨.ok (low.setWidth 64), middle, ?_, rfl, ?_⟩
      · simp only [hread, bind, Except.bind, hword, if_true]
        rfl
      · simp only [hword, if_true]
        exact hserves.map fun word => Except.ok (word.setWidth 64)
    · have hnext : location.word + 1 < middle.map.regionWords location.region := by
        rw [hserves.map_eq]
        exact hhigh (Nat.lt_of_not_le hword)
      obtain ⟨high, after, hread', hserves'⟩ :=
        readWord_serves hserves.wellFormed (UnitWords.next location) hnext
      refine ⟨.ok (high ++ low), after, ?_, rfl, ?_⟩
      · simp only [UnitWords.next] at hread'
        simp only [hread, bind, Except.bind, hword, if_false, hread']
        rfl
      · simp only [hword, if_false]
        exact hserves.bind (fun first words =>
          (Except.ok (words.wordAt (UnitWords.next location) ++ first), words))
          (hserves'.map fun word => Except.ok (word ++ low))

/-- A store that a probe accepts writes into the flat view. -/
theorem store_serves {memory : UnitMemory} (hformed : memory.WellFormed) {address : Doubleword}
    {bytes : Nat} (hbytes : 0 < bytes) (value : Doubleword)
    (hprobe : memory.map.fault? address bytes = none) :
    ∃ after, memory.store address bytes value = .ok after ∧
      memory.Serves () after () (memory.words.store address bytes value) := by
  unfold store UnitWords.store
  rw [map_words]
  unfold AddressMap.fault? at hprobe
  cases hresolve : memory.map.resolve address bytes with
  | error cause =>
    rw [hresolve] at hprobe
    contradiction
  | ok location =>
    obtain ⟨hlow, hhigh⟩ := AddressMap.resolve_in_range hresolve hbytes
    obtain ⟨middle, hwrite, hserves⟩ := writeWord_serves hformed location (value.setWidth 32) hlow
    by_cases hword : bytes ≤ wordBytes
    · refine ⟨middle, ?_, ?_⟩
      · simp only [hwrite, bind, Except.bind, hword, if_true]
        rfl
      · simp only [hword, if_true]
        exact hserves
    · have hnext : location.word + 1 < middle.map.regionWords location.region := by
        rw [hserves.map_eq]
        exact hhigh (Nat.lt_of_not_le hword)
      obtain ⟨after, hwrite', hserves'⟩ :=
        writeWord_serves hserves.wellFormed (UnitWords.next location)
          ((value >>> 32).setWidth 32) hnext
      refine ⟨after, ?_, ?_⟩
      · simp only [UnitWords.next] at hwrite'
        simp only [hwrite, bind, Except.bind, hword, if_false, hwrite']
        rfl
      · simp only [hword, if_false]
        exact hserves.bind (fun _ words =>
          ((), words.setWord (UnitWords.next location) ((value >>> 32).setWidth 32))) hserves'

/-- The lines from line `first` on write the part of the image that they cover. -/
theorem loadLines_serves (image : List Word) (count first : Nat) {memory : UnitMemory}
    (hformed : memory.WellFormed) (hfits : image.length ≤ memory.hierarchy.size)
    (hcount : (first + count) * 64 < image.length + 64) :
    ∃ after, loadLines image (List.range' first count) memory = (.ok (), after) ∧
      memory.Serves () after () { memory.words with
        ram := splice memory.words.ram (first * 64) ((image.drop (first * 64)).take (count * 64)) } := by
  induction count generalizing first memory with
  | zero =>
    refine ⟨memory, rfl, ?_⟩
    simp only [Nat.zero_mul, List.take_zero, splice_nil]
    exact serves_self hformed ()
  | succ count ih =>
    let line := (image.drop (first * 64)).take 64
    have hlength : line.length = min 64 (image.length - first * 64) := by
      simp [line]
    have hin : first * 64 + line.length ≤ memory.hierarchy.size := by omega
    have hline : first * 64 % 64 + line.length ≤ 64 := by omega
    obtain ⟨reply, hreply, hserves⟩ := memory.hierarchy.writeBlock_serves hformed hin hline
    obtain ⟨middle, hcall, hmiddle⟩ :=
      onHierarchy_serves (·.writeBlock (first * 64) line) hreply hserves
    have hsize : middle.hierarchy.size = memory.hierarchy.size :=
      congrArg AddressMap.hierarchyWords hmiddle.map_eq
    obtain ⟨after, hrest, hafter⟩ := ih (first + 1) hmiddle.wellFormed
      (by rwa [hsize]) (by omega)
    refine ⟨after, ?_, ?_⟩
    · simp only [List.range'_succ, loadLines, lineSize]
      simp only [line] at hcall
      simp only [hcall, hrest]
    · have hboth := hmiddle.bind (fun _ words => ((), { words with
        ram := splice words.ram ((first + 1) * 64)
          ((image.drop ((first + 1) * 64)).take (count * 64)) })) hafter
      have hsplit : (image.drop (first * 64)).take ((count + 1) * 64) =
          line ++ (image.drop ((first + 1) * 64)).take (count * 64) := by
        rw [Nat.succ_mul, Nat.add_comm, List.take_add, List.drop_drop, Nat.succ_mul]
      have hsplice : splice (splice memory.words.ram (first * 64) line) ((first + 1) * 64)
          ((image.drop ((first + 1) * 64)).take (count * 64)) =
          splice memory.words.ram (first * 64) ((image.drop (first * 64)).take ((count + 1) * 64)) := by
        rw [hsplit]
        cases count with
        | zero => simp
        | succ count =>
          -- a line with another one after it is full
          have hfull : (first + 1) * 64 = first * 64 + line.length := by omega
          rw [hfull, splice_append]
      rw [← hsplice]
      exact hboth

/-- Loading an image that fits writes it at the start of the RAM words. -/
theorem loadImage_serves {memory : UnitMemory} (hformed : memory.WellFormed) {image : List Word}
    (hfits : image.length ≤ memory.hierarchy.size) :
    ∃ after, memory.loadImage image = (.ok (), after) ∧
      memory.Serves () after () (memory.words.loadImage image) := by
  have hlines := loadLines_serves image ((image.length + 63) / 64) 0 hformed hfits (by omega)
  have hall : image.take ((image.length + 63) / 64 * 64) = image :=
    List.take_of_length_le (by omega)
  rw [Nat.zero_mul, List.drop_zero, hall, ← List.range_eq_range'] at hlines
  exact hlines

/-- Clearing the stack. -/
theorem resetStack_serves {memory : UnitMemory} (hformed : memory.WellFormed) :
    ∃ after, memory.resetStack = .ok after ∧ memory.Serves () after () memory.words.resetStack := by
  let zeros := List.replicate memory.stack.size (0 : Word)
  have hlength : zeros.length = memory.stack.size := List.length_replicate
  have hwrite : memory.stack.writeBlock 0 zeros =
      .ok ⟨(), (memory.stack.withWords 0 zeros).record .writeBlock,
        [memory.stack.accessed .writeBlock 0]⟩ := by
    have hin : 0 + zeros.length ≤ memory.stack.size := by omega
    simp only [Ram.writeBlock, checkRange_eq_ok hin]
    rfl
  obtain ⟨after, hcall, hserves⟩ :=
    onStack_serves hformed (·.writeBlock 0 zeros) hwrite (size_splice _ _ _)
  refine ⟨after, ?_, ?_⟩
  · simp only [zeros] at hcall
    simp only [resetStack, hcall]
    rfl
  · have hzeros : splice memory.stack.words 0 zeros =
        Array.replicate memory.stack.words.size 0 := by
      rw [splice_zero hlength, List.toArray_replicate]
      rfl
    change memory.Serves () after () ⟨Array.replicate memory.stack.words.size 0, _⟩
    rw [← hzeros]
    exact hserves

end UnitMemory

end A64Machine
