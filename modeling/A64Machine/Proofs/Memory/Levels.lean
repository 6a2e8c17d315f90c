import A64Machine.Memory.Hierarchy
import A64Machine.Proofs.Memory.Reports

/-!
The chains of a hierarchy.  A chain with as many memories as the one that it replaces is found again
where it was put back, also by the other levels that stand on it.
-/

namespace A64Machine

theorem chainAt_succ (level : Level) (older : List Level) (distance : Nat) :
    chainAt (level :: older) (distance + 1) = chainAt older distance := by
  cases level <;> rfl

theorem replaceChain_succ (level : Level) (older : List Level) (distance : Nat) (after : Memory) :
    replaceChain (level :: older) (distance + 1) after =
      level :: replaceChain older distance after := by
  cases level <;> rfl

/-- A chain that is put back is found again. -/
theorem chainAt_replaceChain {levels : List Level} {distance : Nat} {memory after : Memory}
    (hchain : chainAt levels distance = some memory) (hdepth : after.depth = memory.depth) :
    chainAt (replaceChain levels distance after) distance = some after := by
  -- The chain is put back level by level, so depth and levels run out together.
  induction levels generalizing distance memory after with
  | nil => contradiction
  | cons level older ih =>
    cases distance with
    | succ distance =>
      rw [chainAt_succ] at hchain
      rw [replaceChain_succ, chainAt_succ]
      exact ih hchain hdepth
    | zero =>
      cases level with
      | ram store =>
        obtain rfl := Option.some.inj hchain
        cases after with
        | ram store' => rfl
        | cache front' rest => contradiction
      | cache front backing =>
        obtain ⟨behind, hbehind, rfl⟩ := Option.map_eq_some_iff.mp hchain
        cases after with
        | ram store' => contradiction
        | cache front' rest =>
          have hrest := ih hbehind (Nat.succ.inj hdepth)
          exact congrArg (Option.map (Memory.cache front')) hrest

theorem length_replaceChain (levels : List Level) (distance : Nat) (after : Memory) :
    (replaceChain levels distance after).length = levels.length := by
  fun_induction replaceChain levels distance after <;> simp_all

namespace Hierarchy

variable {hierarchy : Hierarchy} {number backing : Nat} {memory after : Memory}

def withFront (hierarchy : Hierarchy) (front : Cache) (backing : Nat) : Hierarchy :=
  ⟨.cache front (hierarchy.distance backing) :: hierarchy.levels⟩

theorem next_replace (hierarchy : Hierarchy) (number : Nat) (after : Memory) :
    (hierarchy.replace number after).next = hierarchy.next := by
  unfold replace
  split
  · exact length_replaceChain _ _ _
  · rfl

theorem next_withFront (hierarchy : Hierarchy) (front : Cache) (backing : Nat) :
    (hierarchy.withFront front backing).next = hierarchy.next + 1 := rfl

theorem distance_lt (hlt : number < hierarchy.next) :
    hierarchy.distance number < hierarchy.levels.length := by
  rw [distance, next]
  rw [next] at hlt
  omega

/-- Levels are numbered from the oldest one on. -/
theorem number_eq (hlt : number < hierarchy.next) :
    hierarchy.levels.length - 1 - hierarchy.distance number = number := by
  rw [distance, next]
  rw [next] at hlt
  omega

theorem lt_next_of_memory? (hmemory : hierarchy.memory? number = some memory) :
    number < hierarchy.next := by
  unfold memory? at hmemory
  split at hmemory
  next hlt => exact hlt
  next => contradiction

theorem memory_eq (hmemory : hierarchy.memory? number = some memory) :
    hierarchy.memory number = memory := by
  rw [Hierarchy.memory, hmemory]
  rfl

/-- What was put back at a level is found there. -/
theorem memory?_replace (hmemory : hierarchy.memory? number = some memory)
    (hdepth : after.depth = memory.depth) :
    (hierarchy.replace number after).memory? number = some after := by
  have hlt := lt_next_of_memory? hmemory
  have hlt' := hlt
  rw [← next_replace hierarchy number after] at hlt'
  rw [memory?, if_pos hlt] at hmemory
  rw [memory?, if_pos hlt', distance, next_replace, replace, if_pos hlt]
  exact chainAt_replaceChain hmemory hdepth

section Newer

variable (newer : List Level) {older : List Level}

theorem distance_append (hlt : number < older.length) :
    distance ⟨newer ++ older⟩ number = newer.length + distance ⟨older⟩ number := by
  simp only [distance, next, List.length_append]
  omega

/-- Newer levels do not change what a level is. -/
theorem memory?_append (hlt : number < older.length) :
    memory? ⟨newer ++ older⟩ number = memory? ⟨older⟩ number := by
  have hlt' : number < next ⟨newer ++ older⟩ := by
    simp only [next, List.length_append]
    omega
  have hold : number < next ⟨older⟩ := hlt
  rw [memory?, memory?, if_pos hlt', if_pos hold, distance_append newer hlt]
  clear hlt'
  induction newer with
  | nil => rw [List.length_nil, Nat.zero_add]; rfl
  | cons level rest ih =>
    rw [← ih, List.length_cons, Nat.succ_add_eq_add_succ]
    cases level <;> rfl

/-- Newer levels stay as they are when a level is replaced. -/
theorem replace_append (hlt : number < older.length) (after : Memory) :
    replace ⟨newer ++ older⟩ number after = ⟨newer ++ (replace ⟨older⟩ number after).levels⟩ := by
  have hlt' : number < next ⟨newer ++ older⟩ := by
    simp only [next, List.length_append]
    omega
  have hold : number < next ⟨older⟩ := hlt
  rw [replace, replace, if_pos hlt', if_pos hold, distance_append newer hlt]
  clear hlt'
  congr 1
  induction newer with
  | nil => rw [List.length_nil, Nat.zero_add]; rfl
  | cons level rest ih =>
    rw [List.cons_append, List.cons_append, ← ih, List.length_cons, Nat.succ_add_eq_add_succ]
    cases level <;> rfl

end Newer

theorem memory?_withFront (front : Cache) (backing : Nat) (hlt : number < hierarchy.next) :
    (hierarchy.withFront front backing).memory? number = hierarchy.memory? number :=
  memory?_append [.cache front (hierarchy.distance backing)] hlt

theorem replace_withFront (front : Cache) (backing : Nat) (hlt : number < hierarchy.next)
    (after : Memory) : (hierarchy.withFront front backing).replace number after =
      (hierarchy.replace number after).withFront front backing := by
  have hplace : (hierarchy.replace number after).distance backing = hierarchy.distance backing := by
    rw [distance, distance, next_replace]
  unfold withFront
  rw [hplace]
  exact replace_append [.cache front (hierarchy.distance backing)] hlt after

theorem memory?_withFront_next (front : Cache) (hlt : backing < hierarchy.next) :
    (hierarchy.withFront front backing).memory? hierarchy.next =
      (hierarchy.memory? backing).map (.cache front) := by
  have hlt' : hierarchy.next < (hierarchy.withFront front backing).next := Nat.lt_succ_self _
  have hplace : (hierarchy.withFront front backing).distance hierarchy.next = 0 := Nat.sub_self _
  rw [memory?, memory?, if_pos hlt', if_pos hlt, hplace]
  rfl

theorem replace_withFront_next (front front' : Cache) (hlt : backing < hierarchy.next)
    (after : Memory) :
    (hierarchy.withFront front backing).replace hierarchy.next (.cache front' after) =
      (hierarchy.replace backing after).withFront front' backing := by
  have hlt' : hierarchy.next < (hierarchy.withFront front backing).next := Nat.lt_succ_self _
  have hplace : (hierarchy.withFront front backing).distance hierarchy.next = 0 := Nat.sub_self _
  rw [replace, if_pos hlt', hplace, withFront, withFront, distance, distance, next_replace, replace,
    if_pos hlt]
  rfl

/-- A cache that was added is one that the memory behind it accepts. -/
theorem addCache_eq_ok {name : String} {policy : CachePolicy} {size : Nat} {added : Hierarchy}
    {event : Event} (hadd : hierarchy.addCache name policy size backing = .ok (added, event)) :
    ∃ front, Cache.build name policy size (hierarchy.memory backing).size = .ok front ∧
      added = hierarchy.withFront front backing ∧
      event = front.constructed (hierarchy.memory backing).name := by
  obtain ⟨front, hfront, hlast⟩ := bind_eq_ok hadd
  obtain ⟨hadded, hevent⟩ := Prod.mk.inj (Except.ok.inj hlast)
  exact ⟨front, hfront, hadded.symm, hevent.symm⟩

theorem addCache_of_build {front : Cache} {name : String} {policy : CachePolicy} {size : Nat}
    (hbuild : Cache.build name policy size (hierarchy.memory backing).size = .ok front) :
    hierarchy.addCache name policy size backing = .ok (hierarchy.withFront front backing,
      front.constructed (hierarchy.memory backing).name) := by
  rw [addCache]
  simp only [hbuild]
  rfl

end Hierarchy

end A64Machine
