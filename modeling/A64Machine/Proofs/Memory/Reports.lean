import A64Machine.Proofs.Memory.FlatRefinement

/-!
What all calls on a memory have in common: the chain has as many memories afterwards as before, and
nothing is reported but accesses to memories.
-/

namespace A64Machine

/-- Whether an event is about a program and not about a memory or about what a machine is made of. -/
def Event.ofProgram : Event → Bool
  | .construction _ _ => false
  | .memoryAccess _ _ _ _ => false
  | _ => true

/-- Number of caches in front of the RAM. -/
def Memory.depth : Memory → Nat
  | .ram _ => 0
  | .cache _ backing => backing.depth + 1

/-- The reply to a call on a memory that has only made accesses. -/
structure Reply.AccessOf {α : Type} (reply : Reply Memory α) (memory : Memory) : Prop where
  depth_eq : reply.state.depth = memory.depth
  quiet : ∀ event ∈ reply.events, event.ofProgram = false

namespace Ram

variable {store : Ram}

theorem read_quiet {address : Nat} {reply : Reply Ram Word}
    (hreply : store.read address = .ok reply) :
    ∀ event ∈ reply.events, event.ofProgram = false := by
  obtain ⟨_, -, hanswer⟩ := bind_eq_ok hreply
  obtain rfl := Except.ok.inj hanswer
  exact List.forall_mem_singleton.mpr rfl

theorem write_quiet {address : Nat} {value : Word} {reply : Reply Ram Unit}
    (hreply : store.write address value = .ok reply) :
    ∀ event ∈ reply.events, event.ofProgram = false := by
  obtain ⟨_, -, hanswer⟩ := bind_eq_ok hreply
  obtain rfl := Except.ok.inj hanswer
  exact List.forall_mem_singleton.mpr rfl

theorem readBlock_quiet {start count : Nat} {reply : Reply Ram (List Word)}
    (hreply : store.readBlock start count = .ok reply) :
    ∀ event ∈ reply.events, event.ofProgram = false := by
  obtain ⟨_, -, hanswer⟩ := bind_eq_ok hreply
  obtain rfl := Except.ok.inj hanswer
  exact List.forall_mem_singleton.mpr rfl

theorem writeBlock_quiet {start : Nat} {data : List Word} {reply : Reply Ram Unit}
    (hreply : store.writeBlock start data = .ok reply) :
    ∀ event ∈ reply.events, event.ofProgram = false := by
  obtain ⟨_, -, hanswer⟩ := bind_eq_ok hreply
  obtain rfl := Except.ok.inj hanswer
  exact List.forall_mem_singleton.mpr rfl

end Ram

namespace Memory

/-- A cache that was asked alone. -/
theorem accessOf_front {α : Type} {front front' : Cache} {backing : Memory} {value : α}
    {event : Event} (hevent : event.ofProgram = false) :
    (⟨value, .cache front' backing, [event]⟩ : Reply Memory α).AccessOf (.cache front backing) :=
  ⟨rfl, List.forall_mem_singleton.mpr hevent⟩

/-- A cache that asked the memory behind it. -/
theorem accessOf_behind {α β : Type} {front front' : Cache} {backing : Memory}
    {reply : Reply Memory β} (hreply : reply.AccessOf backing) {value : α} {first second : Event}
    (hfirst : first.ofProgram = false) (hsecond : second.ofProgram = false) :
    (⟨value, .cache front' reply.state, first :: second :: reply.events⟩ : Reply Memory α).AccessOf
      (.cache front backing) where
  depth_eq := congrArg (· + 1) hreply.depth_eq
  quiet := List.forall_mem_cons.mpr ⟨hfirst, List.forall_mem_cons.mpr ⟨hsecond, hreply.quiet⟩⟩

theorem readBlock_accessOf {memory : Memory} {start count : Nat} {reply : Reply Memory (List Word)}
    (hreply : memory.readBlock start count = .ok reply) : reply.AccessOf memory := by
  induction memory generalizing start count reply with
  | ram store =>
    obtain ⟨_, hstore, hread⟩ := bind_eq_ok hreply
    obtain rfl := Except.ok.inj hread
    exact ⟨rfl, Ram.readBlock_quiet hstore⟩
  | cache front backing ih =>
    obtain ⟨_, -, hchecked⟩ := bind_eq_ok hreply
    split at hchecked
    · obtain rfl := Except.ok.inj hchecked
      exact accessOf_front rfl
    · obtain ⟨fill, hfill, hfilled⟩ := bind_eq_ok hchecked
      obtain rfl := Except.ok.inj hfilled
      exact accessOf_behind (ih hfill) rfl rfl

theorem read_accessOf {memory : Memory} {address : Nat} {reply : Reply Memory Word}
    (hreply : memory.read address = .ok reply) : reply.AccessOf memory := by
  cases memory with
  | ram store =>
    obtain ⟨_, hstore, hread⟩ := bind_eq_ok hreply
    obtain rfl := Except.ok.inj hread
    exact ⟨rfl, Ram.read_quiet hstore⟩
  | cache front backing =>
    obtain ⟨_, -, hchecked⟩ := bind_eq_ok hreply
    split at hchecked
    · obtain rfl := Except.ok.inj hchecked
      exact accessOf_front rfl
    · obtain ⟨fill, hfill, hfilled⟩ := bind_eq_ok hchecked
      obtain rfl := Except.ok.inj hfilled
      exact accessOf_behind (readBlock_accessOf hfill) rfl rfl

theorem writeBlock_accessOf {memory : Memory} {start : Nat} {data : List Word}
    {reply : Reply Memory Unit} (hreply : memory.writeBlock start data = .ok reply) :
    reply.AccessOf memory := by
  induction memory generalizing start data reply with
  | ram store =>
    obtain ⟨_, hstore, hwritten⟩ := bind_eq_ok hreply
    obtain rfl := Except.ok.inj hwritten
    exact ⟨rfl, Ram.writeBlock_quiet hstore⟩
  | cache front backing ih =>
    obtain ⟨_, -, hchecked⟩ := bind_eq_ok hreply
    split at hchecked
    · obtain rfl := Except.ok.inj hchecked
      exact accessOf_front rfl
    · split at hchecked
      · obtain ⟨pushed, hpushed, hwritten⟩ := bind_eq_ok hchecked
        obtain rfl := Except.ok.inj hwritten
        exact accessOf_behind (ih hpushed) rfl rfl
      · obtain ⟨passed, hpassed, hwritten⟩ := bind_eq_ok hchecked
        obtain rfl := Except.ok.inj hwritten
        exact accessOf_behind (ih hpassed) rfl rfl

theorem write_accessOf {memory : Memory} {address : Nat} {value : Word} {reply : Reply Memory Unit}
    (hreply : memory.write address value = .ok reply) : reply.AccessOf memory := by
  induction memory generalizing reply with
  | ram store =>
    obtain ⟨_, hstore, hwritten⟩ := bind_eq_ok hreply
    obtain rfl := Except.ok.inj hwritten
    exact ⟨rfl, Ram.write_quiet hstore⟩
  | cache front backing ih =>
    obtain ⟨_, -, hchecked⟩ := bind_eq_ok hreply
    split at hchecked
    · obtain ⟨pushed, hpushed, hwritten⟩ := bind_eq_ok hchecked
      obtain rfl := Except.ok.inj hwritten
      exact accessOf_behind (writeBlock_accessOf hpushed) rfl rfl
    · obtain ⟨passed, hpassed, hwritten⟩ := bind_eq_ok hchecked
      obtain rfl := Except.ok.inj hwritten
      exact accessOf_behind (ih hpassed) rfl rfl

theorem clear_accessOf {memory : Memory} {depth : Nat} {reply : Reply Memory Unit}
    (hreply : atDepth (fun level => .ok ⟨(), level.clear, []⟩) memory depth = .ok reply) :
    reply.AccessOf memory := by
  induction memory generalizing depth reply with
  | ram store =>
    cases depth with
    | zero =>
      obtain rfl := Except.ok.inj hreply
      exact ⟨rfl, nofun⟩
    | succ depth =>
      obtain rfl := Except.ok.inj hreply
      exact ⟨rfl, nofun⟩
  | cache front backing ih =>
    cases depth with
    | zero =>
      obtain rfl := Except.ok.inj hreply
      exact ⟨rfl, nofun⟩
    | succ depth =>
      obtain ⟨cleared, hcleared, hlifted⟩ := bind_eq_ok hreply
      obtain rfl := Except.ok.inj hlifted
      exact ⟨congrArg (· + 1) (ih hcleared).depth_eq, (ih hcleared).quiet⟩

end Memory

/-- Every call makes accesses and nothing else. -/
theorem MemoryCall.run_accessOf {memory : Memory} {call : MemoryCall}
    {reply : Reply Memory (List Word)} (hreply : call.run memory = .ok reply) :
    reply.AccessOf memory := by
  cases call with
  | read address =>
    obtain ⟨answer, hread, hlast⟩ := bind_eq_ok hreply
    obtain rfl := Except.ok.inj hlast
    exact ⟨(Memory.read_accessOf hread).depth_eq, (Memory.read_accessOf hread).quiet⟩
  | write address value =>
    obtain ⟨answer, hwrite, hlast⟩ := bind_eq_ok hreply
    obtain rfl := Except.ok.inj hlast
    exact ⟨(Memory.write_accessOf hwrite).depth_eq, (Memory.write_accessOf hwrite).quiet⟩
  | readBlock start count => exact Memory.readBlock_accessOf hreply
  | writeBlock start data =>
    obtain ⟨answer, hwrite, hlast⟩ := bind_eq_ok hreply
    obtain rfl := Except.ok.inj hlast
    exact ⟨(Memory.writeBlock_accessOf hwrite).depth_eq, (Memory.writeBlock_accessOf hwrite).quiet⟩
  | clear depth =>
    obtain ⟨answer, hclear, hlast⟩ := bind_eq_ok hreply
    obtain rfl := Except.ok.inj hlast
    exact ⟨(Memory.clear_accessOf hclear).depth_eq, (Memory.clear_accessOf hclear).quiet⟩

end A64Machine
