import A64Machine.Proofs.Execution.CheckedMachine
import A64Machine.Proofs.Memory.ByteStore

/-!
The regions of the address map byte by byte.  A resolved access lies in the region that is reported,
and a doubleword resolves as its two words do, with one exception: where the hierarchy goes on
behind the base of the stack window, a doubleword that starts just below the window resolves to the
hierarchy, although its high word is the first of the stack.
-/

namespace A64Machine

namespace AddressMap

/-- Whether a byte belongs to a region: the stack has the bytes of its window, and the hierarchy
those below its end that are outside the window. -/
def Contains (map : AddressMap) (region : Region) (byte : Nat) : Prop :=
  let inWindow := stackBase ≤ byte ∧ byte < map.stackTop
  match region with
  | .stack => inWindow
  | .hierarchy => ¬ inWindow ∧ byte < map.hierarchyWords * wordBytes

instance (map : AddressMap) (region : Region) (byte : Nat) :
    Decidable (map.Contains region byte) :=
  match region with
  | .stack => inferInstanceAs (Decidable (_ ∧ _))
  | .hierarchy => inferInstanceAs (Decidable (¬ _ ∧ _))

/-- Whether the doubleword at an address has its low word just below the stack window and its high
word in it, over a hierarchy that reaches as far. -/
def Overhangs (map : AddressMap) (address : Doubleword) : Prop :=
  address.toNat + wordBytes = stackBase ∧ 0 < map.stackWords ∧
    stackBase + wordBytes ≤ map.hierarchyWords * wordBytes

instance (map : AddressMap) (address : Doubleword) : Decidable (map.Overhangs address) :=
  inferInstanceAs (Decidable (_ ∧ _ ∧ _))

/-- What resolving accesses at `address` comes to. -/
structure ResolvesByRegion (map : AddressMap) (address : Doubleword) : Prop where
  /-- No operation on the way lacks an answer. -/
  checked (bytes : Nat) :
    Checked.resolve map address bytes = (map.resolve address bytes).mapError .fault
  misaligned (hmisaligned : address.toNat % wordBytes ≠ 0) (bytes : Nat) :
    map.resolve address bytes = .error .unalignedAccess
  unmapped {bytes : Nat} {cause : FaultCode} (haligned : address.toNat % wordBytes = 0)
    (hfault : map.resolve address bytes = .error cause) : cause = .dataAbort
  oneRegion {bytes : Nat} {location : Location} (hbytes : bytes = 4 ∨ bytes = 8)
    (hresolve : map.resolve address bytes = .ok location) :
    (∀ byte, address.toNat ≤ byte → byte < address.toNat + bytes →
        map.Contains location.region byte) ↔
      ¬ (bytes = 8 ∧ map.Overhangs address)
  doubleword :
    (∀ location, map.resolve address 8 = .ok location ↔
        map.resolve address 4 = .ok location ∧
          map.resolve (address + 4) 4 = .ok { location with word := location.word + 1 }) ↔
      ¬ map.Overhangs address

variable {map : AddressMap} {address : Doubleword} {bytes : Nat} {location : Location}

theorem resolve_of_misaligned (hmisaligned : address.toNat % wordBytes ≠ 0) (bytes : Nat) :
    map.resolve address bytes = .error .unalignedAccess := by
  rw [resolve_eq, if_pos hmisaligned]

theorem dataAbort_of_aligned {cause : FaultCode} (haligned : address.toNat % wordBytes = 0)
    (hfault : map.resolve address bytes = .error cause) : cause = .dataAbort := by
  rw [resolve_eq, if_neg (Decidable.not_not.2 haligned)] at hfault
  split at hfault
  · contradiction
  · exact (Except.error.inj hfault).symm

/-- An access that starts outside the window has no byte in it, unless it is a doubleword across the
base. -/
theorem outside_of_not_overhangs (hbytes : bytes = 4 ∨ bytes = 8)
    (haligned : address.toNat % wordBytes = 0) (houtside : ¬ map.InWindow address)
    (hend : address.toNat + bytes ≤ map.hierarchyWords * wordBytes)
    (hregion : ¬ (bytes = 8 ∧ map.Overhangs address)) {byte : Nat} (hfirst : address.toNat ≤ byte)
    (hlast : byte < address.toNat + bytes) : ¬ (stackBase ≤ byte ∧ byte < map.stackTop) := by
  simp only [Overhangs, InWindow, stackTop, wordBytes, stackBase] at *
  omega

theorem not_inWindow_of_overhangs (hoverhangs : map.Overhangs address) :
    ¬ map.InWindow address := by
  simp only [Overhangs, InWindow, wordBytes, stackBase] at *
  omega

/-- The base of a stack window is in it. -/
theorem stackBase_lt_stackTop (hstack : 0 < map.stackWords) : stackBase < map.stackTop := by
  simp only [stackTop, wordBytes]
  omega

/-- A resolved access lies in the reported region exactly when it is no doubleword across the base
of the window. -/
theorem contains_iff_not_overhangs (hbytes : bytes = 4 ∨ bytes = 8)
    (hresolve : map.resolve address bytes = .ok location) :
    (∀ byte, address.toNat ≤ byte → byte < address.toNat + bytes →
        map.Contains location.region byte) ↔
      ¬ (bytes = 8 ∧ map.Overhangs address) := by
  obtain ⟨haligned, ⟨-, hmapped⟩, rfl⟩ := resolve_eq_ok_iff.1 hresolve
  rw [region_locate]
  constructor
  · rintro hcontains ⟨rfl, hoverhangs⟩
    have hbase : address.toNat + 4 = stackBase := hoverhangs.1
    have hbyte := hcontains stackBase (by omega) (by omega)
    rw [if_neg (not_inWindow_of_overhangs hoverhangs)] at hbyte
    exact hbyte.1 ⟨Nat.le_refl _, stackBase_lt_stackTop hoverhangs.2.1⟩
  · intro hregion byte hfirst hlast
    rcases hmapped with ⟨hbase, htop, hend⟩ | ⟨houtside, hend⟩
    · have hwindow : map.InWindow address := ⟨hbase, htop⟩
      rw [if_pos hwindow]
      exact ⟨Nat.le_trans hbase hfirst, Nat.lt_of_lt_of_le hlast hend⟩
    · have hwindow : ¬ map.InWindow address := houtside
      rw [if_neg hwindow]
      exact ⟨outside_of_not_overhangs hbytes haligned hwindow hend hregion hfirst hlast,
        Nat.lt_of_lt_of_le hlast hend⟩

/-- A doubleword that does not cross the base of the window is mapped when its words are mapped in
one region. -/
theorem mapped_eight_iff_sameRegion (haligned : address.toNat % wordBytes = 0)
    (hregion : ¬ map.Overhangs address) :
    map.Mapped address.toNat 8 ↔ map.Mapped address.toNat 4 ∧ map.Mapped (address + 4).toNat 4 ∧
      (map.InWindow (address + 4) ↔ map.InWindow address) := by
  have hbits : byteAddresses = 2 ^ 64 := rfl
  have hlt := address.isLt
  simp only [Overhangs, Mapped, InWindow, toNat_add_four, hbits, stackTop, stackBase,
    wordBytes] at *
  omega

/-- The places of two words follow each other only when the words are in one region. -/
theorem inWindow_iff_of_next
    (hnext : map.locate (address + 4) = UnitWords.next (map.locate address)) :
    map.InWindow (address + 4) ↔ map.InWindow address := by
  have hsame : (map.locate (address + 4)).region = (map.locate address).region := by
    rw [hnext, UnitWords.next]
  rw [region_locate, region_locate] at hsame
  split at hsame <;> split at hsame
  case isTrue.isTrue hhigh hlow => exact iff_of_true hhigh hlow
  case isFalse.isFalse hhigh hlow => exact iff_of_false hhigh hlow
  all_goals contradiction

/-- A doubleword resolves as its words do, one after the other in one region. -/
theorem resolve_eight_iff (hregion : ¬ map.Overhangs address) (location : Location) :
    map.resolve address 8 = .ok location ↔
      map.resolve address 4 = .ok location ∧
        map.resolve (address + 4) 4 = .ok { location with word := location.word + 1 } := by
  by_cases haligned : address.toNat % wordBytes = 0
  case neg => simp only [resolve_of_misaligned haligned, reduceCtorEq, false_and]
  have hmapped := mapped_eight_iff_sameRegion haligned hregion
  have hplus (hlow : map.Mapped address.toNat 4) : (address + 4).toNat = address.toNat + 4 :=
    (toNat_add_four address).trans (Nat.mod_eq_of_lt hlow.1)
  rw [resolve_eq_ok_iff, resolve_eq_ok_iff, resolve_eq_ok_iff]
  constructor
  · rintro ⟨-, height, rfl⟩
    obtain ⟨hlow, hhigh, hsame⟩ := hmapped.1 height
    refine ⟨⟨haligned, hlow, rfl⟩, ?_, hhigh,
      (locate_add_four_of_sameRegion (hplus hlow) hsame).symm⟩
    rw [hplus hlow]
    simp only [wordBytes] at *
    omega
  · rintro ⟨⟨-, hlow, rfl⟩, -, hhigh, hnext⟩
    exact ⟨haligned, hmapped.2 ⟨hlow, hhigh, inWindow_iff_of_next hnext.symm⟩, rfl⟩

/-- A doubleword across the base of the window resolves, to the place of its low word. -/
theorem resolve_of_overhangs (hoverhangs : map.Overhangs address) :
    map.resolve address 8 = .ok ⟨.hierarchy, address.toNat / wordBytes⟩ := by
  have hwindow := not_inWindow_of_overhangs hoverhangs
  have hbits : byteAddresses = 2 ^ 64 := rfl
  obtain ⟨hbase, -, hend⟩ := hoverhangs
  refine resolve_eq_ok_iff.2 ⟨?_, ⟨?_, .inr ⟨hwindow, ?_⟩⟩, ?_⟩
  · simp only [wordBytes, stackBase] at *
    omega
  · simp only [wordBytes, stackBase, hbits] at *
    omega
  · simp only [wordBytes] at *
    omega
  · rw [locate, if_neg hwindow]

/-- The high word of such a doubleword alone is in the stack. -/
theorem inWindow_add_four_of_overhangs (hoverhangs : map.Overhangs address) :
    map.InWindow (address + 4) := by
  have hlt := address.isLt
  simp only [Overhangs, InWindow, toNat_add_four, stackTop, stackBase, wordBytes] at *
  omega

/-- Every access resolves without an overflow and faults by its alignment first.  It lies in the
region that is reported, and a doubleword resolves as its two words do, except for a doubleword
across the base of the stack window. -/
theorem resolvesByRegion (map : AddressMap) (hfits : map.stackTop < UInt64.size)
    (address : Doubleword) : map.ResolvesByRegion address where
  checked := Checked.resolve_eq hfits address
  misaligned := resolve_of_misaligned
  unmapped := dataAbort_of_aligned
  oneRegion := contains_iff_not_overhangs
  doubleword := by
    refine ⟨fun hwords hoverhangs => ?_, resolve_eight_iff⟩
    obtain ⟨-, hhigh⟩ := (hwords _).1 (resolve_of_overhangs hoverhangs)
    obtain ⟨-, -, hplace⟩ := resolve_eq_ok_iff.1 hhigh
    have hregion := congrArg Location.region hplace
    rw [region_locate, if_pos (inWindow_add_four_of_overhangs hoverhangs)] at hregion
    contradiction

/-- The last doubleword below the end of a small hierarchy. -/
theorem resolvesByRegion_last_doubleword :
    let map : AddressMap := ⟨16, 1024⟩
    map.stackTop < UInt64.size ∧ map.ResolvesByRegion 4088 ∧
      map.resolve 4088 8 = .ok ⟨.hierarchy, 1022⟩ ∧
      ∀ byte, 4088 ≤ byte → byte < 4096 → map.Contains .hierarchy byte := by
  intro map
  have hfits : map.stackTop < UInt64.size := by decide
  have hresolves := map.resolvesByRegion hfits 4088
  have hplace : map.resolve 4088 8 = .ok ⟨.hierarchy, 1022⟩ := rfl
  exact ⟨hfits, hresolves, hplace, (hresolves.oneRegion (.inr rfl) hplace).2 (by decide)⟩

/-- With a hierarchy that goes on behind the base of the stack window, the doubleword below the base
resolves to the hierarchy as a whole, and its high word alone to the stack. -/
theorem doubleword_into_window :
    let map : AddressMap := ⟨8, 0x200000000000⟩
    map.stackTop < UInt64.size ∧
      map.resolve 0x7FFEFFFFFFFC 8 = .ok ⟨.hierarchy, 0x1FFFBFFFFFFF⟩ ∧
      map.resolve (0x7FFEFFFFFFFC + 4) 4 = .ok ⟨.stack, 0⟩ ∧
      ¬ map.Contains .hierarchy (0x7FFEFFFFFFFC + 4) :=
  ⟨by decide, rfl, rfl, by decide⟩

end AddressMap

end A64Machine
