import A64Machine.Cpu.Config

/-!
Which configurations are valid.  Every dimension must be positive, and the first one that is not is
named.  Whether process memory fits in RAM is decided on a product that stops at the largest size, and
comes to the same as on the exact one, unless RAM itself has the largest size: then nothing is too
large for it.
-/

namespace A64Machine

section Saturation

theorem toNat_saturatingAdd (x y : UInt64) :
    (saturatingAdd x y).toNat = min (x.toNat + y.toNat) (UInt64.size - 1) := by
  rw [saturatingAdd, UInt64.toNat_ofNat']
  exact Nat.mod_eq_of_lt (Nat.lt_of_le_of_lt (Nat.min_le_right _ _) (by decide))

theorem toNat_saturatingMul (x y : UInt64) :
    (saturatingMul x y).toNat = min (x.toNat * y.toNat) (UInt64.size - 1) := by
  rw [saturatingMul, UInt64.toNat_ofNat']
  exact Nat.mod_eq_of_lt (Nat.lt_of_le_of_lt (Nat.min_le_right _ _) (by decide))

/-- It makes no difference to a product that stops at a limit that a factor stopped there before. -/
theorem min_min_mul (x y limit : Nat) : min (min x limit * y) limit = min (x * y) limit := by
  rcases Nat.le_total x limit with hle | hge
  · rw [Nat.min_eq_left hle]
  rw [Nat.min_eq_right hge]
  cases y with
  | zero => rw [Nat.mul_zero, Nat.mul_zero]
  | succ y =>
    have hlimit : limit ≤ limit * (y + 1) := Nat.le_mul_of_pos_right limit (Nat.succ_pos y)
    have hproduct : limit ≤ x * (y + 1) := Nat.le_trans hlimit (Nat.mul_le_mul_right _ hge)
    rw [Nat.min_eq_right hlimit, Nat.min_eq_right hproduct]

end Saturation

namespace Dimension

def all : List Dimension :=
  [.cores, .threadsPerCore, .l1Size, .l2Size, .l3Size, .ramSize, .stackSize]

def position : Dimension → Nat
  | .cores => 0
  | .threadsPerCore => 1
  | .l1Size => 2
  | .l2Size => 3
  | .l3Size => 4
  | .ramSize => 5
  | .stackSize => 6

theorem mem_all (dimension : Dimension) : dimension ∈ all := by
  cases dimension <;> decide

theorem all_sorted : all.Pairwise (·.position < ·.position) := by decide

end Dimension

/-- In a list that is sorted by a key, the first element with a property is the one that has the least
key of all that have it. -/
theorem find?_eq_some_iff_least {α : Type} {key : α → Nat} {p : α → Bool} {xs : List α}
    (hsorted : xs.Pairwise (key · < key ·)) {x : α} :
    xs.find? p = some x ↔ x ∈ xs ∧ p x = true ∧ ∀ y ∈ xs, p y = true → key x ≤ key y := by
  induction xs with
  | nil => simp
  | cons first rest ih =>
    obtain ⟨hfirst, hrest⟩ := List.pairwise_cons.1 hsorted
    by_cases hp : p first = true
    · rw [List.find?_cons_of_pos hp, Option.some.injEq]
      constructor
      · rintro rfl
        refine ⟨List.mem_cons_self, hp, fun y hy _ => ?_⟩
        rcases List.mem_cons.1 hy with rfl | hlater
        · exact Nat.le_refl _
        · exact Nat.le_of_lt (hfirst y hlater)
      · rintro ⟨hx, -, hleast⟩
        rcases List.mem_cons.1 hx with rfl | hlater
        · rfl
        · exact absurd (hfirst x hlater) (Nat.not_lt_of_le (hleast first List.mem_cons_self hp))
    · rw [List.find?_cons_of_neg hp, ih hrest]
      simp only [List.mem_cons, forall_eq_or_imp, hp, Bool.false_eq_true, false_implies, true_and]
      constructor
      · exact fun ⟨hx, hleast⟩ => ⟨.inr hx, hleast⟩
      · rintro ⟨rfl | hx, hpx, hleast⟩
        · exact absurd hpx hp
        · exact ⟨hx, hpx, hleast⟩

namespace CpuConfig

def extent (config : CpuConfig) : Dimension → UInt64
  | .cores => config.cores.toUInt64
  | .threadsPerCore => config.threadsPerCore.toUInt64
  | .l1Size => config.l1Size
  | .l2Size => config.l2Size
  | .l3Size => config.l3Size
  | .ramSize => config.ramSize
  | .stackSize => config.stackSize

/-- Words of process memory of all units together, in numbers without a limit. -/
def processMemory (config : CpuConfig) : Nat :=
  (config.stackSize.toNat + config.heapSize.toNat) * config.cores.toNat *
    config.threadsPerCore.toNat

/-- Whether a dimension is the first one that is zero. -/
structure IsFirstZero (config : CpuConfig) (dimension : Dimension) : Prop where
  zero : config.extent dimension = 0
  first : ∀ other, config.extent other = 0 → dimension.position ≤ other.position

variable {config : CpuConfig}

/-- The number of units has 64 bits. -/
theorem toNat_unitCount (config : CpuConfig) :
    config.unitCount.toNat = config.cores.toNat * config.threadsPerCore.toNat := by
  have hproduct : config.cores.toNat * config.threadsPerCore.toNat < 2 ^ 64 :=
    Nat.lt_of_lt_of_eq (Nat.mul_lt_mul'' config.cores.toNat_lt config.threadsPerCore.toNat_lt)
      (by decide)
  rw [unitCount, UInt64.toNat_mul, UInt32.toNat_toUInt64, UInt32.toNat_toUInt64,
    Nat.mod_eq_of_lt hproduct]

/-- What is compared with RAM is the exact number of words, or the largest size. -/
theorem toNat_neededRam (config : CpuConfig) :
    config.neededRam.toNat = min config.processMemory (UInt64.size - 1) := by
  rw [neededRam, toNat_saturatingMul, privateSize, toNat_saturatingAdd, min_min_mul,
    toNat_unitCount, processMemory, Nat.mul_assoc]

theorem find?_dimensions (config : CpuConfig) :
    config.dimensions.find? (·.2 == 0) =
      (Dimension.all.find? (config.extent · == 0)).map fun dimension =>
        (dimension, config.extent dimension) := by
  change (Dimension.all.map fun dimension => (dimension, config.extent dimension)).find? _ = _
  rw [List.find?_map]
  rfl

theorem find?_eq_some_iff {dimension : Dimension} :
    Dimension.all.find? (config.extent · == 0) = some dimension ↔ config.IsFirstZero dimension := by
  rw [find?_eq_some_iff_least Dimension.all_sorted]
  simp only [Dimension.mem_all, beq_iff_eq, true_and, true_implies]
  exact ⟨fun ⟨hzero, hfirst⟩ => ⟨hzero, hfirst⟩, fun ⟨hzero, hfirst⟩ => ⟨hzero, hfirst⟩⟩

theorem find?_eq_none_iff :
    Dimension.all.find? (config.extent · == 0) = none ↔ ∀ dimension, 0 < config.extent dimension := by
  simp only [List.find?_eq_none, Dimension.mem_all, true_implies, beq_iff_eq]
  exact forall_congr' fun dimension => UInt64.pos_iff_ne_zero.symm

/-- A configuration with a zero is refused for it. -/
theorem validate_of_isFirstZero {dimension : Dimension} (hzero : config.IsFirstZero dimension) :
    config.validate = .error (.zeroDimension dimension) := by
  rw [validate, find?_dimensions, find?_eq_some_iff.2 hzero]
  rfl

/-- Without a zero, what counts is process memory. -/
theorem validate_of_positive (hpositive : ∀ dimension, 0 < config.extent dimension) :
    config.validate =
      if config.ramSize < config.neededRam then
        .error (.insufficientRam config.neededRam config.ramSize)
      else .ok () := by
  rw [validate, find?_dimensions, find?_eq_none_iff.2 hpositive]
  rfl

/-- Some dimension is the first zero, or there is none. -/
theorem exists_isFirstZero_or_positive (config : CpuConfig) :
    (∃ dimension, config.IsFirstZero dimension) ∨ ∀ dimension, 0 < config.extent dimension := by
  cases hfind : Dimension.all.find? (config.extent · == 0) with
  | some dimension => exact .inl ⟨dimension, find?_eq_some_iff.1 hfind⟩
  | none => exact .inr (find?_eq_none_iff.1 hfind)

/-- A zero is not positive. -/
theorem IsFirstZero.not_positive {dimension : Dimension} (hzero : config.IsFirstZero dimension) :
    ¬ ∀ other, 0 < config.extent other := by
  intro hpositive
  have hextent := hpositive dimension
  rw [hzero.zero] at hextent
  exact absurd hextent (by decide)

/-- Too much is needed when RAM holds less than the exact number of words, and less than the largest
size. -/
theorem ramSize_lt_neededRam_iff :
    config.ramSize < config.neededRam ↔
      config.ramSize.toNat < config.processMemory ∧ config.ramSize.toNat ≠ UInt64.size - 1 := by
  have hsize := config.ramSize.toNat_lt
  rw [UInt64.lt_iff_toNat_lt, toNat_neededRam, Nat.lt_min, UInt64.size]
  omega

theorem validate_eq_ok_iff : config.validate = .ok () ↔
    (∀ dimension, 0 < config.extent dimension) ∧
      (config.processMemory ≤ config.ramSize.toNat ∨ config.ramSize.toNat = UInt64.size - 1) := by
  rcases exists_isFirstZero_or_positive config with ⟨dimension, hzero⟩ | hpositive
  · rw [validate_of_isFirstZero hzero]
    exact iff_of_false nofun fun hvalid => hzero.not_positive hvalid.1
  · rw [validate_of_positive hpositive]
    have hfits : ¬ config.ramSize < config.neededRam ↔
        config.processMemory ≤ config.ramSize.toNat ∨ config.ramSize.toNat = UInt64.size - 1 := by
      rw [ramSize_lt_neededRam_iff]
      omega
    split
    next htoolarge => exact iff_of_false nofun fun hvalid => hfits.2 hvalid.2 htoolarge
    next hram => exact iff_of_true rfl ⟨hpositive, hfits.1 hram⟩

theorem validate_eq_zeroDimension_iff {dimension : Dimension} :
    config.validate = .error (.zeroDimension dimension) ↔ config.IsFirstZero dimension := by
  refine ⟨fun hrefused => ?_, validate_of_isFirstZero⟩
  rcases exists_isFirstZero_or_positive config with ⟨found, hfound⟩ | hpositive
  · have hsame := (validate_of_isFirstZero hfound).symm.trans hrefused
    obtain rfl := ConfigError.zeroDimension.inj (Except.error.inj hsame)
    exact hfound
  · rw [validate_of_positive hpositive] at hrefused
    split at hrefused
    · exact absurd (Except.error.inj hrefused) nofun
    · contradiction

theorem validate_eq_insufficientRam_iff {needed ram : UInt64} :
    config.validate = .error (.insufficientRam needed ram) ↔
      (∀ dimension, 0 < config.extent dimension) ∧
        (config.ramSize.toNat < config.processMemory ∧ config.ramSize.toNat ≠ UInt64.size - 1) ∧
          needed.toNat = min config.processMemory (UInt64.size - 1) ∧ ram = config.ramSize := by
  rcases exists_isFirstZero_or_positive config with ⟨dimension, hzero⟩ | hpositive
  · rw [validate_of_isFirstZero hzero]
    exact iff_of_false nofun fun hrefused => hzero.not_positive hrefused.1
  · rw [validate_of_positive hpositive, ← ramSize_lt_neededRam_iff, ← toNat_neededRam,
      UInt64.toNat_inj]
    split
    next htoolarge =>
      rw [Except.error.injEq, ConfigError.insufficientRam.injEq, eq_comm, eq_comm (b := ram)]
      exact ⟨fun htold => ⟨hpositive, htoolarge, htold⟩, fun hrefused => hrefused.2.2⟩
    next hram => exact iff_of_false nofun fun hrefused => hram hrefused.2.1

/-- What is found of a configuration, and when.  It is valid when every dimension is positive, and
process memory fits in RAM or RAM has the largest size.  When a dimension is zero, the first such one
is named.  When only process memory is too large, what it needs is told, up to the largest size. -/
theorem validate_exactly (config : CpuConfig) :
    (config.validate = .ok () ↔ (∀ dimension, 0 < config.extent dimension) ∧
        (config.processMemory ≤ config.ramSize.toNat ∨
          config.ramSize.toNat = UInt64.size - 1)) ∧
      (∀ dimension, config.validate = .error (.zeroDimension dimension) ↔
        config.IsFirstZero dimension) ∧
      ∀ needed ram, config.validate = .error (.insufficientRam needed ram) ↔
        (∀ dimension, 0 < config.extent dimension) ∧
          (config.ramSize.toNat < config.processMemory ∧
            config.ramSize.toNat ≠ UInt64.size - 1) ∧
          needed.toNat = min config.processMemory (UInt64.size - 1) ∧ ram = config.ramSize :=
  ⟨validate_eq_ok_iff, fun _ => validate_eq_zeroDimension_iff,
    fun _ _ => validate_eq_insufficientRam_iff⟩

/-- Two stacks of 2^63 words each are accepted in a RAM that has one word less than both. -/
theorem accepts_two_large_stacks :
    let config : CpuConfig :=
      { cores := 2, ramSize := 0xFFFFFFFFFFFFFFFF, stackSize := 0x8000000000000000 }
    config.validate = .ok () ∧ (∀ dimension, 0 < config.extent dimension) ∧
      config.ramSize.toNat + 1 = config.processMemory := by
  intro config
  have hpositive : ∀ dimension, 0 < config.extent dimension := by
    intro dimension
    cases dimension <;> decide
  exact ⟨validate_eq_ok_iff.2 ⟨hpositive, .inr (by decide)⟩, hpositive, by decide⟩

end CpuConfig

end A64Machine
