import Mathlib.Data.List.Forall2
import A64Machine.Proofs.Cpu.FirstUnit
import A64Machine.Proofs.Execution.CheckedMachine
import A64Machine.Proofs.Unit.Predecessors

/-!
The units of a new CPU.  Each has its own first-level cache and stack and nothing to do, its stack
is clear and has the size of the configuration, and its caches agree with RAM.
-/

namespace A64Machine

/-- What stands at a place of the first of two lists that correspond has its counterpart there. -/
theorem exists_getElem?_of_forall₂ {α β : Type} {p : α → β → Prop} {xs : List α} {ys : Array β}
    (hforall : List.Forall₂ p xs ys.toList) {i : Nat} {x : α} (hx : xs[i]? = some x) :
    ∃ y, ys[i]? = some y ∧ p x y := by
  obtain ⟨hi, rfl⟩ := List.getElem?_eq_some_iff.1 hx
  have hlt : i < ys.toList.length := by
    rw [← hforall.length_eq]
    exact hi
  refine ⟨ys.toList[i], ?_, hforall.get hi hlt⟩
  rw [← Array.getElem?_toList]
  exact List.getElem?_eq_getElem hlt

namespace Cpu

variable {cpu : Cpu}

/-- The unit that a core makes up together with its part of the hierarchy. -/
def joined (cpu : Cpu) (core : Core) : ExecutionUnit where
  worker := core.worker
  memory :=
    { hierarchy := cpu.hierarchy.memory core.l1, stack := core.stack, events := cpu.events }

/-- Every unit of a CPU that was built is new, with the stack of the configuration and all of RAM.
-/
theorem exists_new_of_build {config : CpuConfig} (hbuild : build config = .ok cpu)
    {index thread : Nat} (hindex : index < config.cores.toNat)
    (hthread : thread < config.threadsPerCore.toNat) :
    ∃ core, cpu.core? index thread = some core ∧ (cpu.joined core).New ∧
      (cpu.joined core).worker.index = index * config.threadsPerCore.toNat + thread ∧
      (cpu.joined core).memory.map = ⟨config.privateSize.toNat, config.ramSize.toNat⟩ := by
  have hnew := new_of_build hbuild
  have hrange : (List.range config.cores.toNat)[index]? = some index := List.getElem?_range hindex
  have hunit : (unitIndices config.threadsPerCore.toNat index)[thread]? =
      some (index * config.threadsPerCore.toNat + thread) := by
    rw [unitIndices, List.getElem?_map, List.getElem?_range hthread]
    rfl
  obtain ⟨m, hm, hmodule⟩ := exists_getElem?_of_forall₂ hnew.modules hrange
  obtain ⟨core, hcore, hfresh⟩ := exists_getElem?_of_forall₂ hmodule.cores hunit
  obtain ⟨memory, hmemory, hreachable, hsize⟩ := hnew.chains core.l1 hfresh.l1.lt_next
  have hfound : cpu.hierarchy.memory core.l1 = memory := Hierarchy.memory_eq hmemory
  have hindex : core.worker.index = index * config.threadsPerCore.toNat + thread :=
    congrArg Worker.index hfresh.worker_eq
  refine ⟨core, ?_, ⟨?_, ?_⟩, hindex, ?_⟩
  · rw [core?, hm]
    exact hcore
  · rw [joined, hindex]
    exact hfresh.worker_eq
  · rw [joined, hfound]
    exact .start hreachable core.stack _
  · rw [joined, UnitMemory.map, hfound, hsize, hfresh.stack_eq, Ram.size, Ram.zeroed]
    rw [Array.size_replicate]

/-- A call on a unit that succeeds leaves its core behind. -/
theorem exists_onUnit {index thread : Nat} {core : Core}
    (hcore : cpu.core? index thread = some core) {α : Type}
    {call : ExecutionUnit → Except Violation (α × ExecutionUnit)} {value : α} {unit : ExecutionUnit}
    (hcall : call (cpu.joined core) = .ok (value, unit)) :
    ∃ after, cpu.onUnit index thread call = .ok (some value, after) ∧
      after.core? index thread =
        some { core with stack := unit.memory.stack, worker := unit.worker } := by
  let after : Core := { core with stack := unit.memory.stack, worker := unit.worker }
  let put : Cpu :=
    { cpu.setCore index thread after with
      hierarchy := cpu.hierarchy.replace core.l1 unit.memory.hierarchy
      events := unit.memory.events }
  refine ⟨put, ?_, core?_setCore hcore after⟩
  rw [onUnit, hcore]
  change (call (cpu.joined core) >>= _) = _
  rw [hcall]
  rfl

end Cpu

/-- The stack and the heap of one thread fit in RAM. -/
theorem CpuConfig.privateSize_le_of_validate {config : CpuConfig}
    (hvalid : config.validate = .ok ()) : config.privateSize.toNat ≤ config.ramSize.toNat := by
  obtain ⟨hcores, hthreads⟩ := positive_of_validate hvalid
  obtain ⟨-, hfits | hlargest⟩ := validate_eq_ok_iff.1 hvalid
  · have hsum : config.privateSize.toNat ≤ config.stackSize.toNat + config.heapSize.toNat := by
      rw [privateSize, toNat_saturatingAdd]
      exact Nat.min_le_left _ _
    calc config.privateSize.toNat
      _ ≤ config.stackSize.toNat + config.heapSize.toNat := hsum
      _ ≤ (config.stackSize.toNat + config.heapSize.toNat) * config.cores.toNat :=
        Nat.le_mul_of_pos_right _ hcores
      _ ≤ config.processMemory := Nat.le_mul_of_pos_right _ hthreads
      _ ≤ config.ramSize.toNat := hfits
  · rw [hlargest]
    exact Nat.le_pred_of_lt config.privateSize.toNat_lt

/-- The stack of every unit ends at a byte address. -/
theorem Cpu.stackTop_lt_of_build {config : CpuConfig} {cpu : Cpu}
    (hbuild : build config = .ok cpu) :
    stackBase + config.privateSize.toNat * wordBytes < UInt64.size := by
  obtain ⟨ram, started, l3, cached, grown, hvalid, hram, -⟩ := build_eq_ok hbuild
  obtain ⟨hram, -⟩ := addRam_eq_ok hram
  have hprivate := CpuConfig.privateSize_le_of_validate hvalid
  let map : AddressMap := ⟨config.privateSize.toNat, config.ramSize.toNat⟩
  have hstack : map.stackWords ≤ Ram.maxWords := Nat.le_trans hprivate hram
  exact Checked.stackTop_lt hstack

end A64Machine
