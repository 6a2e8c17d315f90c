import A64Machine.Proofs.Cpu.Units
import A64Machine.Proofs.Execution.Countdown
import A64Machine.Proofs.Unit.Completion

/-!
The countdown on a CPU.  Whatever the sizes of its memories are, and on whichever of its units the
program runs, it ends with the sum of the numbers that it has counted down.
-/

namespace A64Machine

namespace Cpu

/-- The countdown from any number of 16 bits, on any unit of a new CPU: it ends ready and without a
fault, with the sum in X0 and nothing left in X1, after three instructions for each number and three
others; it has come to the exit address, and the stack pointer is where it was at first. -/
theorem countdown_sums {config : CpuConfig} {cpu : Cpu} (hbuild : build config = .ok cpu)
    {index thread : Nat} (hindex : index < config.cores.toNat)
    (hthread : thread < config.threadsPerCore.toNat) {n : Nat} (hfirst : 1 ≤ n) (hlast : n ≤ 65535)
    {fuel : Nat} (hfuel : 3 * n + 5 ≤ fuel) :
    ∃ after ticket, cpu.submit fuel index thread (.countdown n) .run = .ok (some 0, after) ∧
      after.ticket? index thread 0 = some ticket ∧ ticket.state = .ready ∧ ticket.fault = none ∧
      (ticket.frame.gprs.get 0).toNat = n * (n + 1) / 2 ∧ ticket.frame.gprs.get 1 = 0 ∧
      ticket.frame.retired = 3 * n + 3 ∧ ticket.frame.pc.toNat = 2 ^ 64 - 1 ∧
      ticket.frame.sp.toNat = stackBase + config.privateSize.toNat * wordBytes := by
  obtain ⟨core, hcore, hnew, -, hmap⟩ := exists_new_of_build hbuild hindex hthread
  have hline : 6 ≤ config.ramSize.toNat :=
    Nat.le_trans (by decide) (lineSize_le_of_build hbuild)
  have hsize : (cpu.joined core).memory.hierarchy.size = config.ramSize.toNat :=
    congrArg AddressMap.hierarchyWords hmap
  have hwords := (UnitMemory.map_words (cpu.joined core).memory).trans hmap
  have hram : (cpu.joined core).memory.words.ram.size = config.ramSize.toNat :=
    congrArg AddressMap.hierarchyWords hwords
  obtain ⟨last, hretires, hpc, hsum, hcounter, hsp⟩ :=
    Countdown.exists_retires hfirst (Nat.lt_succ_of_le hlast) (by rwa [hram])
  obtain ⟨settled, hsettle, htickets⟩ :=
    hnew.idle.completes hnew.sound (by rwa [hsize]) hretires (.inl hpc) hfuel
  rw [hnew.tickets_eq] at htickets
  let call (unit : ExecutionUnit) : Except Violation (Nat × ExecutionUnit) := do
    let settled ← ExecutionUnit.settle fuel (unit.submitted (.countdown n) .run)
    pure (unit.worker.tickets.size, settled)
  have hcall : call (cpu.joined core) = .ok (0, settled) := by
    simp only [call, hsettle, hnew.tickets_eq]
    rfl
  obtain ⟨after, hsubmit, hafter⟩ := exists_onUnit hcore hcall
  refine ⟨after, .completed (3 * n + 3) last, hsubmit, ?_, rfl, rfl, hsum, hcounter, rfl, ?_, ?_⟩
  · rw [ticket?, hafter]
    change settled.worker.tickets[0]? = _
    rw [htickets]
    rfl
  · change last.regs.pc.toNat = _
    rw [hpc, programExit, BitVec.toNat_allOnes]
  · change last.regs.sp.toNat = _
    rw [hsp, hwords, BitVec.toNat_ofNat]
    exact Nat.mod_eq_of_lt (stackTop_lt_of_build hbuild)

/-- The bundled countdown on the last unit of two cores with two threads each. -/
theorem countdown_sums_ten :
    ∃ cpu after ticket, build
        { cores := 2, threadsPerCore := 2, l1Size := 64, l2Size := 64, l3Size := 64,
          ramSize := 128, stackSize := 16 } = .ok cpu ∧
      cpu.submit 35 1 1 .countdownSum .run = .ok (some 0, after) ∧
      after.ticket? 1 1 0 = some ticket ∧ ticket.state = .ready ∧ ticket.fault = none ∧
      (ticket.frame.gprs.get 0).toNat = 55 ∧ ticket.frame.gprs.get 1 = 0 ∧
      ticket.frame.retired = 33 ∧ ticket.frame.pc.toNat = 2 ^ 64 - 1 ∧
      ticket.frame.sp.toNat = 0x7FFF00000040 := by
  let config : CpuConfig :=
    { cores := 2, threadsPerCore := 2, l1Size := 64, l2Size := 64, l3Size := 64, ramSize := 128,
      stackSize := 16 }
  have hbuilds : (build config).isOk = true := by decide +kernel
  obtain ⟨cpu, hbuild⟩ := exists_of_isOk hbuilds
  have hten : Program.countdown 10 = .countdownSum := by decide
  have hindex : 1 < config.cores.toNat := by decide
  have hthread : 1 < config.threadsPerCore.toNat := by decide
  have hfirst : 1 ≤ 10 := by decide
  obtain ⟨after, ticket, hticket⟩ :=
    countdown_sums hbuild hindex hthread hfirst (by decide) (Nat.le_refl 35)
  exact ⟨cpu, after, ticket, hbuild, hten ▸ hticket⟩

end Cpu

end A64Machine
