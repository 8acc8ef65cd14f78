import XMachine.Lib.Reaches
import XMachine.Unibus.Processor

namespace XMachine.Guest

open XMachine.Lib XMachine.Cpu XMachine.Mem XMachine.Unibus.BusMemory.Processor
open XMachine.Unibus.BusMemory (Act roundRobin roundRobin_fair)

/-!
# Guest programs — what is shown of the ideal machine and the emulator

`Reaches iteration Served Q` is shown with rules for instructions, of the ideal
machine.  It is what the emulator does.

* `exists_execute` — the same about `execute`;
* `halts_of_reaches` — the emulator comes to the end shown, whatever the schedule;
* `halts_iff_reaches` — and it halts only where the rules can show it.
-/

theorem execute_succ_of_served {m : Machine} (hs : Served m) (n : ℕ) :
    execute (n + 1) m = execute n (iteration m) := by
  rw [execute, if_neg (by rw [hs.1]; exact Bool.false_ne_true)]

/-- The ideal run, from a state that leads to `Q`. -/
theorem exists_execute {Q : Machine → Prop} {m : Machine}
    (h : Reaches iteration Served Q m) :
    ∃ n, (∀ j < n, Served (execute j m)) ∧ Q (execute n m) := by
  induction h with
  | here hs => exact ⟨0, fun j hj => absurd hj (Nat.not_lt_zero j), hs⟩
  | next hs _ ih =>
    obtain ⟨n, hserved, hend⟩ := ih
    refine ⟨n + 1, fun j hj => ?_, by rwa [execute_succ_of_served hs]⟩
    cases j with
    | zero => exact hs
    | succ j =>
      rw [execute_succ_of_served hs]
      exact hserved j (Nat.lt_of_succ_lt_succ hj)

theorem reaches_of_execute {Q : Machine → Prop} {m : Machine} (n : ℕ)
    (hserved : ∀ j < n, Served (execute j m)) (hQ : Q (execute n m)) :
    Reaches iteration Served Q m := by
  induction n generalizing m with
  | zero => exact .here hQ
  | succ n ih =>
    have hs : Served m := hserved 0 (Nat.succ_pos n)
    refine .next hs (ih (fun j hj => ?_) (by rwa [← execute_succ_of_served hs]))
    rw [← execute_succ_of_served hs]
    exact hserved (j + 1) (Nat.succ_lt_succ hj)

section Emulator

variable {p : Word} {dev : MemDev} {sched : ℕ → Act}

/-- What is shown of the ideal run holds of the emulator's registers and store
    from some time on, under any fair schedule. -/
theorem halts_of_reaches (hfair : FairSchedule Act.thread sched) {Q : Machine → Prop}
    (h : Reaches iteration Served (fun m => m.halted = true ∧ Q m) (Cpu.start dev.image p)) :
    ∃ m, m.halted = true ∧ Q m ∧ ∃ t₀, ∀ t, t₀ ≤ t →
      let s := trace step sched (Unibus.BusMemory.Processor.start p dev) t
      s.program = .done (m.setMem noStore) ∧ s.bus.mem.dev.Agrees m.mem := by
  obtain ⟨n, hserved, hhalted, hQ⟩ := exists_execute h
  exact ⟨_, hhalted, hQ, halts_ideal p dev hfair hserved hhalted⟩

/-- Where a run of the emulator has halted, served iterations of the ideal machine lead. -/
theorem reaches_of_done {t : ℕ} {m : Machine}
    (hdone : (trace step sched (Unibus.BusMemory.Processor.start p dev) t).program = .done m)
    (hhalted : m.halted = true) :
    Reaches iteration Served (fun m' => m'.halted = true ∧ m'.regs = m.regs)
      (Cpu.start dev.image p) := by
  obtain ⟨k, i, hplace⟩ := place_trace sched p dev t
  obtain ⟨rfl, -⟩ := hplace.ended_eq hdone
  exact reaches_of_execute _ hplace.history ⟨hhalted, rfl⟩

/-- **The rules show what the emulator does, and all of it**: under any fair
    schedule it halts with registers in `Q` if and only if the ideal machine is
    led there by served iterations. -/
theorem halts_iff_reaches (hfair : FairSchedule Act.thread sched) (Q : (Reg → Word) → Prop) :
    (∃ t m, (trace step sched (Unibus.BusMemory.Processor.start p dev) t).program = .done m ∧
        m.halted = true ∧ Q m.regs) ↔
      Reaches iteration Served (fun m => m.halted = true ∧ Q m.regs)
        (Cpu.start dev.image p) := by
  constructor
  · rintro ⟨t, m, hdone, hhalted, hQ⟩
    exact (reaches_of_done hdone hhalted).mono fun _ h => ⟨h.1, h.2 ▸ hQ⟩
  · intro h
    obtain ⟨m, hhalted, hQ, t₀, hend⟩ := halts_of_reaches hfair h
    exact ⟨t₀, m.setMem noStore, (hend t₀ (Nat.le_refl t₀)).1, hhalted, hQ⟩

end Emulator

/-- An INC and the HALT behind it. -/
theorem halts_iff_reaches_inc :
    ∃ t m, (trace step roundRobin (Unibus.BusMemory.Processor.start 2 incMem) t).program
      = .done m ∧ m.halted = true ∧ m.regs .pc = 6 := by
  have hend : (execute 2 (Cpu.start incMem.image 2)).halted = true ∧
      (execute 2 (Cpu.start incMem.image 2)).regs .pc = 6 := by decide +kernel
  exact (halts_iff_reaches roundRobin_fair fun regs => regs .pc = 6).mpr
    (reaches_of_execute 2 served_incMem hend)

end XMachine.Guest
