import Mathlib.Algebra.GroupWithZero.Nat
import XMachine.Lib.Fairness

namespace XMachine.Lib

/-!
# Library — potentials

A potential prices what is still to be done in a state: an action that serves
lowers it, and only an action with a gain raises it.

* `Potential` — the potential with the proof of its one step;
* `Potential.services_le` — over a finite run no more is served than the start
  and the gains pay for;
* `Potential.exists_idle` — along a schedule without gains from some point on,
  service comes to an end.
-/

variable {σ α : Type}

/-- How many actions of the run serve. -/
def services (step : α → σ → σ) (serves : σ → α → Bool) : List α → σ → ℕ
  | [], _ => 0
  | a :: as, s => (serves s a).toNat + services step serves as (step a s)

/-- What pays for the actions that serve. -/
structure Potential (step : α → σ → σ) (serves : σ → α → Bool) (gain : α → ℕ) where
  val : σ → ℕ
  step_le : ∀ s a, val (step a s) + (serves s a).toNat ≤ val s + gain a

section

variable {step : α → σ → σ} {serves : σ → α → Bool} {gain : α → ℕ}

/-- **Service is paid for**, over any run. -/
theorem Potential.services_le (P : Potential step serves gain) (as : List α) (s : σ) :
    services step serves as s + P.val (runActs step as s) ≤ P.val s + (as.map gain).sum := by
  induction as generalizing s with
  | nil =>
    show 0 + P.val s ≤ P.val s + 0
    omega
  | cons a as ih =>
    have hfirst := P.step_le s a
    have hrest := ih (step a s)
    rw [services, runActs, List.map_cons, List.sum_cons]
    omega

/-- **Service comes to an end** where nothing pays for more. -/
theorem Potential.exists_idle (P : Potential step serves gain) {sched : ℕ → α} {s : σ} {T : ℕ}
    (hgain : ∀ t, T ≤ t → gain (sched t) = 0) :
    ∃ T', T ≤ T' ∧ ∀ t, T' ≤ t → serves (trace step sched s t) (sched t) = false := by
  -- by induction on what is left at `T`
  generalize hk : P.val (trace step sched s T) = k
  induction k using Nat.strongRecOn generalizing T with
  | ind k ih =>
    by_cases hidle : ∀ t, T ≤ t → serves (trace step sched s t) (sched t) = false
    · exact ⟨T, Nat.le_refl T, hidle⟩
    · push Not at hidle
      obtain ⟨t, ht, hserves⟩ := hidle
      rw [ne_eq, Bool.not_eq_false] at hserves
      have hfall : ∀ d, P.val (trace step sched s (T + d)) ≤ P.val (trace step sched s T) := by
        intro d
        induction d with
        | zero => exact Nat.le_refl _
        | succ d ihd =>
          have hstep := P.step_le (trace step sched s (T + d)) (sched (T + d))
          rw [hgain (T + d) (by omega)] at hstep
          exact Nat.le_trans (Nat.le_trans (Nat.le_add_right _ _) hstep) ihd
      obtain ⟨d, rfl⟩ := Nat.exists_eq_add_of_le ht
      have hbefore := hfall d
      have hstep := P.step_le (trace step sched s (T + d)) (sched (T + d))
      rw [hgain (T + d) ht, hserves, Bool.toNat_true] at hstep
      have hlt : P.val (trace step sched s (T + d + 1)) < k := by
        rw [trace]
        omega
      obtain ⟨T', hT, hidle⟩ := ih _ hlt (fun u hu => hgain u (by omega)) rfl
      exact ⟨T', by omega, hidle⟩

end

/-! ### Along a schedule -/

/-- An action that is taken again and again. -/
def Recurs (sched : ℕ → α) (a : α) : Prop := ∀ t, ∃ t', t ≤ t' ∧ sched t' = a

end XMachine.Lib
