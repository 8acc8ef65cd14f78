import Mathlib.Tactic.Common

namespace XMachine.Lib

/-!
# Library — runs of deterministic systems

Two kinds of system, each with the rule that carries a fact about one step to
a whole run.

* Halting systems: a step function repeated until a halting test holds, and
  the same with a step that may refuse.  `runPartial_sim` lifts a one-step
  simulation to runs of any length.
* Scheduled systems: a step function indexed by an action, run over an
  arbitrary list of actions.  `runActs_invariant` carries an invariant through
  every run, `runActs_invariant_of_meets` through the runs whose steps all meet
  a condition on the state they start from.  Where the condition is exact for
  staying clear of the bad states, `runMeets_iff_staysClear` says so.
  `exists_runActs_of_stutter` turns a run into one of a system with larger
  steps.  A fact about every action or moment of a run goes by recursion with
  `forall_place_cons` and `forall_moment_cons`.
-/

/-! ### Halting systems -/

section Halting

variable {σ τ : Type}

/-- At most `n` steps, none from a halted state. -/
def runHalting (halted : σ → Bool) (step : σ → σ) : ℕ → σ → σ
  | 0, s => s
  | n + 1, s => if halted s then s else runHalting halted step n (step s)

/-- The same for a step that may refuse; a refusal ends the run with `none`. -/
def runPartial (halted : τ → Bool) (step : τ → Option τ) : ℕ → τ → Option τ
  | 0, t => some t
  | n + 1, t => if halted t then some t else (step t).bind (runPartial halted step n)

/-- **Simulation.**  If `abs` commutes with one step wherever the abstract
    step does not refuse, it commutes with every run that is not refused. -/
theorem runPartial_sim {haltedC : σ → Bool} {stepC : σ → σ} {haltedA : τ → Bool}
    {stepA : τ → Option τ} {abs : σ → τ} (hhalt : ∀ s, haltedA (abs s) = haltedC s)
    (hstep : ∀ s t, stepA (abs s) = some t → abs (stepC s) = t) (n : ℕ) (s : σ) (t : τ)
    (hrun : runPartial haltedA stepA n (abs s) = some t) :
    abs (runHalting haltedC stepC n s) = t := by
  induction n generalizing s with
  | zero =>
    rw [runPartial, Option.some.injEq] at hrun
    rw [runHalting, hrun]
  | succ n ih =>
    rw [runPartial, hhalt] at hrun
    rw [runHalting]
    by_cases hs : haltedC s = true
    · rw [if_pos hs, Option.some.injEq] at hrun
      rw [if_pos hs, hrun]
    · rw [if_neg hs] at hrun
      rw [if_neg hs]
      obtain ⟨u, hu, hrest⟩ := Option.bind_eq_some_iff.mp hrun
      rw [← hstep s u hu] at hrest
      exact ih (stepC s) hrest

end Halting

/-! ### Scheduled systems -/

section Scheduled

variable {σ α : Type} {step : α → σ → σ}

/-- The state after the actions `as`, taken in this order. -/
def runActs (step : α → σ → σ) : List α → σ → σ
  | [], s => s
  | a :: as, s => runActs step as (step a s)

/-- Every action of the run meets `C` in the state it is taken in. -/
def RunMeets (step : α → σ → σ) (C : σ → α → Prop) : List α → σ → Prop
  | [], _ => True
  | a :: as, s => C s a ∧ RunMeets step C as (step a s)

theorem runActs_append (as bs : List α) (s : σ) :
    runActs step (as ++ bs) s = runActs step bs (runActs step as s) := by
  induction as generalizing s with
  | nil => rfl
  | cons a as ih => exact ih (step a s)

theorem runActs_invariant_of_meets {C : σ → α → Prop} {I : σ → Prop}
    (hstep : ∀ s a, I s → C s a → I (step a s)) (as : List α) (s : σ) (hs : I s)
    (hrun : RunMeets step C as s) : I (runActs step as s) := by
  induction as generalizing s with
  | nil => exact hs
  | cons a as ih => exact ih (step a s) (hstep s a hs hrun.1) hrun.2

theorem runActs_invariant {I : σ → Prop} (hstep : ∀ s a, I s → I (step a s)) (as : List α) (s : σ)
    (hs : I s) : I (runActs step as s) := by
  induction as generalizing s with
  | nil => exact hs
  | cons a as ih => exact ih (step a s) (hstep s a hs)

/-- A fact about every action of a run, with what comes before and behind it:
    the first action, and the rest of the run. -/
theorem forall_place_cons {P : List α → α → List α → Prop} {a : α} {as : List α} :
    (∀ u b w, a :: as = u ++ b :: w → P u b w) ↔
      P [] a as ∧ ∀ u b w, as = u ++ b :: w → P (a :: u) b w := by
  constructor
  · intro h
    exact ⟨h [] a as rfl, fun u b w hw => h (a :: u) b w (congrArg (a :: ·) hw)⟩
  · rintro ⟨hfirst, hrest⟩ u b w hw
    cases u with
    | nil =>
      obtain ⟨rfl, rfl⟩ := List.cons.inj hw
      exact hfirst
    | cons c u =>
      obtain ⟨rfl, rfl⟩ := List.cons.inj hw
      exact hrest u b w rfl

/-- The same for a fact about every moment of a run. -/
theorem forall_moment_cons {P : List α → Prop} {a : α} {as : List α} :
    (∀ u w, a :: as = u ++ w → P u) ↔ P [] ∧ ∀ u w, as = u ++ w → P (a :: u) := by
  constructor
  · intro h
    exact ⟨h [] (a :: as) rfl, fun u w hw => h (a :: u) w (congrArg (a :: ·) hw)⟩
  · rintro ⟨hnow, hrest⟩ u w hw
    cases u with
    | nil => exact hnow
    | cons c u =>
      obtain ⟨rfl, rfl⟩ := List.cons.inj hw
      exact hrest u w rfl

/-- A condition on the actions alone. -/
theorem RunMeets.of_forall {P : α → Prop} {as : List α} (has : ∀ a ∈ as, P a) (s : σ) :
    RunMeets step (fun _ a => P a) as s := by
  induction as generalizing s with
  | nil => trivial
  | cons a as ih =>
    exact ⟨has a List.mem_cons_self, ih (fun b hb => has b (List.mem_cons_of_mem a hb)) (step a s)⟩

theorem RunMeets.and {C D : σ → α → Prop} {as : List α} {s : σ} (hC : RunMeets step C as s)
    (hD : RunMeets step D as s) : RunMeets step (fun s a => C s a ∧ D s a) as s := by
  induction as generalizing s with
  | nil => trivial
  | cons a as ih => exact ⟨⟨hC.1, hD.1⟩, ih hC.2 hD.2⟩

theorem RunMeets.append {C : σ → α → Prop} {as bs : List α} {s : σ} (has : RunMeets step C as s)
    (hbs : RunMeets step C bs (runActs step as s)) : RunMeets step C (as ++ bs) s := by
  induction as generalizing s with
  | nil => exact hbs
  | cons a as ih => exact ⟨has.1, ih has.2 hbs⟩

theorem RunMeets.of_append {C : σ → α → Prop} {as bs : List α} {s : σ}
    (h : RunMeets step C (as ++ bs) s) : RunMeets step C as s := by
  induction as generalizing s with
  | nil => trivial
  | cons a as ih => exact ⟨h.1, ih h.2⟩

/-- **Stuttering.**  If every step that meets `C` leaves the abstract state as it
    was or takes a step of the abstract system that meets `D`, a run whose steps
    meet `C` is one of the abstract system whose steps meet `D`. -/
theorem exists_runActs_of_stutter {τ β : Type} {stepA : β → τ → τ} {abs : σ → τ}
    {C : σ → α → Prop} {D : τ → β → Prop} {I : σ → Prop}
    (hinv : ∀ s a, I s → C s a → I (step a s))
    (hstep : ∀ s a, I s → C s a →
      abs (step a s) = abs s ∨ ∃ b, D (abs s) b ∧ abs (step a s) = stepA b (abs s))
    (as : List α) (s : σ) (hs : I s) (hrun : RunMeets step C as s) :
    ∃ bs, RunMeets stepA D bs (abs s) ∧ abs (runActs step as s) = runActs stepA bs (abs s) := by
  induction as generalizing s with
  | nil => exact ⟨[], trivial, rfl⟩
  | cons a as ih =>
    obtain ⟨bs, hbs, hend⟩ := ih (step a s) (hinv s a hs hrun.1) hrun.2
    rcases hstep s a hs hrun.1 with hstay | ⟨b, hb, hgoes⟩
    · rw [hstay] at hbs hend
      exact ⟨bs, hbs, hend⟩
    · rw [hgoes] at hbs hend
      exact ⟨b :: bs, ⟨hb, hbs⟩, hend⟩

/-- No state of the run is bad, and none becomes bad by steps that meet `C`. -/
def StaysClear (step : α → σ → σ) (C : σ → α → Prop) (Bad : σ → Prop) (as : List α) (s : σ) :
    Prop :=
  ∀ as₁ as₂, as = as₁ ++ as₂ → ∀ bs, RunMeets step C bs (runActs step as₁ s) →
    ¬ Bad (runActs step (as₁ ++ bs) s)

/-- **Exact condition.**  Steps that meet `C` keep an invariant free of bad
    states, and after a step that does not meet it some run of steps that do
    ends in a bad state: the runs that meet `C` are those that stay clear. -/
theorem runMeets_iff_staysClear {C : σ → α → Prop} {I Bad : σ → Prop}
    (hstep : ∀ s a, I s → C s a → I (step a s)) (hgood : ∀ s, I s → ¬ Bad s)
    (hbad : ∀ s a, I s → ¬ C s a →
      ∃ bs, RunMeets step C bs (step a s) ∧ Bad (runActs step bs (step a s)))
    (as : List α) (s : σ) (hs : I s) : RunMeets step C as s ↔ StaysClear step C Bad as s := by
  constructor
  · rintro hmeets as₁ as₂ rfl bs hbs
    exact hgood _ (runActs_invariant_of_meets hstep _ s hs (hmeets.of_append.append hbs))
  · intro hclear
    induction as generalizing s with
    | nil => trivial
    | cons a as ih =>
      -- The first action meets the condition, or the run ends badly after it.
      have ha : C s a := by
        by_contra hC
        obtain ⟨bs, hbs, hend⟩ := hbad s a hs hC
        exact hclear [a] as rfl bs hbs hend
      refine ⟨ha, ih (step a s) (hstep s a hs ha) fun as₁ as₂ has bs hbs => ?_⟩
      exact hclear (a :: as₁) as₂ (by rw [has]; rfl) bs hbs

instance decidableRunMeets {C : σ → α → Prop} [∀ s a, Decidable (C s a)] :
    ∀ (as : List α) (s : σ), Decidable (RunMeets step C as s)
  | [], _ => instDecidableTrue
  | a :: as, s =>
    have : Decidable (RunMeets step C as (step a s)) := decidableRunMeets as (step a s)
    inferInstanceAs (Decidable (C s a ∧ RunMeets step C as (step a s)))

end Scheduled

end XMachine.Lib
