import Mathlib.Tactic.Common

namespace XMachine.Lib

/-!
# Library — guarded reachability of a deterministic system

`Reaches step G Q s`: from `s` the system comes to a state in `Q`, and every
state it makes a step from on the way is in the guard `G`.  A specification of a
piece of code is such a statement for every state in a precondition.

* `Reaches.trans`, `Reaches.loop` — one piece after another, and a loop with its
  invariant and the number of turns that are left;
* `Reaches.meet` — two ends outside the guard are one.
-/

variable {σ : Type} {step : σ → σ} {G : σ → Prop} {P Q R : σ → Prop} {s : σ}

/-- The system comes from `s` to `Q`, stepping from states in `G` only. -/
inductive Reaches (step : σ → σ) (G Q : σ → Prop) : σ → Prop
  | here {s : σ} (hs : Q s) : Reaches step G Q s
  | next {s : σ} (hs : G s) (h : Reaches step G Q (step s)) : Reaches step G Q s

namespace Reaches

/-- One step. -/
theorem one (hs : G s) (hQ : Q (step s)) : Reaches step G Q s := .next hs (.here hQ)

/-- What is known where the first piece ends starts the second one. -/
theorem trans (h : Reaches step G P s) (hP : ∀ t, P t → Reaches step G Q t) :
    Reaches step G Q s := by
  induction h with
  | here ht => exact hP _ ht
  | next hs _ ih => exact .next hs ih

theorem mono (h : Reaches step G P s) (hP : ∀ t, P t → Q t) : Reaches step G Q s :=
  h.trans fun t ht => .here (hP t ht)

/-- A loop whose invariant counts the turns that are left. -/
theorem loop {I : ℕ → σ → Prop} (hturn : ∀ n t, I (n + 1) t → Reaches step G (I n) t) :
    ∀ {n : ℕ} {s : σ}, I n s → Reaches step G (I 0) s
  | 0, _, hs => .here hs
  | n + 1, s, hs => (hturn n s hs).trans fun _ ht => loop hturn ht

/-- The run is one, so it ends in one state. -/
theorem meet (hQ : ∀ t, Q t → ¬ G t) (hR : ∀ t, R t → ¬ G t) (h : Reaches step G Q s)
    (h' : Reaches step G R s) : ∃ t, Q t ∧ R t := by
  induction h with
  | here hs =>
    cases h' with
    | here hs' => exact ⟨_, hs, hs'⟩
    | next hG => exact absurd hG (hQ _ hs)
  | next hs _ ih =>
    cases h' with
    | here hs' => exact absurd hs (hR _ hs')
    | next _ h' => exact ih h'

end Reaches

end XMachine.Lib
