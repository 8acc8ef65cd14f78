import Mathlib.Tactic.Common

namespace XMachine.Lib

/-!
# Library — loops whose body takes a value from outside

`while (!halted(s)) s = body(a, s)`, where every turn gets a value `a` that the
loop has no say in.  A loop that has to end ends for every sequence of values, a
loop that can end ends for one of them.

* `ends_iff` — one turn unrolled;
* `mustEnd_turn`, `canEnd_turn` — the same for every and for some sequence;
* `not_ends_of_invariant` — an invariant that keeps the loop from ending.
-/

section Loop

variable {σ α : Type} (halted : σ → Bool) (body : α → σ → σ)

/-- At most `n` turns from `s`, turn `k` with the value `a k`. -/
def runLoop : ℕ → (ℕ → α) → σ → σ
  | 0, _, s => s
  | n + 1, a, s => if halted s then s else runLoop n (fun k => a (k + 1)) (body (a 0) s)

/-- The loop ends after finitely many turns. -/
def Ends (a : ℕ → α) (s : σ) : Prop := ∃ n, halted (runLoop halted body n a s) = true

/-- It ends whatever comes from outside. -/
def MustEnd (s : σ) : Prop := ∀ a, Ends halted body a s

/-- It ends for something that may come from outside. -/
def CanEnd (s : σ) : Prop := ∃ a, Ends halted body a s

variable {halted body} {s : σ} {a : ℕ → α}

theorem ends_of_halted (h : halted s = true) : Ends halted body a s := ⟨0, h⟩

theorem ends_iff (h : halted s = false) :
    Ends halted body a s ↔ Ends halted body (fun k => a (k + 1)) (body (a 0) s) := by
  have hturn : ∀ n, runLoop halted body (n + 1) a s
      = runLoop halted body n (fun k => a (k + 1)) (body (a 0) s) := fun n => by
    rw [runLoop, h]
    rfl
  constructor
  · rintro ⟨n, hn⟩
    cases n with
    | zero => exact absurd (hn.symm.trans h) (by decide)
    | succ n => exact ⟨n, hturn n ▸ hn⟩
  · rintro ⟨n, hn⟩
    exact ⟨n + 1, (hturn n).symm ▸ hn⟩

/-- Every sequence has a first value and a rest, and any two make a sequence. -/
theorem mustEnd_turn (h : halted s = false) :
    MustEnd halted body s ↔ ∀ x, MustEnd halted body (body x s) := by
  constructor
  · intro hs x a
    exact (ends_iff h).mp (hs fun k => k.casesOn x a)
  · intro hs a
    exact (ends_iff h).mpr (hs (a 0) _)

theorem canEnd_turn (h : halted s = false) :
    CanEnd halted body s ↔ ∃ x, CanEnd halted body (body x s) := by
  constructor
  · rintro ⟨a, ha⟩
    exact ⟨a 0, _, (ends_iff h).mp ha⟩
  · rintro ⟨x, a, ha⟩
    exact ⟨fun k => k.casesOn x a, (ends_iff h).mpr ha⟩

theorem mustEnd_of_halted (h : halted s = true) : MustEnd halted body s := fun _ => ends_of_halted h

/-- **Divergence.**  An invariant of the turns that holds of no final state. -/
theorem not_ends_of_invariant {I : σ → Prop} (hI : ∀ s, I s → halted s = false)
    (hbody : ∀ s k, I s → I (body (a k) s)) (hs : I s) : ¬ Ends halted body a s := by
  rintro ⟨n, hn⟩
  induction n generalizing a s with
  | zero => exact absurd (hn.symm.trans (hI s hs)) (by decide)
  | succ n ih =>
    rw [runLoop, hI s hs] at hn
    exact ih (fun s k => hbody s (k + 1)) (hbody s 0 hs) hn

/-- A turn that changes nothing can be taken for ever. -/
theorem not_mustEnd_of_fixed {x : α} (h : halted s = false) (hfix : body x s = s) :
    ¬ MustEnd halted body s := fun hs =>
  not_ends_of_invariant (I := (· = s)) (fun _ ht => ht ▸ h) (fun _ _ ht => by rw [ht, hfix]) rfl
    (hs fun _ => x)

/-- Where no turn changes anything the loop never ends. -/
theorem not_canEnd_of_fixed (h : halted s = false) (hfix : ∀ x, body x s = s) :
    ¬ CanEnd halted body s := fun ⟨_, ha⟩ =>
  not_ends_of_invariant (I := (· = s)) (fun _ ht => ht ▸ h) (fun _ _ ht => by rw [ht, hfix]) rfl ha

/-- A turn that does not depend on the value from outside. -/
theorem mustEnd_of_turn [Nonempty α] {t : σ} (h : halted s = false) (hturn : ∀ x, body x s = t) :
    MustEnd halted body s ↔ MustEnd halted body t := by
  simp only [mustEnd_turn h, hturn, forall_const]

theorem canEnd_of_turn [Nonempty α] {t : σ} (h : halted s = false) (hturn : ∀ x, body x s = t) :
    CanEnd halted body s ↔ CanEnd halted body t := by
  simp only [canEnd_turn h, hturn, exists_const]

end Loop

end XMachine.Lib
