import XMachine.Lib.Simulation

namespace XMachine.Lib

/-!
# Library — fair schedules

A schedule is an infinite sequence of actions, each of which belongs to a
thread.  It is fair if every thread acts again and again.  `eventually_of_fair`
is the rule of helpful threads: if at every place some thread's action lowers a
rank, and the actions of the others keep rank and helpful thread or lower the
rank too, then every fair schedule reaches its goal.

`Progresses` asks for less: while the goal is ahead, some later action serves.
`eventually_of_progress` is its rule, `exists_progresses` says that there is
such a schedule wherever some action serves.
-/

variable {σ α ι : Type}

/-- The states along a schedule. -/
def trace (step : α → σ → σ) (sched : ℕ → α) (s : σ) : ℕ → σ
  | 0 => s
  | n + 1 => step (sched n) (trace step sched s n)

/-- Every thread acts again and again. -/
def FairSchedule (thread : α → ι) (sched : ℕ → α) : Prop :=
  ∀ i n, ∃ m, n ≤ m ∧ thread (sched m) = i

theorem trace_eq_runActs (step : α → σ → σ) (sched : ℕ → α) (s : σ) (n : ℕ) :
    trace step sched s n = runActs step ((List.range n).map sched) s := by
  induction n with
  | zero => rfl
  | succ n ih =>
    rw [List.range_succ, List.map_append, runActs_append, ← ih]
    rfl

theorem trace_invariant {step : α → σ → σ} {I : σ → Prop} (hstep : ∀ s a, I s → I (step a s))
    (sched : ℕ → α) {s : σ} (hs : I s) (n : ℕ) : I (trace step sched s n) := by
  rw [trace_eq_runActs]
  exact runActs_invariant hstep _ s hs

/-- **Helpful threads.**  `At s k i`: the system is in state `s` at a place of
    rank `k` where thread `i` is the helpful one. -/
theorem eventually_of_fair {step : α → σ → σ} {thread : α → ι} {sched : ℕ → α} {Goal : σ → Prop}
    {At : σ → ℕ → ι → Prop} (hfair : FairSchedule thread sched)
    (hhelp : ∀ s k i a, At s k i → ¬ Goal s → thread a = i →
      ∃ k' i', k' < k ∧ At (step a s) k' i')
    (hkeep : ∀ s k i a, At s k i → ¬ Goal s → thread a ≠ i →
      At (step a s) k i ∨ ∃ k' i', k' < k ∧ At (step a s) k' i')
    {s : σ} {n k : ℕ} {i : ι} (hat : At (trace step sched s n) k i) :
    ∃ m, Goal (trace step sched s m) := by
  induction k using Nat.strongRecOn generalizing n i with
  | ind k ih =>
    by_contra hnever
    have hnot (m : ℕ) : ¬ Goal (trace step sched s m) := fun hm => hnever ⟨m, hm⟩
    obtain ⟨m, hnm, hm⟩ := hfair i n
    -- Until the helpful thread acts at `m` the rank stays, or it falls before.
    have hstay : ∀ d, n + d ≤ m → At (trace step sched s (n + d)) k i := by
      intro d
      induction d with
      | zero => exact fun _ => hat
      | succ d ihd =>
        intro hd
        have hatd := ihd (by omega)
        by_cases ha : thread (sched (n + d)) = i
        · obtain ⟨k', i', hk, hat'⟩ := hhelp _ _ _ _ hatd (hnot _) ha
          exact absurd (ih k' hk (n := n + d + 1) hat') hnever
        · rcases hkeep _ _ _ _ hatd (hnot _) ha with hat' | ⟨k', i', hk, hat'⟩
          · exact hat'
          · exact absurd (ih k' hk (n := n + d + 1) hat') hnever
    obtain ⟨d, rfl⟩ := Nat.exists_eq_add_of_le hnm
    obtain ⟨k', i', hk, hat'⟩ := hhelp _ _ _ _ (hstay d (Nat.le_refl _)) (hnot _) hm
    exact hnever (ih k' hk (n := n + d + 1) hat')

/-! ### Schedules that go on serving -/

section Progress

variable {step : α → σ → σ} {Serves : α → σ → Prop} {Goal I : σ → Prop}

/-- While the goal is ahead, some later action serves. -/
def Progresses (step : α → σ → σ) (Serves : α → σ → Prop) (Goal : σ → Prop) (sched : ℕ → α)
    (s : σ) : Prop :=
  ∀ n, ¬ Goal (trace step sched s n) → ∃ m, n ≤ m ∧ Serves (sched m) (trace step sched s m)

/-- If serving lowers a rank that nothing raises, such a schedule comes to its goal. -/
theorem eventually_of_progress (rank : σ → ℕ) (hI : ∀ s a, I s → I (step a s))
    (hle : ∀ s a, I s → rank (step a s) ≤ rank s)
    (hlt : ∀ s a, I s → Serves a s → rank (step a s) < rank s) {sched : ℕ → α} {s : σ}
    (hs : I s) (hprogress : Progresses step Serves Goal sched s) :
    ∃ n, Goal (trace step sched s n) := by
  by_contra hnever
  have hinv (n : ℕ) : I (trace step sched s n) := trace_invariant hI sched hs n
  have hmono : ∀ n d, rank (trace step sched s (n + d)) ≤ rank (trace step sched s n) := by
    intro n d
    induction d with
    | zero => exact Nat.le_refl _
    | succ d ih => exact Nat.le_trans (hle _ _ (hinv (n + d))) ih
  -- the rank falls below every bound
  have hfall : ∀ k, ∃ n, rank (trace step sched s n) + k ≤ rank s := by
    intro k
    induction k with
    | zero => exact ⟨0, Nat.le_refl _⟩
    | succ k ih =>
      obtain ⟨n, hn⟩ := ih
      obtain ⟨m, hnm, hserve⟩ := hprogress n fun hgoal => hnever ⟨n, hgoal⟩
      obtain ⟨d, rfl⟩ := Nat.exists_eq_add_of_le hnm
      have hlow : rank (trace step sched s (n + d + 1)) < rank (trace step sched s (n + d)) :=
        hlt _ _ (hinv (n + d)) hserve
      have := hmono n d
      exact ⟨n + d + 1, by omega⟩
  obtain ⟨n, hn⟩ := hfall (rank s + 1)
  omega

/-- There is such a schedule wherever some action serves. -/
theorem exists_progresses (a₀ : α) (hI : ∀ s a, I s → I (step a s))
    (hserve : ∀ s, I s → ¬ Goal s → ∃ a, Serves a s) {s : σ} (hs : I s) :
    ∃ sched, Progresses step Serves Goal sched s := by
  -- act so that it serves, where that is possible
  have hact : ∀ t, ∃ a, (∃ b, Serves b t) → Serves a t := by
    intro t
    by_cases h : ∃ b, Serves b t
    · obtain ⟨b, hb⟩ := h
      exact ⟨b, fun _ => hb⟩
    · exact ⟨a₀, fun h' => absurd h' h⟩
  obtain ⟨pick, hpick⟩ := Classical.skolem.mp hact
  let visit : ℕ → σ := Nat.rec s fun _ t => step (pick t) t
  have hvisit : ∀ n, trace step (fun n => pick (visit n)) s n = visit n := by
    intro n
    induction n with
    | zero => rfl
    | succ n ih => rw [trace, ih]
  refine ⟨fun n => pick (visit n), fun n hgoal => ⟨n, Nat.le_refl n, ?_⟩⟩
  have hinv : I (trace step (fun n => pick (visit n)) s n) := trace_invariant hI _ hs n
  have hserved := hpick _ (hserve _ hinv hgoal)
  rw [hvisit] at hserved ⊢
  exact hserved

end Progress

end XMachine.Lib
