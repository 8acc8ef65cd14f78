import XMachine.Unibus.Lanes

namespace XMachine.Unibus

open XMachine.Lib

/-!
# Handover — how the bus passes from one master to the next

What holds on the two lanes in every run of a chain served in order, whatever
requests are made and dropped on the way.

The right to the bus goes round in five stages: nobody has it (`free`), a
negated grant carries it to a device (`negated`), a device is master (`owned`),
its negated SACK carries it back (`released`); or the arbiter's SACK is up with
nothing left to lower it (`stuck`).  On the left lane the last master's negated
BBSY follows directly behind its negated SACK, so the arbiter cannot grant again
before that BBSY has passed every device on its way; on the right lane a grant
is always behind it.  Hence a device that takes a negated grant has seen the
last BBSY negated: `not_bbsy_of_grant`.

* `Handover` — the invariant; one lemma for each kind of move;
* `handover_reach` — it holds of every state reached;
* `grant_takes_bus` — the device told that it owns the bus does own it.
-/

abbrev Line.br : Line := (.br, ASSERTED)
abbrev Line.sackOn : Line := (.sack, ASSERTED)
abbrev Line.sackOff : Line := (.sack, NEGATED)
abbrev Line.bbsyOn : Line := (.bbsy, ASSERTED)
abbrev Line.bbsyOff : Line := (.bbsy, NEGATED)
abbrev Line.bgOn : Line := (.bg, ASSERTED)
abbrev Line.bgOff : Line := (.bg, NEGATED)

/-- Where the right to the bus is. -/
inductive Stage
  | free
  | stuck
  | negated
  | owned (k : ℕ)
  | released
  deriving DecidableEq

/-- The messages of a lane without their places. -/
def Lane.word (l : Lane) : List Line := l.map Prod.snd

/-! ### Shapes of the left lane -/

/-- Requests and acknowledgements only. -/
def Calm (w : List Line) : Prop := ∀ x ∈ w, x = .br ∨ x = .sackOn

/-- The same and a master's BBSY. -/
def Early (w : List Line) : Prop := ∀ x ∈ w, x = .br ∨ x = .sackOn ∨ x = .bbsyOn

/-- What moves towards the arbiter at each stage. -/
def Stage.Shape : Stage → List Line → Prop
  | .free, w => Calm w ∨ ∃ y, w = .bbsyOff :: y ∧ Calm y
  | .stuck, w => Calm w
  | .negated, w => Calm w
  | .owned _, w => Early w
  | .released, w => ∃ x y, w = x ++ .sackOff :: .bbsyOff :: y ∧ Early x ∧ Calm y

theorem Calm.early {w : List Line} (h : Calm w) : Early w := fun x hx =>
  (h x hx).imp_right .inl

theorem Calm.not_mem_bbsy {w : List Line} (h : Calm w) (b : Bool) : (.bbsy, b) ∉ w := by
  intro hm
  rcases h _ hm with h | h <;> cases h

theorem Early.not_mem_sackOff {w : List Line} (h : Early w) : .sackOff ∉ w := by
  intro hm
  rcases h _ hm with h | h | h <;> cases h

theorem Early.not_mem_bbsyOff {w : List Line} (h : Early w) : .bbsyOff ∉ w := by
  intro hm
  rcases h _ hm with h | h | h <;> cases h

theorem calm_append {u w : List Line} : Calm (u ++ w) ↔ Calm u ∧ Calm w :=
  List.forall_mem_append

theorem early_append {u w : List Line} : Early (u ++ w) ↔ Early u ∧ Early w :=
  List.forall_mem_append

theorem calm_cons {x : Line} {w : List Line} : Calm (x :: w) ↔ (x = .br ∨ x = .sackOn) ∧ Calm w :=
  List.forall_mem_cons

theorem early_cons {x : Line} {w : List Line} :
    Early (x :: w) ↔ (x = .br ∨ x = .sackOn ∨ x = .bbsyOn) ∧ Early w :=
  List.forall_mem_cons

/-- A list cut in two around a pair: before it, between its two, or behind. -/
theorem append_eq_append_pair {X : Type} {u w a y : List X} {s t : X}
    (h : u ++ w = a ++ s :: t :: y) :
    (∃ a', a = u ++ a' ∧ w = a' ++ s :: t :: y) ∨ (u = a ++ [s] ∧ w = t :: y) ∨
      ∃ y', u = a ++ s :: t :: y' ∧ y = y' ++ w := by
  rcases List.append_eq_append_iff.mp h with ⟨a', ha, hw⟩ | ⟨c, hu, hc⟩
  · exact .inl ⟨a', ha, hw⟩
  · match c, hc with
    | [], hc => exact .inl ⟨[], by simpa using hu.symm, by simpa using hc.symm⟩
    | [_], hc =>
      simp only [List.cons_append, List.nil_append, List.cons.injEq] at hc
      exact .inr (.inl ⟨hc.1 ▸ hu, hc.2.symm⟩)
    | _ :: _ :: c, hc =>
      simp only [List.cons_append, List.cons.injEq] at hc
      obtain ⟨rfl, rfl, rfl⟩ := hc
      exact .inr (.inr ⟨c, hu, rfl⟩)

section Shapes

variable {st : Stage} {u w : List Line} {x : Line}

/-- A request or an acknowledgement fits anywhere but before a negated BBSY. -/
theorem Stage.Shape.insert (h : st.Shape (u ++ w)) (hx : x = .br ∨ x = .sackOn)
    (hw : ∀ w', w ≠ .bbsyOff :: w') : st.Shape (u ++ x :: w) := by
  have hcalm : Calm (u ++ w) → Calm (u ++ x :: w) := fun h =>
    calm_append.mpr ⟨(calm_append.mp h).1, calm_cons.mpr ⟨hx, (calm_append.mp h).2⟩⟩
  cases st with
  | free =>
    rcases h with h | ⟨y, hy, hcy⟩
    · exact .inl (hcalm h)
    · cases u with
      | nil => exact absurd hy (hw y)
      | cons e u =>
        obtain ⟨rfl, rfl⟩ := List.cons.inj hy
        refine .inr ⟨u ++ x :: w, rfl, ?_⟩
        exact calm_append.mpr ⟨(calm_append.mp hcy).1, calm_cons.mpr ⟨hx, (calm_append.mp hcy).2⟩⟩
  | stuck => exact hcalm h
  | negated => exact hcalm h
  | owned k =>
    obtain ⟨hu, hw⟩ := early_append.mp h
    exact early_append.mpr ⟨hu, early_cons.mpr ⟨hx.imp_right .inl, hw⟩⟩
  | released =>
    obtain ⟨a, y, heq, ha, hy⟩ := h
    rcases append_eq_append_pair heq with ⟨a', rfl, rfl⟩ | ⟨-, rfl⟩ | ⟨y', rfl, rfl⟩
    · obtain ⟨hu, ha'⟩ := early_append.mp ha
      refine ⟨u ++ x :: a', y, by simp, ?_, hy⟩
      exact early_append.mpr ⟨hu, early_cons.mpr ⟨hx.imp_right .inl, ha'⟩⟩
    · exact absurd rfl (hw y)
    · refine ⟨a, y' ++ x :: w, by simp, ha, ?_⟩
      exact calm_append.mpr ⟨(calm_append.mp hy).1, calm_cons.mpr ⟨hx, (calm_append.mp hy).2⟩⟩

/-- There is at most one negated BBSY, and no BBSY behind it. -/
theorem Stage.Shape.bbsyOff_unique (h : st.Shape (u ++ .bbsyOff :: w)) :
    .bbsyOff ∉ u ∧ ∀ b, (.bbsy, b) ∉ w := by
  have hcalm : Calm (u ++ .bbsyOff :: w) → False := fun h =>
    h.not_mem_bbsy false (by simp)
  cases st with
  | free =>
    rcases h with h | ⟨y, hy, hcy⟩
    · exact (hcalm h).elim
    · cases u with
      | nil =>
        obtain ⟨-, rfl⟩ := List.cons.inj hy
        exact ⟨List.not_mem_nil, hcy.not_mem_bbsy⟩
      | cons e u =>
        obtain ⟨-, rfl⟩ := List.cons.inj hy
        exact (hcy.not_mem_bbsy false (by simp)).elim
  | stuck => exact (hcalm h).elim
  | negated => exact (hcalm h).elim
  | owned k => exact (Early.not_mem_bbsyOff h (by simp)).elim
  | released =>
    obtain ⟨a, y, heq, ha, hy⟩ := h
    rcases append_eq_append_pair heq with ⟨a', rfl, ha'⟩ | ⟨rfl, hw⟩ | ⟨y', rfl, rfl⟩
    · cases a' with
      | nil => cases (List.cons.inj ha').1
      | cons e a' =>
        obtain ⟨rfl, -⟩ := List.cons.inj ha'
        exact (ha.not_mem_bbsyOff (by simp)).elim
    · obtain ⟨-, rfl⟩ := List.cons.inj hw
      refine ⟨fun hm => ?_, hy.not_mem_bbsy⟩
      rcases List.mem_append.mp hm with hm | hm
      · exact ha.not_mem_bbsyOff hm
      · cases List.mem_singleton.mp hm
    · exact (hy.not_mem_bbsy false (by simp)).elim

/-- Once the master has released, its BBSY is followed by the negated one. -/
theorem Stage.Shape.bbsyOff_behind (h : st.Shape (u ++ .bbsyOn :: w)) (hst : ∀ k, st ≠ .owned k) :
    .bbsyOff ∈ w := by
  have hcalm : Calm (u ++ .bbsyOn :: w) → False := fun h => h.not_mem_bbsy true (by simp)
  cases st with
  | free =>
    rcases h with h | ⟨y, hy, hcy⟩
    · exact (hcalm h).elim
    · cases u with
      | nil => cases (List.cons.inj hy).1
      | cons e u =>
        obtain ⟨-, rfl⟩ := List.cons.inj hy
        exact (hcy.not_mem_bbsy true (by simp)).elim
  | stuck => exact (hcalm h).elim
  | negated => exact (hcalm h).elim
  | owned k => exact absurd rfl (hst k)
  | released =>
    obtain ⟨a, y, heq, ha, hy⟩ := h
    rcases append_eq_append_pair heq with ⟨a', rfl, ha'⟩ | ⟨-, hw⟩ | ⟨y', rfl, rfl⟩
    · cases a' with
      | nil => cases (List.cons.inj ha').1
      | cons e a' =>
        obtain ⟨-, rfl⟩ := List.cons.inj ha'
        simp
    · cases (List.cons.inj hw).1
    · exact (hy.not_mem_bbsy true (by simp)).elim

/-- Without its first line, unless that is the negated SACK, the lane is as good. -/
theorem Stage.Shape.tail (h : st.Shape (x :: w)) (hx : x ≠ .sackOff) : st.Shape w := by
  cases st with
  | free =>
    rcases h with h | ⟨y, hy, hcy⟩
    · exact .inl (calm_cons.mp h).2
    · obtain ⟨-, rfl⟩ := List.cons.inj hy
      exact .inl hcy
  | stuck => exact (calm_cons.mp h).2
  | negated => exact (calm_cons.mp h).2
  | owned k => exact (early_cons.mp h).2
  | released =>
    obtain ⟨a, y, heq, ha, hy⟩ := h
    cases a with
    | nil => exact absurd (List.cons.inj heq).1 hx
    | cons e a =>
      obtain ⟨-, rfl⟩ := List.cons.inj heq
      exact ⟨a, y, rfl, (early_cons.mp ha).2, hy⟩

/-- The negated SACK is the right to the bus; the last BBSY follows it. -/
theorem Stage.Shape.of_sackOff (h : st.Shape (.sackOff :: w)) :
    st = .released ∧ Stage.free.Shape w := by
  have hearly : Early (.sackOff :: w) → False := fun h => h.not_mem_sackOff List.mem_cons_self
  cases st with
  | free =>
    rcases h with h | ⟨y, hy, -⟩
    · exact (hearly h.early).elim
    · cases (List.cons.inj hy).1
  | stuck => exact (hearly (Calm.early h)).elim
  | negated => exact (hearly (Calm.early h)).elim
  | owned k => exact (hearly h).elim
  | released =>
    obtain ⟨a, y, heq, ha, hy⟩ := h
    cases a with
    | nil =>
      obtain ⟨-, rfl⟩ := List.cons.inj heq
      exact ⟨rfl, .inr ⟨y, rfl, hy⟩⟩
    | cons e a =>
      obtain ⟨rfl, -⟩ := List.cons.inj heq
      exact (ha.not_mem_sackOff List.mem_cons_self).elim

/-- Where a request or an acknowledgement comes first, the last BBSY has gone. -/
theorem Stage.Shape.calm_of_free (h : Stage.free.Shape (x :: w)) (hx : x = .br ∨ x = .sackOn) :
    Calm w := by
  rcases h with h | ⟨y, hy, -⟩
  · exact (calm_cons.mp h).2
  · obtain ⟨rfl, -⟩ := List.cons.inj hy
    rcases hx with hx | hx <;> cases hx

/-- A request or acknowledgement on the lane is an asserted one. -/
theorem Stage.Shape.line (h : st.Shape w) (hx : x ∈ w) : x = .br ∨ x = .sackOn ∨ x = .sackOff ∨
    x = .bbsyOn ∨ x = .bbsyOff := by
  have hearly : ∀ {w}, Early w → x ∈ w → x = .br ∨ x = .sackOn ∨ x = .sackOff ∨
      x = .bbsyOn ∨ x = .bbsyOff := by
    intro w hw hx
    rcases hw x hx with rfl | rfl | rfl <;> simp
  cases st with
  | free =>
    rcases h with h | ⟨y, rfl, hy⟩
    · exact hearly h.early hx
    · rcases List.mem_cons.mp hx with rfl | hx
      · simp
      · exact hearly hy.early hx
  | stuck => exact hearly (Calm.early h) hx
  | negated => exact hearly (Calm.early h) hx
  | owned k => exact hearly h hx
  | released =>
    obtain ⟨a, y, rfl, ha, hy⟩ := h
    simp only [List.mem_append, List.mem_cons] at hx
    rcases hx with hx | rfl | rfl | hx
    · exact hearly ha hx
    · simp
    · simp
    · exact hearly hy.early hx

/-- Only requests, acknowledgements and BBSY move to the left. -/
theorem Stage.Shape.sig (h : st.Shape w) (hx : x ∈ w) :
    x.1 = .br ∨ x.1 = .sack ∨ x.1 = .bbsy := by
  rcases h.line hx with rfl | rfl | rfl | rfl | rfl <;> simp

end Shapes

/-! ### The right lane -/

/-- Nothing that matters to its taker moves behind a negated grant. -/
def GrantLast (x y : Line) : Prop := x = .bgOff → y.1 ≠ .bbsy ∧ y.1 ≠ .bg

/-- The last BBSY sent to the right. -/
def lastBbsy (w : List Line) : Option Line := (w.filter fun x => x.1 = .bbsy).getLast?

section Right

variable {u w : List Line} {x : Line}

theorem lastBbsy_insert (hx : x.1 ≠ .bbsy) : lastBbsy (u ++ x :: w) = lastBbsy (u ++ w) := by
  simp [lastBbsy, hx]

theorem lastBbsy_tail (h : lastBbsy (x :: w) ≠ some .bbsyOn) : lastBbsy w ≠ some .bbsyOn := by
  unfold lastBbsy at h ⊢
  by_cases hx : x.1 = .bbsy
  · rw [List.filter_cons_of_pos (by simpa using hx)] at h
    cases hw : w.filter fun x => x.1 = .bbsy with
    | nil => simp
    | cons y l =>
      rw [hw, List.getLast?_cons_cons] at h
      exact h
  · rwa [List.filter_cons_of_neg (by simpa using hx)] at h

/-- If the last BBSY is a negated one, every asserted one has a negated one behind it. -/
theorem bbsyOff_mem_of_last (h : lastBbsy (u ++ .bbsyOn :: w) ≠ some .bbsyOn) : .bbsyOff ∈ w := by
  unfold lastBbsy at h
  rw [List.filter_append, List.filter_cons_of_pos (by decide)] at h
  have hne : (w.filter fun x => x.1 = .bbsy) ≠ [] := by
    intro hnil
    rw [hnil] at h
    simp at h
  have hlast := List.getLast_mem hne
  obtain ⟨hmem, hsig⟩ := List.mem_filter.mp hlast
  obtain ⟨y, l, hyl⟩ := List.exists_cons_of_ne_nil hne
  rw [List.getLast?_append, hyl, List.getLast?_cons_cons, ← hyl,
    List.getLast?_eq_some_getLast hne] at h
  -- the last entry is a BBSY, and not an asserted one
  have hoff : (w.filter fun x => x.1 = .bbsy).getLast hne = .bbsyOff := by
    have hsig := of_decide_eq_true hsig
    generalize (w.filter fun x => x.1 = .bbsy).getLast hne = z at h hsig
    obtain ⟨sig, b⟩ := z
    cases hsig
    cases b with
    | true => simp at h
    | false => rfl
  exact hoff ▸ hmem

theorem lastBbsy_eq_bbsyOff (hw : ∀ y ∈ w, y.1 ≠ .bbsy) :
    lastBbsy (u ++ .bbsyOff :: w) = some .bbsyOff := by
  have hnil : (w.filter fun x => x.1 = .bbsy) = [] :=
    List.filter_eq_nil_iff.mpr fun y hy => by simpa using hw y hy
  unfold lastBbsy
  rw [List.filter_append, List.filter_cons_of_pos (by decide), hnil]
  simp

theorem pairwise_insert {X : Type} {R : X → X → Prop} {u w : List X} {x : X}
    (h : (u ++ w).Pairwise R) (hu : ∀ y ∈ u, R y x) (hw : ∀ y ∈ w, R x y) :
    (u ++ x :: w).Pairwise R := by
  obtain ⟨hpu, hpw, huw⟩ := List.pairwise_append.mp h
  refine List.pairwise_append.mpr ⟨hpu, List.pairwise_cons.mpr ⟨hw, hpw⟩, fun a ha b hb => ?_⟩
  rcases List.mem_cons.mp hb with rfl | hb
  · exact hu a ha
  · exact huw a ha b hb

end Right

/-! ### The invariant -/

/-- The arbiter's SACK line is up in every stage but the first. -/
def Stage.sack : Stage → Bool
  | .free => false
  | _ => true

structure Handover (n : ℕ) (v : View) (st : Stage) : Prop where
  sack : v.arb.sack = st.sack
  npg : v.arb.outstandingNpg = false
  leftPos : ∀ e ∈ v.left, e.1 < n
  rightPos : ∀ e ∈ v.right, 1 ≤ e.1 ∧ e.1 ≤ n
  rightSig : ∀ e ∈ v.right, e.2.1 = .br ∨ e.2.1 = .bg ∨ e.2.1 = .sack ∨ e.2.1 = .bbsy
  shape : st.Shape (Lane.word v.left)
  grant : .bgOff ∈ Lane.word v.right ↔ st = .negated
  grantLast : (Lane.word v.right).Pairwise GrantLast
  /-- No BBSY and no grant to the right of which a BBSY has yet to be negated. -/
  clear : ∀ p x, (p, x) ∈ v.right → x.1 = .bbsy ∨ x.1 = .bg →
    (∀ b, (b, .bbsyOff) ∈ v.left → b < p) ∧ ∀ k, st = .owned k → k < p
  /-- Between its two ends, a master's BBSY is seen asserted. -/
  busy : ∀ i, 1 ≤ i → (∀ a, (a, .bbsyOn) ∈ v.left → a < i) →
    (∃ b, (b, .bbsyOff) ∈ v.left ∧ i ≤ b) ∨ (∃ k, st = .owned k ∧ i ≤ k) →
    (v.dev i).bbsyAsserted = true
  /-- Without a master, a device that sees BBSY asserted will see it negated. -/
  stale : (∀ k, st ≠ .owned k) → ∀ i, 1 ≤ i → i ≤ n → (v.dev i).bbsyAsserted = true →
    (∃ p, p ≤ i ∧ (p, .bbsyOff) ∈ v.right) ∨ ∃ p, i ≤ p ∧ (p, .bbsyOff) ∈ v.left
  settled : (∀ k, st ≠ .owned k) → lastBbsy (Lane.word v.right) ≠ some .bbsyOn
  owner : ∀ k, st = .owned k → 1 ≤ k ∧ k ≤ n ∧ (v.dev k).sackAsserted = true ∧
    ∀ a, (a, .bbsyOn) ∈ v.left → a < k
  master : ∀ i, (v.dev i).isMaster = true ↔ st = .owned i

theorem view_initSystem (n : ℕ) :
    initSystem.view n = ⟨initArb, fun _ => initDevice, [], []⟩ := by
  obtain ⟨hleft, hright⟩ := lanes_of_quiet (n := n) (q := initSystem.queue) fun _ _ => rfl
  rw [System.view, hleft, hright]
  rfl

theorem handover_init (n : ℕ) : Handover n (initSystem.view n) .free := by
  rw [view_initSystem]
  refine ⟨rfl, rfl, ?_, ?_, ?_, ?_, ?_, ?_, ?_, ?_, ?_, ?_, ?_, ?_⟩ <;>
    simp [Lane.word, Stage.Shape, Calm, lastBbsy, initDevice]

section Moves

variable {n i : ℕ} {v : View} {st : Stage}

/-- A device that takes a negated grant has seen the last BBSY negated. -/
theorem Handover.not_bbsy_of_grant (h : Handover n v st) {r : Lane} (h1 : 1 ≤ i) (hn : i ≤ n)
    (hr : TakeRight i .bgOff v.right r) : (v.dev i).bbsyAsserted = false := by
  obtain ⟨u, w, hv, -, hu, hw⟩ := hr
  have hst : st = .negated := h.grant.mp (by simp [hv, Lane.word])
  by_contra hb
  rw [Bool.not_eq_false] at hb
  obtain ⟨p, hp, hmem⟩ | ⟨p, -, hmem⟩ := h.stale (by simp [hst]) i h1 hn hb
  · -- on the right lane it would be behind the grant
    have hpair := h.grantLast
    rw [hv, Lane.word, List.map_append, List.map_cons] at hpair
    have hlast := (List.pairwise_cons.mp (List.pairwise_append.mp hpair).2.1).1
    rw [hv] at hmem
    rcases List.mem_append.mp hmem with hm | hm
    · have := hu _ hm
      omega
    · rcases List.mem_cons.mp hm with hm | hm
      · cases hm
      · exact (hlast .bbsyOff (List.mem_map.mpr ⟨_, hm, rfl⟩) rfl).1 rfl
  · have hcalm : Calm (Lane.word v.left) := by
      have := h.shape
      rwa [hst] at this
    exact hcalm.not_mem_bbsy false (List.mem_map.mpr ⟨_, hmem, rfl⟩)

/-- Views whose steps are moves. -/
theorem Handover.regular (h : Handover n v st) : v.Regular n := by
  refine ⟨fun e he => ⟨h.leftPos e he, h.shape.sig (List.mem_map.mpr ⟨e, he, rfl⟩)⟩,
    h.rightSig, fun i hi => ?_⟩
  have hst := (h.master i).mp hi
  obtain ⟨h1, -, hsack, hbefore⟩ := h.owner i hst
  exact ⟨hsack, h.busy i h1 hbefore (.inr ⟨i, hst, le_refl i⟩)⟩

/-- Only the flags of the main threads changed. -/
theorem Handover.congr_dev (h : Handover n v st) {dev : ℕ → Device}
    (hdev : ∀ j, (dev j).bbsyAsserted = (v.dev j).bbsyAsserted ∧
      (dev j).isMaster = (v.dev j).isMaster ∧
      ((v.dev j).sackAsserted = true → (dev j).sackAsserted = true)) :
    Handover n { v with dev := dev } st := by
  refine { h with busy := ?_, stale := ?_, owner := ?_, master := ?_ }
  · intro j h1 hon hoff
    exact (hdev j).1.trans (h.busy j h1 hon hoff)
  · intro hst j h1 hn hb
    exact h.stale hst j h1 hn ((hdev j).1 ▸ hb)
  · intro k hk
    obtain ⟨h1, hn, hsack, hbefore⟩ := h.owner k hk
    exact ⟨h1, hn, (hdev k).2.2 hsack, hbefore⟩
  · intro j
    exact (Bool.eq_iff_iff.mp (hdev j).2.1).trans (h.master j)

/-- The left lane with a request or an acknowledgement more. -/
theorem Handover.sendLeft (h : Handover n v st) {x : Line} {l : Lane} (h1 : 1 ≤ i) (hn : i ≤ n)
    (hx : x = .br ∨ x = .sackOn) (hl : SendLeft i [x] v.left l)
    (hfree : (∀ a, (a, .bbsyOn) ∈ v.left → a < i) → ∀ b, (b, .bbsyOff) ∈ v.left → b < i) :
    Handover n { v with left := l } st := by
  obtain ⟨u, w, hv, rfl, hu, hw⟩ := hl
  have hbbsy : ∀ p b, (p, (.bbsy, b)) ∈ u ++ [x].map (fun x => (i - 1, x)) ++ w ↔
      (p, (.bbsy, b)) ∈ v.left := by
    intro p b
    rcases hx with rfl | rfl <;> simp [hv]
  have hshape : st.Shape (Lane.word (u ++ [x].map (fun x => (i - 1, x)) ++ w)) := by
    have hword := h.shape
    rw [hv] at hword
    have hinsert : st.Shape (Lane.word u ++ x :: Lane.word w) := by
      refine Stage.Shape.insert (by simpa [Lane.word] using hword) hx fun w' hw' => ?_
      -- a negated BBSY at or behind `i` with no asserted one there
      cases w with
      | nil => cases hw'
      | cons e w =>
        obtain ⟨b, y⟩ := e
        obtain ⟨rfl, rfl⟩ := List.cons.inj hw'
        have hoff : st.Shape (Lane.word u ++ .bbsyOff :: Lane.word w) := by
          simpa [Lane.word] using hword
        have huniq := hoff.bbsyOff_unique
        have hlt := hfree (fun a ha => ?_) b (by simp [hv])
        · have := hw (b, .bbsyOff) List.mem_cons_self
          omega
        · rw [hv] at ha
          rcases List.mem_append.mp ha with ha | ha
          · exact hu _ ha
          · rcases List.mem_cons.mp ha with ha | ha
            · cases ha
            · exact (huniq.2 true (List.mem_map.mpr ⟨_, ha, rfl⟩)).elim
    simpa [Lane.word] using hinsert
  refine { h with
    leftPos := ?_, shape := hshape, clear := ?_, busy := ?_, stale := ?_, owner := ?_ }
  · intro e he
    simp only [List.map_cons, List.map_nil, List.mem_append, List.mem_singleton] at he
    rcases he with (he | rfl) | he
    · exact h.leftPos e (by simp [hv, he])
    · show i - 1 < n
      omega
    · exact h.leftPos e (by simp [hv, he])
  · simpa only [hbbsy] using h.clear
  · simpa only [hbbsy] using h.busy
  · simpa only [hbbsy] using h.stale
  · simpa only [hbbsy] using h.owner

/-- The right lane with a line more that is neither BBSY nor a grant. -/
theorem Handover.sendRight (h : Handover n v st) {x : Line} {r : Lane}
    (hx : x.1 = .br ∨ x.1 = .sack) (hr : SendRight n i [x] v.right r) :
    Handover n { v with right := r } st := by
  unfold SendRight at hr
  split at hr
  · next hlt =>
    obtain ⟨u, w, hv, rfl, hu, hw⟩ := hr
    have hmem : ∀ p y, y.1 = .bbsy ∨ y.1 = .bg →
        ((p, y) ∈ u ++ [x].map (fun x => (i + 1, x)) ++ w ↔ (p, y) ∈ v.right) := by
      intro p y hy
      have : y ≠ x := by
        rintro rfl
        rcases hx with hx | hx <;> rcases hy with hy | hy <;> rw [hx] at hy <;> cases hy
      simp [hv, this]
    have hword : Lane.word (u ++ [x].map (fun x => (i + 1, x)) ++ w)
        = Lane.word u ++ x :: Lane.word w := by simp [Lane.word]
    have hold : Lane.word v.right = Lane.word u ++ Lane.word w := by simp [Lane.word, hv]
    have hnb : x.1 ≠ .bbsy ∧ x.1 ≠ .bg := by
      rcases hx with hx | hx <;> rw [hx] <;> exact ⟨by decide, by decide⟩
    refine { h with rightPos := ?_, rightSig := ?_, grant := ?_, grantLast := ?_, clear := ?_,
                    stale := ?_, settled := ?_ }
    · intro e he
      simp only [List.map_cons, List.map_nil, List.mem_append, List.mem_singleton] at he
      rcases he with (he | rfl) | he
      · exact h.rightPos e (by simp [hv, he])
      · show 1 ≤ i + 1 ∧ i + 1 ≤ n
        omega
      · exact h.rightPos e (by simp [hv, he])
    · intro e he
      simp only [List.map_cons, List.map_nil, List.mem_append, List.mem_singleton] at he
      rcases he with (he | rfl) | he
      · exact h.rightSig e (by simp [hv, he])
      · rcases hx with hx | hx
        · exact .inl hx
        · exact .inr (.inr (.inl hx))
      · exact h.rightSig e (by simp [hv, he])
    · have hxg : Line.bgOff ≠ x := fun he => hnb.2 (he ▸ rfl)
      have := h.grant
      rw [hold] at this
      rw [hword]
      simpa [hxg] using this
    · rw [hword]
      have := h.grantLast
      rw [hold] at this
      refine pairwise_insert this (fun y _ _ => hnb) fun y _ hxg => ?_
      exact absurd (congrArg Prod.fst hxg) hnb.2
    · intro p y hp hy
      exact h.clear p y ((hmem p y hy).mp hp) hy
    · intro hst j hj1 hjn hb
      obtain ⟨p, hp, hm⟩ | hl := h.stale hst j hj1 hjn hb
      · exact .inl ⟨p, hp, (hmem p _ (.inl rfl)).mpr hm⟩
      · exact .inr hl
    · intro hst
      rw [hword, lastBbsy_insert hnb.1, ← hold]
      exact h.settled hst
  · rw [hr]
    exact h

/-- A request. -/
theorem Handover.request (h : Handover n v st) {l r : Lane} (h1 : 1 ≤ i) (hn : i ≤ n)
    (hbbsy : (v.dev i).bbsyAsserted = false) (hl : SendLeft i [(.br, true)] v.left l)
    (hr : SendRight n i [(.br, true)] v.right r) :
    Handover n ⟨v.arb, Function.update v.dev i
      { v.dev i with brIssued := true, reqMaster := false }, l, r⟩ st := by
  have hleft := h.sendLeft h1 hn (.inl rfl) hl fun hon b hb => by
    by_contra hle
    have := h.busy i h1 hon (.inl ⟨b, hb, not_lt.mp hle⟩)
    rw [hbbsy] at this
    cases this
  refine (hleft.sendRight (.inl rfl) hr).congr_dev fun j => ?_
  by_cases hj : j = i
  · subst hj
    simp
  · simp [hj]

/-- A message passed to the left. -/
theorem Handover.hopLeft (h : Handover n v st) {x : Line} {l : Lane} (h1 : 1 ≤ i)
    (hl : HopLeft i x v.left l) :
    Handover n ⟨v.arb, Function.update v.dev i ((v.dev i).see x), l, v.right⟩ st := by
  obtain ⟨u, w, hv, rfl, hu, hw⟩ := hl
  have hword : Lane.word (u ++ (i - 1, x) :: w) = Lane.word v.left := by simp [Lane.word, hv]
  have hshape : st.Shape (Lane.word u ++ x :: Lane.word w) := by
    have := h.shape
    rwa [hv, Lane.word, List.map_append, List.map_cons] at this
  have hin : i < n := h.leftPos (i, x) (by simp [hv])
  have hpos : ∀ e ∈ u ++ (i - 1, x) :: w, e.1 < n := by
    intro e he
    simp only [List.mem_append, List.mem_cons] at he
    rcases he with he | rfl | he
    · exact h.leftPos e (by simp [hv, he])
    · show i - 1 < n
      omega
    · exact h.leftPos e (by simp [hv, he])
  have hmem : ∀ p y, y ≠ x → ((p, y) ∈ u ++ (i - 1, x) :: w ↔ (p, y) ∈ v.left) := by
    intro p y hy
    simp [hv, hy]
  have hnew : ∀ p, (p, x) ∈ u ++ (i - 1, x) :: w → p = i - 1 ∨ (p, x) ∈ u ∨ (p, x) ∈ w := by
    intro p hp
    simp only [List.mem_append, List.mem_cons, Prod.mk.injEq, and_true] at hp
    tauto
  have hsee : ∀ j, ((Function.update v.dev i ((v.dev i).see x)) j).isMaster = (v.dev j).isMaster ∧
      ((Function.update v.dev i ((v.dev i).see x)) j).sackAsserted = (v.dev j).sackAsserted := by
    intro j
    by_cases hj : j = i
    · subst hj
      rw [Function.update_self]
      unfold Device.see
      split <;> simp
    · simp [hj]
  obtain ⟨sig, b⟩ := x
  by_cases hsig : sig = .bbsy
  · subst hsig
    have hself : ((v.dev i).see (.bbsy, b)).bbsyAsserted = b := rfl
    cases b with
    | true =>
      refine { h with leftPos := hpos, shape := hword ▸ h.shape, clear := ?_, busy := ?_,
                      stale := ?_, owner := ?_, master := ?_ }
      · simpa only [hmem _ Line.bbsyOff (by decide)] using h.clear
      · intro j hj1 hon hoff
        simp only [hmem _ Line.bbsyOff (by decide)] at hoff
        have hlast : i - 1 < j := hon (i - 1) (by simp)
        by_cases hj : j = i
        · subst hj
          simpa using hself
        · dsimp only
          rw [Function.update_of_ne hj]
          refine h.busy j hj1 (fun a ha => ?_) hoff
          rw [hv] at ha
          simp only [List.mem_append, List.mem_cons, Prod.mk.injEq, and_true] at ha
          rcases ha with ha | rfl | ha
          · exact hon a (by simp [ha])
          · omega
          · exact hon a (by simp [ha])
      · intro hst j hj1 hjn hb
        simp only [hmem _ Line.bbsyOff (by decide)]
        by_cases hj : j = i
        · -- just seen asserted: the negated one is still behind
          subst hj
          obtain ⟨e, he, hoff⟩ := List.mem_map.mp (hshape.bbsyOff_behind hst)
          obtain ⟨p, y⟩ := e
          obtain rfl : y = Line.bbsyOff := hoff
          exact .inr ⟨p, hw _ he, by simp [hv, he]⟩
        · dsimp only at hb
          rw [Function.update_of_ne hj] at hb
          exact h.stale hst j hj1 hjn hb
      · intro k hk
        obtain ⟨hk1, hkn, hsack, hbefore⟩ := h.owner k hk
        refine ⟨hk1, hkn, (hsee k).2.trans hsack, fun a ha => ?_⟩
        rcases hnew a ha with rfl | ha | ha
        · have := hbefore i (by simp [hv])
          omega
        · exact hbefore a (by simp [hv, ha])
        · exact hbefore a (by simp [hv, ha])
      · intro j
        exact (Bool.eq_iff_iff.mp (hsee j).1).trans (h.master j)
    | false =>
      obtain ⟨hnu, hnw⟩ := hshape.bbsyOff_unique
      have honly : ∀ p, (p, Line.bbsyOff) ∈ u ++ (i - 1, Line.bbsyOff) :: w → p = i - 1 := by
        intro p hp
        rcases hnew p hp with hp | hp | hp
        · exact hp
        · exact absurd (List.mem_map.mpr ⟨_, hp, rfl⟩) hnu
        · exact absurd (List.mem_map.mpr ⟨_, hp, rfl⟩) (hnw false)
      have hnotOwned : ∀ k, st ≠ .owned k := by
        rintro k rfl
        exact Early.not_mem_bbsyOff hshape (by simp)
      refine { h with leftPos := hpos, shape := hword ▸ h.shape, clear := ?_, busy := ?_,
                      stale := ?_, owner := ?_, master := ?_ }
      · intro p y hp hy
        refine ⟨fun b hb => ?_, fun k hk => absurd hk (hnotOwned k)⟩
        have := (h.clear p y hp hy).1 i (by simp [hv])
        have := honly b hb
        omega
      · intro j hj1 hon hoff
        simp only [hmem _ Line.bbsyOn (by decide)] at hon
        obtain ⟨b, hb, hjb⟩ | ⟨k, hk, -⟩ := hoff
        · have hbi := honly b hb
          have hj : j ≠ i := by omega
          dsimp only
          rw [Function.update_of_ne hj]
          exact h.busy j hj1 hon (.inl ⟨i, by simp [hv], by omega⟩)
        · exact absurd hk (hnotOwned k)
      · intro hst j hj1 hjn hb
        by_cases hj : j = i
        · subst hj
          dsimp only at hb
          rw [Function.update_self, hself] at hb
          cases hb
        · dsimp only at hb
          rw [Function.update_of_ne hj] at hb
          obtain hr | ⟨p, hp, hm⟩ := h.stale hst j hj1 hjn hb
          · exact .inl hr
          · rw [hv] at hm
            simp only [List.mem_append, List.mem_cons, Prod.mk.injEq, and_true] at hm
            rcases hm with hm | rfl | hm
            · exact absurd (List.mem_map.mpr ⟨_, hm, rfl⟩) hnu
            · exact .inr ⟨p - 1, by omega, by simp⟩
            · exact absurd (List.mem_map.mpr ⟨_, hm, rfl⟩) (hnw false)
      · intro k hk
        exact absurd hk (hnotOwned k)
      · intro j
        exact (Bool.eq_iff_iff.mp (hsee j).1).trans (h.master j)
  · have hid : Function.update v.dev i ((v.dev i).see (sig, b)) = v.dev := by
      rw [Device.see, if_neg hsig, Function.update_eq_self]
    have hne : ∀ c : Bool, ((.bbsy, c) : Line) ≠ (sig, b) := fun c he =>
      hsig (congrArg Prod.fst he).symm
    rw [hid]
    refine { h with leftPos := hpos, shape := hword ▸ h.shape, clear := ?_, busy := ?_,
                    stale := ?_, owner := ?_ }
    · simpa only [hmem _ _ (hne _)] using h.clear
    · simpa only [hmem _ _ (hne _)] using h.busy
    · simpa only [hmem _ _ (hne _)] using h.stale
    · simpa only [hmem _ _ (hne _)] using h.owner

/-- What passing to the right, or dropping at the end, does to the lane. -/
structure Passed (n i : ℕ) (x : Line) (l l' : Lane) : Prop where
  old : ∀ e ∈ l', e ∈ l ∨ i < n ∧ e = (i + 1, x)
  kept : ∀ e ∈ l, e ∈ l' ∨ e = (i, x)
  next : i < n → (i + 1, x) ∈ l'
  word : Lane.word l' = Lane.word l ∨ Lane.word l = x :: Lane.word l'
  split : ∃ u w, Lane.word l = u ++ x :: Lane.word w ∧ ∀ e ∈ w, e.1 ≤ i ∧ e ∈ l'

theorem passed_of_hopRight {x : Line} {l l' : Lane} (hpos : ∀ e ∈ l, e.1 ≤ n)
    (hr : HopRight n i x l l') : Passed n i x l l' := by
  unfold HopRight at hr
  split at hr
  · next hlt =>
    obtain ⟨u, w, rfl, rfl, -, hw⟩ := hr
    refine ⟨fun e he => ?_, fun e he => ?_, fun _ => by simp, .inl (by simp [Lane.word]),
      Lane.word u, w, by simp [Lane.word], fun e he => ⟨hw e he, by simp [he]⟩⟩
    · simp only [List.mem_append, List.mem_cons] at he ⊢
      tauto
    · simp only [List.mem_append, List.mem_cons] at he ⊢
      tauto
  · next hlt =>
    obtain ⟨u, w, rfl, rfl, hu, hw⟩ := hr
    -- nothing is farther to the right than the last device
    have hnil : u = [] := by
      cases u with
      | nil => rfl
      | cons e u =>
        have h1 := hu e (by simp)
        have h2 := hpos e (by simp)
        omega
    subst hnil
    refine ⟨fun e he => .inl (by simpa using .inr he), fun e he => ?_, fun hin => absurd hin hlt,
      .inr (by simp [Lane.word]), [], w, by simp [Lane.word],
      fun e he => ⟨hw e he, by simpa using he⟩⟩
    simp only [List.nil_append, List.mem_cons] at he ⊢
    tauto

theorem Passed.mem {x : Line} {l l' : Lane} (h : Passed n i x l l') : (i, x) ∈ l → i ≤ n →
    ∀ e ∈ l', (∀ f ∈ l, 1 ≤ f.1 ∧ f.1 ≤ n) → 1 ≤ e.1 ∧ e.1 ≤ n := by
  intro hx hn e he hpos
  rcases h.old e he with he | ⟨hlt, rfl⟩
  · exact hpos e he
  · exact ⟨Nat.succ_pos i, hlt⟩

/-- The right lane after `x` was passed on; `dev` is what `x` makes of the devices. -/
theorem Handover.passed (h : Handover n v st) {x : Line} {r : Lane} {dev : ℕ → Device}
    (hr : Passed n i x v.right r) (hx : (i, x) ∈ v.right) (hn : i ≤ n)
    {st' : Stage} (hst' : st'.sack = st.sack) (hshape : st'.Shape (Lane.word v.left))
    (howned : ∀ k, st' = .owned k ↔ st = .owned k)
    (hgrant : .bgOff ∈ Lane.word r ↔ st' = .negated)
    (hdev : ∀ j, (dev j).sackAsserted = (v.dev j).sackAsserted ∧
      (dev j).isMaster = (v.dev j).isMaster)
    (hself : x.1 = .bbsy → (dev i).bbsyAsserted = x.2)
    (hother : ∀ j, j ≠ i ∨ x.1 ≠ .bbsy → (dev j).bbsyAsserted = (v.dev j).bbsyAsserted) :
    Handover n ⟨v.arb, dev, v.left, r⟩ st' := by
  have hclear : ∀ p y, (p, y) ∈ r → y.1 = .bbsy ∨ y.1 = .bg →
      (∀ b, (b, .bbsyOff) ∈ v.left → b < p) ∧ ∀ k, st' = .owned k → k < p := by
    intro p y hp hy
    rcases hr.old _ hp with hp | ⟨-, hp⟩
    · exact ⟨(h.clear p y hp hy).1, fun k hk => (h.clear p y hp hy).2 k ((howned k).mp hk)⟩
    · obtain ⟨rfl, rfl⟩ := Prod.mk.inj hp
      obtain ⟨hl, ho⟩ := h.clear i y hx hy
      exact ⟨fun b hb => (hl b hb).trans (Nat.lt_succ_self i),
        fun k hk => (ho k ((howned k).mp hk)).trans (Nat.lt_succ_self i)⟩
  have hfree : (∀ k, st' ≠ .owned k) → ∀ k, st ≠ .owned k := fun hst k hk =>
    hst k ((howned k).mpr hk)
  refine ⟨h.sack.trans hst'.symm, h.npg, h.leftPos, fun e he => hr.mem hx hn e he h.rightPos,
    fun e he => ?_, hshape, hgrant, ?_, hclear, ?_, ?_, ?_, ?_, ?_⟩
  · rcases hr.old e he with he | ⟨-, rfl⟩
    · exact h.rightSig e he
    · exact h.rightSig (i, x) hx
  · rcases hr.word with hw | hw
    · exact hw ▸ h.grantLast
    · have := h.grantLast
      rw [hw] at this
      exact (List.pairwise_cons.mp this).2
  · intro j hj1 hon hoff
    simp only [howned] at hoff
    by_cases hj : j ≠ i ∨ x.1 ≠ .bbsy
    · exact (hother j hj).trans (h.busy j hj1 hon hoff)
    · -- `i` has just passed a BBSY on, so no master's BBSY spans it
      obtain ⟨rfl, hsig⟩ : j = i ∧ x.1 = .bbsy := by
        rw [not_or, not_ne_iff, not_ne_iff] at hj
        exact hj
      obtain ⟨hl, ho⟩ := h.clear j x hx (.inl hsig)
      rcases hoff with ⟨b, hb, hle⟩ | ⟨k, hk, hle⟩
      · have := hl b hb
        omega
      · have := ho k hk
        omega
  · intro hst j hj1 hjn hb
    replace hst := hfree hst
    by_cases hj : j ≠ i ∨ x.1 ≠ .bbsy
    · obtain ⟨p, hp, hm⟩ | hl := h.stale hst j hj1 hjn (hother j hj ▸ hb)
      · rcases hr.kept _ hm with hm | hm
        · exact .inl ⟨p, hp, hm⟩
        · -- the negated BBSY just passed on was the one to come
          obtain ⟨rfl, rfl⟩ := Prod.mk.inj hm
          have hne : j ≠ p := hj.resolve_right (by simp)
          exact .inl ⟨p + 1, by omega, hr.next (by omega)⟩
      · exact .inr hl
    · obtain ⟨rfl, hsig⟩ : j = i ∧ x.1 = .bbsy := by
        rw [not_or, not_ne_iff, not_ne_iff] at hj
        exact hj
      have hxon : x = .bbsyOn := Prod.ext hsig ((hself hsig).symm.trans hb)
      obtain ⟨u, w, hword, hw⟩ := hr.split
      have hset := h.settled hst
      rw [hword, hxon] at hset
      obtain ⟨e, he, hoff⟩ := List.mem_map.mp (bbsyOff_mem_of_last hset)
      obtain ⟨p, y⟩ := e
      obtain rfl : y = Line.bbsyOff := hoff
      exact .inl ⟨p, (hw _ he).1, (hw _ he).2⟩
  · intro hst
    replace hst := hfree hst
    rcases hr.word with hw | hw
    · rw [hw]
      exact h.settled hst
    · have := h.settled hst
      rw [hw] at this
      exact lastBbsy_tail this
  · intro k hk
    obtain ⟨hk1, hkn, hsack, hbefore⟩ := h.owner k ((howned k).mp hk)
    exact ⟨hk1, hkn, (hdev k).1.trans hsack, hbefore⟩
  · intro j
    exact ((Bool.eq_iff_iff.mp (hdev j).2).trans (h.master j)).trans (howned j).symm

theorem hopRight_mem {x : Line} {l l' : Lane} (hr : HopRight n i x l l') : (i, x) ∈ l := by
  unfold HopRight TakeRight at hr
  split at hr <;> obtain ⟨u, w, rfl, -⟩ := hr <;> simp

/-- A message other than a grant passed to the right. -/
theorem Handover.hopRight (h : Handover n v st) {x : Line} {r : Lane} (hn : i ≤ n)
    (hx : x.1 ≠ .bg) (hr : HopRight n i x v.right r) :
    Handover n ⟨v.arb, Function.update v.dev i ((v.dev i).see x), v.left, r⟩ st := by
  have hpass := passed_of_hopRight (fun e he => (h.rightPos e he).2) hr
  refine h.passed hpass (hopRight_mem hr) hn rfl h.shape (fun _ => Iff.rfl) ?_ (fun j => ?_)
    (fun hsig => ?_) fun j hj => ?_
  · rcases hpass.word with hw | hw
    · rw [hw]
      exact h.grant
    · have hgrant := h.grant
      have hne : Line.bgOff ≠ x := fun he => hx (he ▸ rfl)
      rw [hw, List.mem_cons, or_iff_right hne] at hgrant
      exact hgrant
  · by_cases hj : j = i
    · subst hj
      rw [Function.update_self, Device.see]
      split <;> simp
    · simp [hj]
  · simp [Device.see, hsig]
  · by_cases hji : j = i
    · have hsig := hj.resolve_left (not_not.mpr hji)
      subst hji
      simp [Device.see, hsig]
    · simp [hji]

/-- A grant passed to the right.  A negated one that falls off the end leaves
    the arbiter's SACK up for ever. -/
theorem Handover.passGrant (h : Handover n v st) {b : Bool} {r : Lane} (hn : i ≤ n)
    (hr : HopRight n i (.bg, b) v.right r) :
    ∃ st', Handover n ⟨v.arb, v.dev, v.left, r⟩ st' ∧
      (st' = st ∨ b = false ∧ i = n ∧ st' = .stuck) := by
  have hpass := passed_of_hopRight (fun e he => (h.rightPos e he).2) hr
  have hmem := hopRight_mem hr
  by_cases hword : Lane.word r = Lane.word v.right
  · exact ⟨st, h.passed hpass hmem hn rfl h.shape (fun _ => Iff.rfl) (hword ▸ h.grant)
      (fun _ => ⟨rfl, rfl⟩) (fun h => by cases h) fun _ _ => rfl, .inl rfl⟩
  · have hw := hpass.word.resolve_left hword
    have hin : ¬ i < n := fun hlt => by
      unfold HopRight at hr
      rw [if_pos hlt] at hr
      obtain ⟨u, w, hv, rfl, -⟩ := hr
      exact hword (by simp [hv, Lane.word])
    cases b with
    | true =>
      refine ⟨st, h.passed hpass hmem hn rfl h.shape (fun _ => Iff.rfl) ?_ (fun _ => ⟨rfl, rfl⟩)
        (fun h => by cases h) (fun _ _ => rfl), .inl rfl⟩
      have hgrant := h.grant
      rwa [hw, List.mem_cons, or_iff_right (by decide)] at hgrant
    | false =>
      have hst : st = .negated := h.grant.mp (by simp [hw])
      subst hst
      -- behind the negated grant there is no other
      have hnone : Line.bgOff ∉ Lane.word r := by
        have hlast := h.grantLast
        rw [hw] at hlast
        intro hm
        exact ((List.pairwise_cons.mp hlast).1 _ hm rfl).2 rfl
      refine ⟨.stuck, h.passed hpass hmem hn rfl h.shape (by simp) (by simpa using hnone)
        (fun _ => ⟨rfl, rfl⟩) (fun h => by cases h) (fun _ _ => rfl), .inr ⟨rfl, by omega, rfl⟩⟩

/-- A device acknowledges a grant. -/
theorem Handover.ackGrant (h : Handover n v st) {l r : Lane} (h1 : 1 ≤ i) (hn : i ≤ n)
    (hr : TakeRight i .bgOn v.right r) (hl : SendLeft i [.sackOn] v.left l) :
    Handover n ⟨v.arb, Function.update v.dev i
      { v.dev i with brIssued := false, sackAsserted := true }, l, r⟩ st := by
  have hmem : (i, Line.bgOn) ∈ v.right := by
    obtain ⟨u, w, hv, -⟩ := hr
    simp [hv]
  -- with a grant here, no BBSY is still to be negated from `i` on
  have hleft := h.sendLeft h1 hn (.inr rfl) hl fun _ => (h.clear i _ hmem (.inr rfl)).1
  obtain ⟨u, w, hv, rfl, -, -⟩ := hr
  have hword : Lane.word v.right = Lane.word u ++ .bgOn :: Lane.word w := by simp [Lane.word, hv]
  have hword' : Lane.word (u ++ w) = Lane.word u ++ Lane.word w := by simp [Lane.word]
  have hsub : ∀ e ∈ u ++ w, e ∈ v.right := by
    intro e he
    rw [hv]
    simp only [List.mem_append, List.mem_cons] at he ⊢
    tauto
  have hright : Handover n ⟨v.arb, v.dev, l, u ++ w⟩ st := by
    refine { hleft with rightPos := fun e he => h.rightPos e (hsub e he),
                        rightSig := fun e he => h.rightSig e (hsub e he), grant := ?_,
                        grantLast := ?_, clear := fun p x hp => hleft.clear p x (hsub _ hp),
                        stale := ?_, settled := ?_ }
    · have hgrant := h.grant
      rw [hword] at hgrant
      rw [hword']
      simpa using hgrant
    · have hlast := h.grantLast
      rw [hword] at hlast
      rw [hword']
      exact hlast.sublist (List.Sublist.append_left (List.sublist_cons_self _ _) _)
    · intro hst j hj1 hjn hb
      obtain ⟨p, hp, hm⟩ | hl := hleft.stale hst j hj1 hjn hb
      · refine .inl ⟨p, hp, ?_⟩
        dsimp only at hm
        rw [hv] at hm
        simpa using hm
      · exact .inr hl
    · intro hst
      rw [hword', ← lastBbsy_insert (x := .bgOn) (by decide), ← hword]
      exact h.settled hst
  refine hright.congr_dev fun j => ?_
  by_cases hj : j = i
  · subst hj
    simp
  · simp [hj]

/-- A device takes the bus. -/
theorem Handover.ownBus (h : Handover n v st) {l r r' : Lane} (h1 : 1 ≤ i) (hn : i ≤ n)
    (hsack : (v.dev i).sackAsserted = true) (hr : TakeRight i .bgOff v.right r)
    (hl : SendLeft i [.bbsyOn] v.left l) (hr' : SendRight n i [.bbsyOn] r r') :
    Handover n ⟨v.arb, Function.update v.dev i
      { v.dev i with bbsyAsserted := true, isMaster := true, reqMaster := false }, l, r'⟩
      (.owned i) := by
  obtain ⟨u, w, hv, rfl, hu, hw⟩ := hr
  have hword : Lane.word v.right = Lane.word u ++ .bgOff :: Lane.word w := by simp [Lane.word, hv]
  have hst : st = .negated := h.grant.mp (by simp [hword])
  subst hst
  have hcalm : Calm (Lane.word v.left) := h.shape
  have hlast := h.grantLast
  rw [hword] at hlast
  obtain ⟨-, hlastw, hlastu⟩ := List.pairwise_append.mp hlast
  have hbehind := (List.pairwise_cons.mp hlastw).1
  -- of what stays on the right lane, BBSY and grants are all beyond `i`
  have hbeyond : ∀ p x, (p, x) ∈ u ++ w → x.1 = .bbsy ∨ x.1 = .bg → i < p ∧ x ≠ .bgOff := by
    intro p x hp hx
    rcases List.mem_append.mp hp with hp | hp
    · refine ⟨hu _ hp, ?_⟩
      rintro rfl
      exact (hlastu _ (List.mem_map.mpr ⟨_, hp, rfl⟩) _ List.mem_cons_self rfl).2 rfl
    · obtain ⟨hnb, hng⟩ := hbehind x (List.mem_map.mpr ⟨_, hp, rfl⟩) rfl
      rcases hx with hx | hx
      · exact absurd hx hnb
      · exact absurd hx hng
  have hold : ∀ e ∈ r', e ∈ u ++ w ∨ i < n ∧ e = (i + 1, .bbsyOn) := by
    intro e he
    unfold SendRight at hr'
    split at hr'
    · next hlt =>
      obtain ⟨a, b, hab, rfl, -, -⟩ := hr'
      rw [hab]
      simp only [List.map_cons, List.map_nil, List.mem_append, List.mem_singleton] at he ⊢
      tauto
    · exact .inl (hr' ▸ he)
  have hsub : ∀ e ∈ u ++ w, e ∈ v.right := by
    intro e he
    rw [hv]
    simp only [List.mem_append, List.mem_cons] at he ⊢
    tauto
  have hnoGrant : Line.bgOff ∉ Lane.word r' := by
    intro hm
    obtain ⟨e, he, hoff⟩ := List.mem_map.mp hm
    rcases hold e he with he | ⟨-, rfl⟩
    · exact (hbeyond e.1 e.2 he (.inr (by rw [hoff]))).2 hoff
    · cases hoff
  obtain ⟨a, b, hab, rfl, ha, hb⟩ := hl
  have hleftmem : ∀ p c, (p, (.bbsy, c)) ∈ a ++ [Line.bbsyOn].map (fun x => (i - 1, x)) ++ b →
      p = i - 1 ∧ c = true := by
    intro p c hp
    have hnot : ∀ l', (p, (.bbsy, c)) ∈ l' → l' ⊆ v.left → False := fun l' hm hs =>
      hcalm.not_mem_bbsy c (List.mem_map.mpr ⟨_, hs hm, rfl⟩)
    simp only [List.map_cons, List.map_nil, List.mem_append, List.mem_singleton] at hp
    rcases hp with (hp | hp) | hp
    · exact (hnot a hp (by simp [hab])).elim
    · obtain ⟨rfl, hc⟩ := Prod.mk.inj hp
      exact ⟨rfl, congrArg Prod.snd hc⟩
    · exact (hnot b hp (by simp [hab])).elim
  have hnoMaster : ∀ j, (v.dev j).isMaster = false := fun j => by
    rw [← Bool.not_eq_true, h.master j]
    exact fun h => by cases h
  refine ⟨h.sack, h.npg, fun e he => ?_, fun e he => ?_, fun e he => ?_, ?_, ?_, ?_, ?_, ?_, ?_, ?_,
    ?_, ?_⟩
  · simp only [List.map_cons, List.map_nil, List.mem_append, List.mem_singleton] at he
    rcases he with (he | rfl) | he
    · exact h.leftPos e (by simp [hab, he])
    · show i - 1 < n
      omega
    · exact h.leftPos e (by simp [hab, he])
  · rcases hold e he with he | ⟨hlt, rfl⟩
    · exact h.rightPos e (hsub e he)
    · exact ⟨Nat.succ_pos i, hlt⟩
  · rcases hold e he with he | ⟨-, rfl⟩
    · exact h.rightSig e (hsub e he)
    · simp
  · have hearly := hcalm.early
    rw [hab, Lane.word, List.map_append] at hearly
    obtain ⟨hea, heb⟩ := early_append.mp hearly
    show Early _
    rw [Lane.word, List.map_append, List.map_append]
    exact early_append.mpr ⟨early_append.mpr ⟨hea, by simp [Early]⟩, heb⟩
  · exact ⟨fun hm => absurd hm hnoGrant, fun hst => by cases hst⟩
  · exact List.pairwise_of_forall_mem_list fun x hx y _ hxoff => absurd (hxoff ▸ hx) hnoGrant
  · intro p x hp hx
    refine ⟨fun q hq => ?_, fun k hk => ?_⟩
    · cases (hleftmem q false hq).2
    · obtain rfl : i = k := Stage.owned.inj hk
      rcases hold _ hp with hp | ⟨-, hp⟩
      · exact (hbeyond p x hp hx).1
      · obtain ⟨rfl, -⟩ := Prod.mk.inj hp
        exact Nat.lt_succ_self i
  · intro j hj1 hon hoff
    have hlt : i - 1 < j := hon (i - 1) (by simp)
    rcases hoff with ⟨q, hq, -⟩ | ⟨k, hk, hle⟩
    · cases (hleftmem q false hq).2
    · obtain rfl : i = k := Stage.owned.inj hk
      obtain rfl : j = i := by omega
      simp
  · exact fun hst => absurd rfl (hst i)
  · exact fun hst => absurd rfl (hst i)
  · intro k hk
    obtain rfl : i = k := Stage.owned.inj hk
    refine ⟨h1, hn, by simpa using hsack, fun q hq => ?_⟩
    have := (hleftmem q true hq).1
    omega
  · intro j
    by_cases hj : j = i
    · subst hj
      simp
    · simpa [hj, Ne.symm hj] using hnoMaster j

/-- The master gives the bus back. -/
theorem Handover.release (h : Handover n v st) {l r : Lane} (h1 : 1 ≤ i) (hn : i ≤ n)
    (hmaster : (v.dev i).isMaster = true)
    (hl : SendLeft i [.sackOff, .bbsyOff] v.left l)
    (hr : SendRight n i [.sackOff, .bbsyOff] v.right r) :
    Handover n ⟨v.arb, Function.update v.dev i
      { v.dev i with sackAsserted := false, bbsyAsserted := false, isMaster := false,
                     reqMaster := false, relMaster := false }, l, r⟩ .released := by
  have hst : st = .owned i := (h.master i).mp hmaster
  subst hst
  obtain ⟨-, -, -, hbefore⟩ := h.owner i rfl
  have hbeyond : ∀ p x, (p, x) ∈ v.right → x.1 = .bbsy ∨ x.1 = .bg → i < p := fun p x hp hx =>
    (h.clear p x hp hx).2 i rfl
  have hnoGrant : Line.bgOff ∉ Lane.word v.right := fun hm => by cases h.grant.mp hm
  obtain ⟨a, b, hab, rfl, ha, hb⟩ := hl
  have hearly : Early (Lane.word a) ∧ Early (Lane.word b) := by
    have := h.shape
    rw [hab, Lane.word, List.map_append] at this
    exact early_append.mp this
  have hcalm : Calm (Lane.word b) := by
    intro x hx
    rcases hearly.2 x hx with hx' | hx' | rfl
    · exact .inl hx'
    · exact .inr hx'
    · -- its own BBSY is to the left of the master
      obtain ⟨⟨p, y⟩, he, rfl⟩ := List.mem_map.mp hx
      have h1 := hb _ he
      have h2 := hbefore p (by simp [hab, he])
      omega
  have hoff : ∀ p, (p, Line.bbsyOff) ∈ v.left → False := fun p hp =>
    Early.not_mem_bbsyOff h.shape (List.mem_map.mpr ⟨_, hp, rfl⟩)
  have hleft : ∀ e, e ∈ a ++ [Line.sackOff, .bbsyOff].map (fun x => (i - 1, x)) ++ b ↔
      e ∈ v.left ∨ e = (i - 1, .sackOff) ∨ e = (i - 1, .bbsyOff) := by
    intro e
    rw [hab]
    simp only [List.map_cons, List.map_nil, List.mem_append, List.mem_cons, List.not_mem_nil,
      or_false]
    tauto
  have hright : ∀ e ∈ r, e ∈ v.right ∨ i < n ∧ (e = (i + 1, .sackOff) ∨ e = (i + 1, .bbsyOff)) := by
    intro e he
    unfold SendRight at hr
    split at hr
    · next hlt =>
      obtain ⟨c, d, hcd, rfl, -, -⟩ := hr
      rw [hcd]
      simp only [List.map_cons, List.map_nil, List.mem_append, List.mem_cons, List.not_mem_nil,
        or_false] at he ⊢
      tauto
    · exact .inl (hr ▸ he)
  have hnoGrant' : Line.bgOff ∉ Lane.word r := by
    intro hm
    obtain ⟨e, he, hbg⟩ := List.mem_map.mp hm
    rcases hright e he with he | ⟨-, rfl | rfl⟩
    · exact hnoGrant (List.mem_map.mpr ⟨e, he, hbg⟩)
    · cases hbg
    · cases hbg
  refine ⟨h.sack, h.npg, fun e he => ?_, fun e he => ?_, fun e he => ?_, ?_, ?_, ?_, ?_, ?_, ?_, ?_,
    ?_, ?_⟩
  · rcases (hleft e).mp he with he | rfl | rfl
    · exact h.leftPos e he
    · show i - 1 < n
      omega
    · show i - 1 < n
      omega
  · rcases hright e he with he | ⟨hlt, rfl | rfl⟩
    · exact h.rightPos e he
    · exact ⟨Nat.succ_pos i, hlt⟩
    · exact ⟨Nat.succ_pos i, hlt⟩
  · rcases hright e he with he | ⟨-, rfl | rfl⟩
    · exact h.rightSig e he
    · simp
    · simp
  · exact ⟨Lane.word a, Lane.word b, by simp [Lane.word], hearly.1, hcalm⟩
  · exact ⟨fun hm => absurd hm hnoGrant', fun hst => by cases hst⟩
  · exact List.pairwise_of_forall_mem_list fun x hx y _ hxoff => absurd (hxoff ▸ hx) hnoGrant'
  · intro p x hp hx
    refine ⟨fun q hq => ?_, fun k hk => by cases hk⟩
    have hqi : q = i - 1 := by
      rcases (hleft _).mp hq with hq | hq | hq
      · exact (hoff q hq).elim
      · cases hq
      · exact congrArg Prod.fst hq
    rcases hright _ hp with hp | ⟨-, hp | hp⟩
    · have := hbeyond p x hp hx
      omega
    · obtain ⟨-, rfl⟩ := Prod.mk.inj hp
      rcases hx with hx | hx <;> cases hx
    · obtain ⟨rfl, -⟩ := Prod.mk.inj hp
      omega
  · intro j hj1 hon hj
    rcases hj with ⟨q, hq, hle⟩ | ⟨k, hk, -⟩
    · have hqi : q = i - 1 := by
        rcases (hleft _).mp hq with hq | hq | hq
        · exact (hoff q hq).elim
        · cases hq
        · exact congrArg Prod.fst hq
      have hji : j ≠ i := by omega
      dsimp only
      rw [Function.update_of_ne hji]
      refine h.busy j hj1 (fun p hp => hon p ((hleft _).mpr (.inl hp))) (.inr ⟨i, rfl, by omega⟩)
    · cases hk
  · -- everybody but the old master will see the new negation
    intro _ j hj1 hjn hbj
    have hji : j ≠ i := by
      rintro rfl
      simp at hbj
    rcases Nat.lt_or_gt_of_ne hji with hlt | hgt
    · exact .inr ⟨i - 1, by omega, (hleft _).mpr (.inr (.inr rfl))⟩
    · refine .inl ⟨i + 1, hgt, ?_⟩
      rw [SendRight, if_pos (by omega)] at hr
      obtain ⟨c, d, -, rfl, -, -⟩ := hr
      simp
  · intro _
    unfold SendRight at hr
    split at hr
    · obtain ⟨c, d, hcd, rfl, -, hd⟩ := hr
      have hnone : ∀ y ∈ Lane.word d, y.1 ≠ .bbsy := by
        intro y hy hsig
        obtain ⟨⟨p, z⟩, he, rfl⟩ := List.mem_map.mp hy
        have h1 := hd _ he
        have h2 := hbeyond p z (by simp [hcd, he]) (.inl hsig)
        omega
      have hword : Lane.word (c ++ [Line.sackOff, .bbsyOff].map (fun x => (i + 1, x)) ++ d)
          = (Lane.word c ++ [.sackOff]) ++ .bbsyOff :: Lane.word d := by simp [Lane.word]
      rw [hword, lastBbsy_eq_bbsyOff hnone]
      decide
    · -- no BBSY can be to the right of the last device
      next hlt =>
      have hnone : (Lane.word r).filter (fun x => x.1 = .bbsy) = [] := by
        refine List.filter_eq_nil_iff.mpr fun y hy hsig => ?_
        obtain ⟨⟨p, z⟩, he, rfl⟩ := List.mem_map.mp hy
        rw [hr] at he
        have h1 := hbeyond p z he (.inl (of_decide_eq_true hsig))
        have h2 := (h.rightPos _ he).2
        dsimp only at h2
        omega
      rw [lastBbsy, hnone]
      simp
  · intro k hk
    cases hk
  · intro j
    by_cases hj : j = i
    · subst hj
      simp
    · simpa [hj, Ne.symm hj] using h.master j

/-- The arbiter takes the first message of the left lane. -/
theorem Handover.takeHead (h : Handover n v st) {x : Line} {l : Lane} {arb : ArbState}
    {st' : Stage} (hl : v.left = (0, x) :: l) (harb : arb.sack = st'.sack)
    (hnpg : arb.outstandingNpg = false) (hshape : st'.Shape (Lane.word l))
    (howned : ∀ k, st' = .owned k ↔ st = .owned k) (hneg : st' = .negated ↔ st = .negated) :
    Handover n ⟨arb, v.dev, l, v.right⟩ st' := by
  have hsub : ∀ e ∈ l, e ∈ v.left := fun e he => hl ▸ List.mem_cons_of_mem _ he
  have hkept : ∀ p y, (p, y) ∈ v.left → 1 ≤ p → (p, y) ∈ l := by
    intro p y hp h1
    rw [hl] at hp
    rcases List.mem_cons.mp hp with hp | hp
    · obtain ⟨rfl, -⟩ := Prod.mk.inj hp
      omega
    · exact hp
  have hfree : (∀ k, st' ≠ .owned k) → ∀ k, st ≠ .owned k := fun hst k hk =>
    hst k ((howned k).mpr hk)
  refine ⟨harb, hnpg, fun e he => h.leftPos e (hsub e he), h.rightPos, h.rightSig, hshape,
    h.grant.trans hneg.symm, h.grantLast, ?_, ?_, ?_, fun hst => h.settled (hfree hst), ?_, ?_⟩
  · intro p y hp hy
    obtain ⟨hb, ho⟩ := h.clear p y hp hy
    exact ⟨fun b hm => hb b (hsub _ hm), fun k hk => ho k ((howned k).mp hk)⟩
  · intro j hj1 hon hoff
    refine h.busy j hj1 (fun p hp => ?_) ?_
    · -- what the arbiter took was at node 0
      by_cases hp1 : 1 ≤ p
      · exact hon p (hkept p _ hp hp1)
      · omega
    · rcases hoff with ⟨b, hb, hle⟩ | ⟨k, hk, hle⟩
      · exact .inl ⟨b, hsub _ hb, hle⟩
      · exact .inr ⟨k, (howned k).mp hk, hle⟩
  · intro hst j hj1 hjn hb
    obtain hr | ⟨p, hp, hm⟩ := h.stale (hfree hst) j hj1 hjn hb
    · exact .inl hr
    · exact .inr ⟨p, hp, hkept p _ hm (hj1.trans hp)⟩
  · intro k hk
    obtain ⟨hk1, hkn, hsack, hbefore⟩ := h.owner k ((howned k).mp hk)
    exact ⟨hk1, hkn, hsack, fun p hp => hbefore p (hsub _ hp)⟩
  · intro j
    exact (h.master j).trans (howned j).symm

/-- The arbiter sends a grant, no BBSY being on its way to it. -/
theorem Handover.sendGrant (h : Handover n v st) {b : Bool} {st' : Stage} (hn : 1 ≤ n)
    (hoff : ∀ p, (p, .bbsyOff) ∉ v.left) (hst : ∀ k, st ≠ .owned k) (hst' : ∀ k, st' ≠ .owned k)
    (hneg : st ≠ .negated) (hneg' : st' = .negated ↔ b = false) (hsack : st'.sack = st.sack)
    (hshape : st'.Shape (Lane.word v.left)) :
    Handover n { v with right := v.right ++ [(1, (.bg, b))] } st' := by
  have hword : Lane.word (v.right ++ [(1, (.bg, b))]) = Lane.word v.right ++ [(.bg, b)] := by
    simp [Lane.word]
  have hnone : Line.bgOff ∉ Lane.word v.right := fun hm => hneg (h.grant.mp hm)
  refine ⟨h.sack.trans hsack.symm, h.npg, h.leftPos, fun e he => ?_, fun e he => ?_, hshape, ?_, ?_,
    ?_, ?_, ?_, ?_, fun k hk => absurd hk (hst' k), ?_⟩
  · rcases List.mem_append.mp he with he | he
    · exact h.rightPos e he
    · rw [List.mem_singleton.mp he]
      exact ⟨le_refl 1, hn⟩
  · rcases List.mem_append.mp he with he | he
    · exact h.rightSig e he
    · rw [List.mem_singleton.mp he]
      simp
  · rw [hword, hneg']
    cases b <;> simp [hnone]
  · rw [hword]
    refine List.pairwise_append.mpr ⟨h.grantLast, List.pairwise_singleton _ _, ?_⟩
    intro x hx y _ hxoff
    exact absurd (hxoff ▸ hx) hnone
  · intro p x hp hx
    refine ⟨fun q hq => absurd hq (hoff q), fun k hk => absurd hk (hst' k)⟩
  · intro j hj1 hon hj
    rcases hj with ⟨q, hq, -⟩ | ⟨k, hk, -⟩
    · exact absurd hq (hoff q)
    · exact absurd hk (hst' k)
  · intro _ j hj1 hjn hb
    obtain ⟨p, hp, hm⟩ | hl := h.stale hst j hj1 hjn hb
    · exact .inl ⟨p, hp, List.mem_append_left _ hm⟩
    · exact .inr hl
  · intro _
    rw [hword, lastBbsy_insert (x := (.bg, b)) (show Signal.bg ≠ Signal.bbsy by simp),
      List.append_nil]
    exact h.settled hst
  · intro j
    exact (h.master j).trans ⟨fun hj => absurd hj (hst j), fun hj => absurd hj (hst' j)⟩

/-- The arbiter's turn. -/
theorem Handover.arb (h : Handover n v st) {m : PrReq} {l : Lane}
    (hl : v.left = (0, m.line) :: l) :
    ∃ st', Handover n ⟨(listenPriority v.arb m).1, v.dev, l,
      v.right ++ ((listenPriority v.arb m).2.toList.map fun x => (1, x))⟩ st' := by
  have hword : Lane.word v.left = m.line :: Lane.word l := by simp [Lane.word, hl]
  have hshape := h.shape
  rw [hword] at hshape
  have hn : 1 ≤ n := by
    have := h.leftPos (0, m.line) (by simp [hl])
    omega
  have hcalm : ∀ {l' : Lane}, Calm (Lane.word l') → ∀ p, (p, Line.bbsyOff) ∉ l' :=
    fun hc p hp => hc.not_mem_bbsy false (List.mem_map.mpr ⟨_, hp, rfl⟩)
  obtain ⟨src, sig, b⟩ := m
  have hline := hshape.line List.mem_cons_self
  simp only [PrReq.line, Prod.mk.injEq] at hline
  -- a message the arbiter has no use for at this stage
  have hkeep : ∀ arb : ArbState, arb.sack = v.arb.sack → arb.outstandingNpg = false →
      ((sig, b) : Line) ≠ Line.sackOff → Handover n ⟨arb, v.dev, l, v.right⟩ st :=
    fun arb harb hnpg hx => h.takeHead hl (harb.trans h.sack) hnpg (hshape.tail hx)
      (fun _ => Iff.rfl) Iff.rfl
  rcases hline with ⟨rfl, rfl⟩ | ⟨rfl, rfl⟩ | ⟨rfl, rfl⟩ | ⟨rfl, rfl⟩ | ⟨rfl, rfl⟩
  · -- BR: granted while SACK is negated
    by_cases hfree : st = .free
    · subst hfree
      have hsack : v.arb.sack = false := h.sack
      have hcl := hshape.calm_of_free (.inl rfl)
      have htake : Handover n ⟨{ v.arb with outstandingBg := true }, v.dev, l, v.right⟩ .free :=
        h.takeHead hl h.sack h.npg (.inl hcl) (fun _ => Iff.rfl) Iff.rfl
      refine ⟨.free, ?_⟩
      have hturn : listenPriority v.arb ⟨src, .br, true⟩
          = ({ v.arb with outstandingBg := true }, some (.bg, ASSERTED)) := by
        simp only [listenPriority, assertBusGrant, hsack, Bool.false_eq_true, if_false]
      rw [hturn]
      exact htake.sendGrant (b := true) hn (hcalm hcl) (by simp) (by simp) (by simp) (by simp) rfl
        (.inl hcl)
    · have hsack : v.arb.sack = true := by
        rw [h.sack]
        cases st <;> first | rfl | exact absurd rfl hfree
      refine ⟨st, ?_⟩
      simp only [listenPriority, assertBusGrant, hsack, if_true, Option.toList_none, List.map_nil,
        List.append_nil]
      exact hkeep _ rfl h.npg (by decide)
  · -- SACK: the grant is negated, if one is out
    by_cases hfree : st = .free
    · subst hfree
      have hsack : v.arb.sack = false := h.sack
      have hcl := hshape.calm_of_free (.inr rfl)
      have hstuck : ∀ arb : ArbState, arb.sack = true → arb.outstandingNpg = false →
          Handover n ⟨arb, v.dev, l, v.right⟩ .stuck := fun arb hs hnpg =>
        h.takeHead hl hs hnpg hcl (by simp) (by simp)
      cases hbg : v.arb.outstandingBg with
      | true =>
        refine ⟨.negated, ?_⟩
        have hturn : listenPriority v.arb ⟨src, .sack, true⟩
            = ({ v.arb with sack := true, outstandingBg := false }, some (.bg, NEGATED)) := by
          simp only [listenPriority, arbHandleSack, hsack, hbg, negateBusGrant, Bool.not_false,
            Bool.and_self, if_true]
        rw [hturn]
        have htake := hstuck { v.arb with sack := true, outstandingBg := false } rfl h.npg
        exact htake.sendGrant (b := false) hn (hcalm hcl) (by simp) (by simp) (by simp) (by simp)
          rfl hcl
      | false =>
        refine ⟨.stuck, ?_⟩
        simp only [listenPriority, arbHandleSack, hsack, hbg, h.npg, Bool.not_false,
          Bool.and_self, if_true, Bool.false_eq_true, if_false, Option.toList_none, List.map_nil,
          List.append_nil]
        exact hstuck _ rfl rfl
    · have hsack : v.arb.sack = true := by
        rw [h.sack]
        cases st <;> first | rfl | exact absurd rfl hfree
      refine ⟨st, ?_⟩
      simp only [listenPriority, arbHandleSack, hsack, Bool.not_true, Bool.false_and,
        Bool.and_false, Bool.false_eq_true, if_false, Option.toList_none, List.map_nil,
        List.append_nil]
      exact hkeep _ rfl h.npg (by decide)
  · -- negated SACK: the right to the bus is back
    obtain ⟨rfl, hfree⟩ := hshape.of_sackOff
    have hsack : v.arb.sack = true := h.sack
    refine ⟨.free, ?_⟩
    simp only [listenPriority, arbHandleSack, hsack, Bool.not_true, Bool.not_false, Bool.and_self,
      Bool.false_eq_true, if_false, if_true, Option.toList_none, List.map_nil, List.append_nil]
    exact h.takeHead hl rfl h.npg hfree (by simp) (by simp)
  all_goals
    refine ⟨st, ?_⟩
    simp only [listenPriority, arbHandleBbsy]
    split_ifs <;>
      simp only [Option.toList_none, List.map_nil, List.append_nil] <;>
      exact hkeep _ rfl h.npg (by decide)

/-- Every move keeps the invariant. -/
theorem Handover.move (h : Handover n v st) {ok : Prop} {v' : View} (hmove : Move n ok v v') :
    ∃ st', Handover n v' st' := by
  cases hmove with
  | flags i d hd =>
    refine ⟨st, h.congr_dev fun j => ?_⟩
    by_cases hj : j = i
    · subst hj
      simp [hd.bbsy, hd.master, hd.sack]
    · simp [hj]
  | request i l r h1 hn hbbsy hl hr => exact ⟨st, h.request h1 hn hbbsy hl hr⟩
  | release i l r h1 hn hmaster hl hr => exact ⟨.released, h.release h1 hn hmaster hl hr⟩
  | hopLeft i x l h1 hn hl => exact ⟨st, h.hopLeft h1 hl⟩
  | hopRight i x r h1 hn hx hr => exact ⟨st, h.hopRight hn hx hr⟩
  | passGrant i b r h1 hn hbr hsack hr =>
    obtain ⟨st', h', -⟩ := h.passGrant hn hr
    exact ⟨st', h'⟩
  | ackGrant i l r h1 hn hbr hr hl => exact ⟨st, h.ackGrant h1 hn hr hl⟩
  | ownBus i l r r' h1 hn hsack hbbsy hr hl hr' =>
    exact ⟨.owned i, h.ownBus h1 hn hsack hr hl hr'⟩
  | missBus i r h1 hn hsack hbbsy hr =>
    rw [h.not_bbsy_of_grant h1 hn hr] at hbbsy
    cases hbbsy
  | arb m l hl hok => exact h.arb hl

end Moves

/-! ### Whole runs -/

section Runs

variable {n : ℕ}

theorem handover_step {s : System} {a : Act} (ha : a.Fifo)
    (h : ∃ st, Handover n (s.view n) st) : ∃ st, Handover n ((step n a s).view n) st := by
  obtain ⟨st, h⟩ := h
  have hmove : Move n True (s.view n) ((step n a s).view n) :=
    step_move h.regular ha fun _ _ _ _ _ => trivial
  exact h.move hmove

/-- The invariant holds of every state that a chain served in order reaches. -/
theorem handover_reach {as : List Act} (has : ∀ a ∈ as, a.Fifo) :
    ∃ st, Handover n ((reach n as).view n) st := by
  have hstep (s : System) (a : Act) (h : ∃ st, Handover n (s.view n) st) (ha : a.Fifo) :
      ∃ st, Handover n ((step n a s).view n) st := handover_step ha h
  exact runActs_invariant_of_meets hstep as initSystem ⟨.free, handover_init n⟩ (.of_forall has _)

/-- **The device told that it owns the bus does own it.**  Whatever order the
    steps came in, a device that holds SACK and takes a negated grant from its
    queue does not see BBSY asserted, and is master after it. -/
theorem grant_takes_bus {as : List Act} (has : ∀ a ∈ as, a.Fifo) {i : ℕ} (h1 : 1 ≤ i)
    (hn : i ≤ n) {m : PrReq} {rest : List PrReq} (hq : (reach n as).queue i = m :: rest)
    (hbg : m.sig = .bg) (hneg : m.assertion = NEGATED)
    (hsack : ((reach n as).dev i).sackAsserted = true) :
    ((reach n as).dev i).bbsyAsserted = false ∧
      ((step n (.event i 0) (reach n as)).dev i).isMaster = true := by
  obtain ⟨st, h⟩ := handover_reach has
  have hline : m.line = .bgOff := by rw [PrReq.line, hbg, hneg]
  -- only the arbiter sends grants, so this one moves to the right
  have hright : ¬ Leftward i m := by
    intro hleft
    have hmem : (i, m.line) ∈ leftLane n (reach n as).queue := by
      refine Mailboxes.mem_stream.mpr ⟨List.mem_range.mpr (Nat.lt_succ_of_le hn), ?_⟩
      simp [leftAt, hq, hleft]
    have hsig := h.shape.sig (List.mem_map.mpr ⟨_, hmem, rfl⟩)
    rw [hline] at hsig
    rcases hsig with hsig | hsig | hsig <;> cases hsig
  have htake := (lanes_take (reach n as).queue hq hright h1 hn).1
  rw [hline] at htake
  have hbbsy : ((reach n as).dev i).bbsyAsserted = false := h.not_bbsy_of_grant h1 hn htake
  refine ⟨hbbsy, ?_⟩
  simp [step, h1, hn, hq, processPrEvents, handleBg, hbg, hneg, hsack, assertBbsy, hbbsy]

/-- The second of two devices asks for the bus; its grant is acknowledged and negated. -/
def secondAsks : List Act :=
  [.setReq 2 true, .poll 2, .event 1 0, .arb 0, .event 1 0, .event 2 0, .event 1 0, .arb 0,
   .event 1 0]

/-- The negated grant has passed the first device. -/
theorem grant_takes_bus_second :
    ((reach 2 secondAsks).dev 2).bbsyAsserted = false ∧
      ((step 2 (.event 2 0) (reach 2 secondAsks)).dev 2).isMaster = true :=
  grant_takes_bus (by decide) (by decide) (le_refl 2)
    (show (reach 2 secondAsks).queue 2 = [⟨1, .bg, NEGATED⟩] by rfl) rfl rfl rfl

end Runs

end XMachine.Unibus
