import XMachine.Unibus.Chain

namespace XMachine.Unibus

open XMachine.Lib

/-!
# Lanes — the chain as two streams of messages

With queues served in order, what moves towards the arbiter forms one stream
and what moves away from it another; a message passed on keeps its place in its
stream.  The chain is seen here as the arbiter's lines, the devices' flags and
the two streams, each entry with the node whose queue it waits in.

* `leftLane`, `rightLane` — the streams of a system;
* `Send`, `Hop`, `Take` — what a node can do to a stream;
* `Move` — what a step can do to the whole view.  `step_move` says that it does
  nothing else.
-/

/-- A line of the bus and its level. -/
abbrev Line := Signal × Bool

abbrev Lane := List (ℕ × Line)

def PrReq.line (m : PrReq) : Line := (m.sig, m.assertion)

/-- `m`, waiting at node `i`, moves towards the arbiter. -/
def Leftward (i : ℕ) (m : PrReq) : Prop := i = 0 ∨ m.fromNode ≠ i - 1

instance (i : ℕ) (m : PrReq) : Decidable (Leftward i m) :=
  inferInstanceAs (Decidable (_ ∨ _))

def leftAt (q : Mailboxes PrReq) (i : ℕ) : List Line :=
  ((q i).filter fun m => Leftward i m).map PrReq.line

def rightAt (q : Mailboxes PrReq) (i : ℕ) : List Line :=
  ((q i).filter fun m => ¬ Leftward i m).map PrReq.line

/-- The nodes in the order in which messages reach the arbiter. -/
def leftPath (n : ℕ) : List ℕ := List.range (n + 1)

/-- The devices in the order in which messages leave the chain at its end. -/
def rightPath (n : ℕ) : List ℕ := (List.range' 1 n).reverse

def leftLane (n : ℕ) (q : Mailboxes PrReq) : Lane := Mailboxes.stream (leftPath n) (leftAt q)

def rightLane (n : ℕ) (q : Mailboxes PrReq) : Lane := Mailboxes.stream (rightPath n) (rightAt q)

/-! ### Operations on a lane -/

/-- `l'` is `l` with the entry for `x` put between the entries that satisfy
    `before` and those that satisfy `after`. -/
def Send (before after : ℕ → Prop) (i : ℕ) (xs : List Line) (l l' : Lane) : Prop :=
  ∃ u w, l = u ++ w ∧ l' = u ++ (xs.map fun x => (i, x)) ++ w ∧ (∀ e ∈ u, before e.1) ∧
    ∀ e ∈ w, after e.1

/-- Device `i` sends `xs` to its left neighbour. -/
def SendLeft (i : ℕ) : List Line → Lane → Lane → Prop := Send (· < i) (i ≤ ·) (i - 1)

/-- Device `i` of `n` sends `xs` to its right neighbour, if there is one. -/
def SendRight (n i : ℕ) (xs : List Line) (l l' : Lane) : Prop :=
  if i < n then Send (i < ·) (· ≤ i) (i + 1) xs l l' else l' = l

/-- Device `i` takes `x`, its first message from the left. -/
def TakeRight (i : ℕ) (x : Line) (l l' : Lane) : Prop :=
  ∃ u w, l = u ++ (i, x) :: w ∧ l' = u ++ w ∧ (∀ e ∈ u, i < e.1) ∧ ∀ e ∈ w, e.1 ≤ i

/-- Device `i` passes `x` to the left. -/
def HopLeft (i : ℕ) (x : Line) (l l' : Lane) : Prop :=
  ∃ u w, l = u ++ (i, x) :: w ∧ l' = u ++ (i - 1, x) :: w ∧ (∀ e ∈ u, e.1 < i) ∧ ∀ e ∈ w, i ≤ e.1

/-- Device `i` of `n` passes `x` to the right, or drops it as the last. -/
def HopRight (n i : ℕ) (x : Line) (l l' : Lane) : Prop :=
  if i < n then
    ∃ u w, l = u ++ (i, x) :: w ∧ l' = u ++ (i + 1, x) :: w ∧ (∀ e ∈ u, i < e.1) ∧
      ∀ e ∈ w, e.1 ≤ i
  else TakeRight i x l l'

/-! ### The lanes after a send or a receipt -/

section Queues

variable {n i j : ℕ} {m : PrReq} (q : Mailboxes PrReq)

theorem leftAt_push (h : Leftward j m) :
    leftAt (q.push j m) = Function.update (leftAt q) j (leftAt q j ++ [m.line]) ∧
      rightAt (q.push j m) = rightAt q := by
  constructor <;> funext k
  · by_cases hk : k = j
    · subst hk
      simp [leftAt, Mailboxes.push, h]
    · simp [leftAt, Mailboxes.push, hk]
  · by_cases hk : k = j
    · subst hk
      simp [rightAt, Mailboxes.push, h]
    · simp [rightAt, Mailboxes.push, hk]

theorem rightAt_push (h : ¬ Leftward j m) :
    rightAt (q.push j m) = Function.update (rightAt q) j (rightAt q j ++ [m.line]) ∧
      leftAt (q.push j m) = leftAt q := by
  constructor <;> funext k
  · by_cases hk : k = j
    · subst hk
      simp [rightAt, Mailboxes.push, h]
    · simp [rightAt, Mailboxes.push, hk]
  · by_cases hk : k = j
    · subst hk
      simp [leftAt, Mailboxes.push, h]
    · simp [leftAt, Mailboxes.push, hk]

theorem leftAt_take {rest : List PrReq} (hq : q i = m :: rest) (h : Leftward i m) :
    ∃ tail, leftAt q i = m.line :: tail ∧
      leftAt (q.take i 0) = Function.update (leftAt q) i tail ∧
      rightAt (q.take i 0) = rightAt q := by
  refine ⟨(rest.filter fun m => Leftward i m).map PrReq.line, ?_, ?_, ?_⟩
  · simp [leftAt, hq, h]
  all_goals
    funext k
    by_cases hk : k = i
    · subst hk
      simp [leftAt, rightAt, Mailboxes.take, hq, h]
    · simp [leftAt, rightAt, Mailboxes.take, hk]

theorem rightAt_take {rest : List PrReq} (hq : q i = m :: rest) (h : ¬ Leftward i m) :
    ∃ tail, rightAt q i = m.line :: tail ∧
      rightAt (q.take i 0) = Function.update (rightAt q) i tail ∧
      leftAt (q.take i 0) = leftAt q := by
  refine ⟨(rest.filter fun m => ¬ Leftward i m).map PrReq.line, ?_, ?_, ?_⟩
  · simp [rightAt, hq, h]
  all_goals
    funext k
    by_cases hk : k = i
    · subst hk
      simp [leftAt, rightAt, Mailboxes.take, hq, h]
    · simp [leftAt, rightAt, Mailboxes.take, hk]

/-- The left path around device `i` and its left neighbour. -/
theorem leftPath_split (h1 : 1 ≤ i) (hn : i ≤ n) :
    ∃ p s, leftPath n = p ++ (i - 1) :: i :: s ∧ (∀ k ∈ p, k < i) ∧ ∀ k ∈ s, i ≤ k := by
  refine ⟨List.range (i - 1), List.range' (i + 1) (n - i), ?_, fun k hk => ?_, fun k hk => ?_⟩
  · have hrange : List.range (n + 1) = List.range' 0 ((i - 1) + (1 + (1 + (n - i)))) := by
      rw [List.range_eq_range']
      congr 1
      omega
    rw [leftPath, hrange, ← List.range'_append_1, ← List.range'_append_1, ← List.range'_append_1,
      List.range_eq_range']
    simp only [List.range'_one, Nat.zero_add, List.singleton_append]
    rw [show i - 1 + 1 = i by omega]
  · have := List.mem_range.mp hk
    omega
  · have := List.mem_range'_1.mp hk
    omega

theorem nodup_leftPath (n : ℕ) : (leftPath n).Nodup := List.nodup_range

/-- The right path at device `i`. -/
theorem rightPath_split (h1 : 1 ≤ i) (hn : i ≤ n) :
    ∃ p s, rightPath n = p ++ i :: s ∧ (∀ k ∈ p, i < k) ∧ ∀ k ∈ s, k ≤ i := by
  refine ⟨(List.range' (i + 1) (n - i)).reverse, (List.range' 1 (i - 1)).reverse, ?_,
    fun k hk => ?_, fun k hk => ?_⟩
  · have hrange : List.range' 1 n = List.range' 1 ((i - 1) + (1 + (n - i))) := by
      congr 1
      omega
    rw [rightPath, hrange, ← List.range'_append_1, ← List.range'_append_1]
    rw [show 1 + (i - 1) = i by omega]
    simp
  · have := List.mem_range'_1.mp (List.mem_reverse.mp hk)
    omega
  · have := List.mem_range'_1.mp (List.mem_reverse.mp hk)
    omega

/-- The right path around device `i` and its right neighbour. -/
theorem rightPath_split_succ (h1 : 1 ≤ i) (hn : i < n) :
    ∃ p s, rightPath n = p ++ (i + 1) :: i :: s ∧ (∀ k ∈ p, i < k) ∧ ∀ k ∈ s, k ≤ i := by
  refine ⟨(List.range' (i + 2) (n - i - 1)).reverse, (List.range' 1 (i - 1)).reverse, ?_,
    fun k hk => ?_, fun k hk => ?_⟩
  · have hrange : List.range' 1 n = List.range' 1 ((i - 1) + (1 + (1 + (n - i - 1)))) := by
      congr 1
      omega
    rw [rightPath, hrange, ← List.range'_append_1, ← List.range'_append_1, ← List.range'_append_1]
    rw [show 1 + (i - 1) = i by omega]
    simp
  · have := List.mem_range'_1.mp (List.mem_reverse.mp hk)
    omega
  · have := List.mem_range'_1.mp (List.mem_reverse.mp hk)
    omega

theorem nodup_rightPath (n : ℕ) : (rightPath n).Nodup := List.nodup_reverse.mpr List.nodup_range'

/-- What a device sends to its left neighbour moves to the left there. -/
theorem leftward_pred (h1 : 1 ≤ i) (x : Line) : Leftward (i - 1) ⟨i, x.1, x.2⟩ := by
  by_cases hi : i = 1
  · exact .inl (by omega)
  · exact .inr (show i ≠ i - 1 - 1 by omega)

theorem not_leftward_succ (i : ℕ) (x : Line) : ¬ Leftward (i + 1) ⟨i, x.1, x.2⟩ := by
  rintro (h | h)
  · cases h
  · exact h rfl

theorem send_append {before after : ℕ → Prop} {xs ys : List Line} {l l₁ l₂ : Lane}
    (hi : before i) (hdisj : ∀ k, after k → ¬ before k) (h : Send before after i xs l l₁)
    (h' : Send before after i ys l₁ l₂) : Send before after i (xs ++ ys) l l₂ := by
  obtain ⟨u, w, rfl, rfl, hu, hw⟩ := h
  obtain ⟨u', w', hl, rfl, hu', hw'⟩ := h'
  have hux : ∀ e ∈ u ++ xs.map fun x => (i, x), before e.1 := by
    intro e he
    rcases List.mem_append.mp he with he | he
    · exact hu e he
    · obtain ⟨x, -, rfl⟩ := List.mem_map.mp he
      exact hi
  obtain ⟨rfl, rfl⟩ := Mailboxes.split_unique (P := fun e => before e.1) hux hu'
    (fun e he => hdisj _ (hw e he)) (fun e he => hdisj _ (hw' e he)) hl
  exact ⟨u, w, rfl, by simp, hu, hw⟩

theorem lanes_pushLeft (x : Line) (h1 : 1 ≤ i) (hn : i ≤ n) :
    SendLeft i [x] (leftLane n q) (leftLane n (q.push (i - 1) ⟨i, x.1, x.2⟩)) ∧
      rightLane n (q.push (i - 1) ⟨i, x.1, x.2⟩) = rightLane n q := by
  obtain ⟨hl, hr⟩ := leftAt_push q (leftward_pred h1 x)
  obtain ⟨p, s, hpath, hp, hs⟩ := leftPath_split h1 hn
  have hnd := nodup_leftPath n
  rw [hpath] at hnd
  obtain ⟨hpush, hpush'⟩ := Mailboxes.stream_push (leftAt q) x hnd
  refine ⟨⟨Mailboxes.stream (p ++ [i - 1]) (leftAt q), Mailboxes.stream (i :: s) (leftAt q), ?_, ?_,
    Mailboxes.forall_stream (P := (· < i)) _ ?_, Mailboxes.forall_stream (P := (i ≤ ·)) _ ?_⟩, ?_⟩
  · rw [leftLane, hpath, hpush]
  · rw [leftLane, hpath, hl]
    exact hpush'.trans (by simp)
  · refine List.forall_mem_append.mpr ⟨hp, fun k hk => ?_⟩
    rw [List.mem_singleton.mp hk]
    omega
  · simpa using hs
  · rw [rightLane, hr, rightLane]

theorem lanes_pushRight (x : Line) (h1 : 1 ≤ i) (hn : i < n) :
    SendRight n i [x] (rightLane n q) (rightLane n (q.push (i + 1) ⟨i, x.1, x.2⟩)) ∧
      leftLane n (q.push (i + 1) ⟨i, x.1, x.2⟩) = leftLane n q := by
  obtain ⟨hr, hl⟩ := rightAt_push q (not_leftward_succ i x)
  obtain ⟨p, s, hpath, hp, hs⟩ := rightPath_split_succ h1 hn
  have hnd := nodup_rightPath n
  rw [hpath] at hnd
  obtain ⟨hpush, hpush'⟩ := Mailboxes.stream_push (rightAt q) x hnd
  rw [SendRight, if_pos hn]
  refine ⟨⟨Mailboxes.stream (p ++ [i + 1]) (rightAt q), Mailboxes.stream (i :: s) (rightAt q), ?_,
    ?_, Mailboxes.forall_stream (P := (i < ·)) _ ?_, Mailboxes.forall_stream (P := (· ≤ i)) _ ?_⟩,
    ?_⟩
  · rw [rightLane, hpath, hpush]
  · rw [rightLane, hpath, hr]
    exact hpush'.trans (by simp)
  · simpa [or_imp, forall_and] using hp
  · simpa using hs
  · rw [leftLane, hl, leftLane]

/-- A line sent to both sides. -/
theorem lanes_broadcast (x : Line) (h1 : 1 ≤ i) (hn : i ≤ n) :
    SendLeft i [x] (leftLane n q) (leftLane n (q.pushAll (broadcast (wiring n i) x.1 x.2))) ∧
      SendRight n i [x] (rightLane n q)
        (rightLane n (q.pushAll (broadcast (wiring n i) x.1 x.2))) := by
  obtain ⟨hl, hr⟩ := lanes_pushLeft q x h1 hn
  rw [broadcast_wiring]
  by_cases hlt : i < n
  · obtain ⟨hr', hl'⟩ := lanes_pushRight (q.push (i - 1) ⟨i, x.1, x.2⟩) x h1 hlt
    rw [if_pos hlt]
    simp only [Mailboxes.pushAll]
    rw [hr] at hr'
    rw [hl']
    exact ⟨hl, hr'⟩
  · rw [if_neg hlt, SendRight, if_neg hlt]
    exact ⟨hl, hr⟩

/-- A message from the left, taken from the queue of device `i`. -/
theorem lanes_take {rest : List PrReq} (hq : q i = m :: rest) (h : ¬ Leftward i m) (h1 : 1 ≤ i)
    (hn : i ≤ n) : TakeRight i m.line (rightLane n q) (rightLane n (q.take i 0)) ∧
      leftLane n (q.take i 0) = leftLane n q := by
  obtain ⟨tail, hhead, hr, hl⟩ := rightAt_take q hq h
  obtain ⟨p, s, hpath, hp, hs⟩ := rightPath_split h1 hn
  have hnd := nodup_rightPath n
  rw [hpath] at hnd
  obtain ⟨htake, htake'⟩ := Mailboxes.stream_take (rightAt q) hnd hhead
  refine ⟨⟨Mailboxes.stream p (rightAt q),
    (tail.map fun y => (i, y)) ++ Mailboxes.stream s (rightAt q), ?_, ?_,
    Mailboxes.forall_stream _ hp, ?_⟩, ?_⟩
  · rw [rightLane, hpath, htake]
  · rw [rightLane, hpath, hr, htake']
  · intro e he
    rcases List.mem_append.mp he with he | he
    · obtain ⟨y, -, rfl⟩ := List.mem_map.mp he
      exact le_refl i
    · exact Mailboxes.forall_stream _ hs e he
  · rw [leftLane, hl, leftLane]

/-- A message passed to the left. -/
theorem lanes_hopLeft {rest : List PrReq} (hq : q i = m :: rest) (h : Leftward i m) (h1 : 1 ≤ i)
    (hn : i < n) :
    HopLeft i m.line (leftLane n q) (leftLane n ((q.take i 0).pushAll (pass (wiring n i) m))) ∧
      rightLane n ((q.take i 0).pushAll (pass (wiring n i) m)) = rightLane n q := by
  have hfrom : m.fromNode ≠ i - 1 := h.resolve_left (by omega)
  obtain ⟨tail, hhead, hl, hr⟩ := leftAt_take q hq h
  obtain ⟨hpl, hpr⟩ := leftAt_push (q.take i 0) (leftward_pred h1 m.line)
  obtain ⟨p, s, hpath, hp, hs⟩ := leftPath_split h1 hn.le
  have hnd := nodup_leftPath n
  rw [hpath] at hnd
  obtain ⟨hhop, hhop'⟩ := Mailboxes.stream_hop (leftAt q) m.line hnd hhead
  have hprev : leftAt (q.take i 0) (i - 1) = leftAt q (i - 1) := by
    rw [hl, Function.update_of_ne (by omega)]
  rw [pass_left hn hfrom]
  simp only [Mailboxes.pushAll]
  refine ⟨⟨Mailboxes.stream (p ++ [i - 1]) (leftAt q),
    (tail.map fun y => (i, y)) ++ Mailboxes.stream s (leftAt q), ?_, ?_,
    Mailboxes.forall_stream (P := (· < i)) _ ?_, ?_⟩, ?_⟩
  · rw [leftLane, hpath, hhop]
  · rw [hprev, hl] at hpl
    exact (congrArg (Mailboxes.stream (leftPath n)) hpl).trans (by rw [hpath]; exact hhop')
  · refine List.forall_mem_append.mpr ⟨hp, fun k hk => ?_⟩
    rw [List.mem_singleton.mp hk]
    omega
  · intro e he
    rcases List.mem_append.mp he with he | he
    · obtain ⟨y, -, rfl⟩ := List.mem_map.mp he
      exact le_refl i
    · exact Mailboxes.forall_stream _ hs e he
  · exact congrArg (Mailboxes.stream (rightPath n)) (hpr.trans hr)

/-- A message passed to the right, or dropped by the last device. -/
theorem lanes_hopRight {rest : List PrReq} (hq : q i = m :: rest) (h : ¬ Leftward i m)
    (h1 : 1 ≤ i) (hn : i ≤ n) :
    HopRight n i m.line (rightLane n q)
        (rightLane n ((q.take i 0).pushAll (pass (wiring n i) m))) ∧
      leftLane n ((q.take i 0).pushAll (pass (wiring n i) m)) = leftLane n q := by
  by_cases hlt : i < n
  · have hfrom : m.fromNode = i - 1 := not_not.mp fun hne => h (.inr hne)
    obtain ⟨tail, hhead, hr, hl⟩ := rightAt_take q hq h
    obtain ⟨hpr, hpl⟩ := rightAt_push (q.take i 0) (not_leftward_succ i m.line)
    obtain ⟨p, s, hpath, hp, hs⟩ := rightPath_split_succ h1 hlt
    have hnd := nodup_rightPath n
    rw [hpath] at hnd
    obtain ⟨hhop, hhop'⟩ := Mailboxes.stream_hop (rightAt q) m.line hnd hhead
    have hnext : rightAt (q.take i 0) (i + 1) = rightAt q (i + 1) := by
      rw [hr, Function.update_of_ne (by omega)]
    rw [pass_right hlt hfrom]
    simp only [Mailboxes.pushAll]
    rw [HopRight, if_pos hlt]
    refine ⟨⟨Mailboxes.stream (p ++ [i + 1]) (rightAt q),
      (tail.map fun y => (i, y)) ++ Mailboxes.stream s (rightAt q), ?_, ?_,
      Mailboxes.forall_stream _ ?_, ?_⟩, ?_⟩
    · rw [rightLane, hpath, hhop]
    · rw [hnext, hr] at hpr
      exact (congrArg (Mailboxes.stream (rightPath n)) hpr).trans (by rw [hpath]; exact hhop')
    · simpa [or_imp, forall_and] using hp
    · intro e he
      rcases List.mem_append.mp he with he | he
      · obtain ⟨y, -, rfl⟩ := List.mem_map.mp he
        exact le_refl i
      · exact Mailboxes.forall_stream _ hs e he
    · exact congrArg (Mailboxes.stream (leftPath n)) (hpl.trans hl)
  · rw [pass_last hlt, HopRight, if_neg hlt]
    exact lanes_take q hq h h1 hn

/-- A message taken by the arbiter. -/
theorem lanes_arb {rest : List PrReq} (hq : q 0 = m :: rest) :
    leftLane n q = (0, m.line) :: leftLane n (q.take 0 0) ∧
      rightLane n (q.take 0 0) = rightLane n q := by
  obtain ⟨tail, hhead, hl, hr⟩ := leftAt_take q hq (.inl rfl)
  have hsplit : leftPath n = [] ++ 0 :: List.range' 1 n := by
    rw [leftPath, List.range_eq_range']
    rfl
  have hnd := nodup_leftPath n
  rw [hsplit] at hnd
  obtain ⟨htake, htake'⟩ := Mailboxes.stream_take (leftAt q) hnd hhead
  refine ⟨?_, by rw [rightLane, hr, rightLane]⟩
  rw [leftLane, leftLane, hsplit, htake, hl, htake']
  rfl

/-- With nothing in the queues there is nothing on the lanes. -/
theorem lanes_of_quiet {q : Mailboxes PrReq} (hq : ∀ i ≤ n, q i = []) :
    leftLane n q = [] ∧ rightLane n q = [] := by
  constructor
  · refine List.eq_nil_iff_forall_not_mem.mpr fun e he => ?_
    obtain ⟨hpath, hmem⟩ := Mailboxes.mem_stream.mp he
    rw [leftAt, hq _ (Nat.lt_succ_iff.mp (List.mem_range.mp hpath))] at hmem
    cases hmem
  · refine List.eq_nil_iff_forall_not_mem.mpr fun e he => ?_
    obtain ⟨hpath, hmem⟩ := Mailboxes.mem_stream.mp he
    have hrange := List.mem_range'_1.mp (List.mem_reverse.mp hpath)
    rw [rightAt, hq _ (by omega)] at hmem
    cases hmem

/-- A grant goes behind everything that moves to the right. -/
theorem lanes_deliverGrant (hn : 1 ≤ n) (g : Option Grant) :
    rightLane n (deliverGrant q g) = rightLane n q ++ (g.toList.map fun x => (1, x)) ∧
      leftLane n (deliverGrant q g) = leftLane n q := by
  match g with
  | none => simp [deliverGrant]
  | some (sig, b) =>
    obtain ⟨hr, hl⟩ := rightAt_push q (not_leftward_succ 0 (sig, b))
    have hsplit : rightPath n = (List.range' 2 (n - 1)).reverse ++ [1] := by
      obtain ⟨k, rfl⟩ := Nat.exists_eq_add_of_le hn
      rw [rightPath, Nat.add_sub_cancel_left, Nat.add_comm, List.range'_succ, List.reverse_cons]
    have hnd := nodup_rightPath n
    rw [hsplit] at hnd
    obtain ⟨hpush, hpush'⟩ := Mailboxes.stream_push (rightAt q) (sig, b) hnd
    refine ⟨?_, congrArg (Mailboxes.stream (leftPath n)) hl⟩
    refine (congrArg (Mailboxes.stream (rightPath n)) hr).trans ?_
    rw [rightLane, hsplit]
    refine hpush'.trans ?_
    rw [hpush]
    simp [Mailboxes.stream]

end Queues

/-! ### Moves -/

/-- The chain as the arbiter's lines, the devices and the two lanes. -/
structure View where
  arb : ArbState
  dev : ℕ → Device
  left : Lane
  right : Lane

def System.view (n : ℕ) (s : System) : View where
  arb := s.arb
  dev := s.dev
  left := leftLane n s.queue
  right := rightLane n s.queue

/-- The flags of `d` that belong to the bus are those of `d'`. -/
structure SameLines (d d' : Device) : Prop where
  npr : d.nprIssued = d'.nprIssued
  br : d.brIssued = d'.brIssued
  sack : d.sackAsserted = d'.sackAsserted
  bbsy : d.bbsyAsserted = d'.bbsyAsserted
  master : d.isMaster = d'.isMaster

/-- A device that passes `x` on takes note of it if it is BBSY. -/
def Device.see (d : Device) (x : Line) : Device :=
  if x.1 = .bbsy then { d with bbsyAsserted := x.2 } else d

/-- One step, as it is seen on the lanes.  `ok` is what is known when the
    arbiter takes a bus request. -/
inductive Move (n : ℕ) (ok : Prop) (v : View) : View → Prop
  | flags (i : ℕ) (d : Device) (h : SameLines d (v.dev i)) :
      Move n ok v { v with dev := Function.update v.dev i d }
  | request (i : ℕ) (l r : Lane) (h1 : 1 ≤ i) (hn : i ≤ n)
      (hbbsy : (v.dev i).bbsyAsserted = false) (hl : SendLeft i [(.br, true)] v.left l)
      (hr : SendRight n i [(.br, true)] v.right r) :
      Move n ok v ⟨v.arb, Function.update v.dev i
        { v.dev i with brIssued := true, reqMaster := false }, l, r⟩
  | release (i : ℕ) (l r : Lane) (h1 : 1 ≤ i) (hn : i ≤ n) (hmaster : (v.dev i).isMaster = true)
      (hl : SendLeft i [(.sack, false), (.bbsy, false)] v.left l)
      (hr : SendRight n i [(.sack, false), (.bbsy, false)] v.right r) :
      Move n ok v ⟨v.arb, Function.update v.dev i
        { v.dev i with sackAsserted := false, bbsyAsserted := false, isMaster := false,
                       reqMaster := false, relMaster := false }, l, r⟩
  | hopLeft (i : ℕ) (x : Line) (l : Lane) (h1 : 1 ≤ i) (hn : i < n)
      (hl : HopLeft i x v.left l) :
      Move n ok v ⟨v.arb, Function.update v.dev i ((v.dev i).see x), l, v.right⟩
  | hopRight (i : ℕ) (x : Line) (r : Lane) (h1 : 1 ≤ i) (hn : i ≤ n) (hx : x.1 ≠ .bg)
      (hr : HopRight n i x v.right r) :
      Move n ok v ⟨v.arb, Function.update v.dev i ((v.dev i).see x), v.left, r⟩
  | passGrant (i : ℕ) (b : Bool) (r : Lane) (h1 : 1 ≤ i) (hn : i ≤ n)
      (hbr : b = true → (v.dev i).brIssued = false)
      (hsack : b = false → (v.dev i).sackAsserted = false) (hr : HopRight n i (.bg, b) v.right r) :
      Move n ok v ⟨v.arb, v.dev, v.left, r⟩
  | ackGrant (i : ℕ) (l r : Lane) (h1 : 1 ≤ i) (hn : i ≤ n) (hbr : (v.dev i).brIssued = true)
      (hr : TakeRight i (.bg, true) v.right r) (hl : SendLeft i [(.sack, true)] v.left l) :
      Move n ok v ⟨v.arb, Function.update v.dev i
        { v.dev i with brIssued := false, sackAsserted := true }, l, r⟩
  | ownBus (i : ℕ) (l r r' : Lane) (h1 : 1 ≤ i) (hn : i ≤ n)
      (hsack : (v.dev i).sackAsserted = true) (hbbsy : (v.dev i).bbsyAsserted = false)
      (hr : TakeRight i (.bg, false) v.right r) (hl : SendLeft i [(.bbsy, true)] v.left l)
      (hr' : SendRight n i [(.bbsy, true)] r r') :
      Move n ok v ⟨v.arb, Function.update v.dev i
        { v.dev i with bbsyAsserted := true, isMaster := true, reqMaster := false }, l, r'⟩
  | missBus (i : ℕ) (r : Lane) (h1 : 1 ≤ i) (hn : i ≤ n)
      (hsack : (v.dev i).sackAsserted = true) (hbbsy : (v.dev i).bbsyAsserted = true)
      (hr : TakeRight i (.bg, false) v.right r) : Move n ok v ⟨v.arb, v.dev, v.left, r⟩
  | arb (m : PrReq) (l : Lane) (hl : v.left = (0, m.line) :: l) (hok : m.sig = .br → ok) :
      Move n ok v ⟨(listenPriority v.arb m).1, v.dev, l,
        v.right ++ ((listenPriority v.arb m).2.toList.map fun x => (1, x))⟩

/-- What must be known of a view for its steps to be moves: every line is of a
    kind the bus uses, nothing moves left from the last device, and a master
    holds SACK and BBSY. -/
structure View.Regular (n : ℕ) (v : View) : Prop where
  left : ∀ e ∈ v.left, e.1 < n ∧ (e.2.1 = .br ∨ e.2.1 = .sack ∨ e.2.1 = .bbsy)
  right : ∀ e ∈ v.right, e.2.1 = .br ∨ e.2.1 = .bg ∨ e.2.1 = .sack ∨ e.2.1 = .bbsy
  master : ∀ i, (v.dev i).isMaster = true →
    (v.dev i).sackAsserted = true ∧ (v.dev i).bbsyAsserted = true

section Simulation

variable {n i : ℕ} {ok : Prop} {s : System}

theorem view_post (s : System) (i : ℕ) (d : Device) (out : Outbox) :
    (s.post i (d, out)).view n = ⟨s.arb, Function.update s.dev i d,
      leftLane n (s.queue.pushAll out), rightLane n (s.queue.pushAll out)⟩ := rfl

/-- Polling its flags, a device asks for the bus, gives it back or does nothing. -/
theorem move_pollFlags (hs : (s.view n).Regular n) (h1 : 1 ≤ i) (hn : i ≤ n) :
    Move n ok (s.view n) ((s.post i (pollFlags (wiring n i) (s.dev i))).view n) := by
  have hstay : Move n ok (s.view n) ((s.post i (s.dev i, [])).view n) :=
    .flags i (s.dev i) ⟨rfl, rfl, rfl, rfl, rfl⟩
  unfold pollFlags
  split
  · unfold requestMaster
    split
    · exact hstay
    · next hbbsy =>
      have hbbsy := Bool.eq_false_iff.mpr hbbsy
      obtain ⟨hl, hr⟩ := lanes_broadcast s.queue (.br, true) h1 hn
      have hassert : assertBr (wiring n i) (s.dev i)
          = ({ s.dev i with brIssued := true }, broadcast (wiring n i) .br ASSERTED) :=
        if_neg (by simp [hbbsy])
      rw [hassert]
      exact Move.request (v := s.view n) i _ _ h1 hn hbbsy hl hr
  · split
    · next h =>
      obtain ⟨-, hmaster⟩ := Bool.and_eq_true_iff.mp h
      obtain ⟨hsack, hbbsy⟩ : (s.dev i).sackAsserted = true ∧ (s.dev i).bbsyAsserted = true :=
        hs.master i hmaster
      obtain ⟨hl, hr⟩ := lanes_broadcast s.queue (.sack, false) h1 hn
      obtain ⟨hl', hr'⟩ := lanes_broadcast
        (s.queue.pushAll (broadcast (wiring n i) .sack NEGATED)) (.bbsy, false) h1 hn
      have hleft : SendLeft i [(.sack, false), (.bbsy, false)] (leftLane n s.queue)
          (leftLane n ((s.queue.pushAll (broadcast (wiring n i) .sack NEGATED)).pushAll
            (broadcast (wiring n i) .bbsy NEGATED))) := by
        refine send_append ?_ (fun _ h => not_lt.mpr h) hl hl'
        exact Nat.sub_lt h1 Nat.one_pos
      have hright : SendRight n i [(.sack, false), (.bbsy, false)] (rightLane n s.queue)
          (rightLane n ((s.queue.pushAll (broadcast (wiring n i) .sack NEGATED)).pushAll
            (broadcast (wiring n i) .bbsy NEGATED))) := by
        unfold SendRight at hr hr' ⊢
        split
        · next hlt =>
          rw [if_pos hlt] at hr hr'
          refine send_append ?_ (fun _ h => not_lt.mpr h) hr hr'
          exact Nat.lt_succ_self i
        · next hlt =>
          rw [if_neg hlt] at hr hr'
          exact hr'.trans hr
      simp only [releaseMaster, negateSack, negateBbsy, hsack, hbbsy, Bool.not_true,
        Bool.false_eq_true, if_false]
      rw [view_post, Mailboxes.pushAll_append]
      exact Move.release (v := s.view n) i _ _ h1 hn hmaster hleft hright
    · exact hstay

/-- A datagram taken in order and handled by a device. -/
theorem move_processPrEvents {m : PrReq} {rest : List PrReq} (hs : (s.view n).Regular n)
    (h1 : 1 ≤ i) (hn : i ≤ n) (hq : s.queue i = m :: rest) :
    Move n ok (s.view n) (({ s with queue := s.queue.take i 0 }.post i
      (processPrEvents (wiring n i) (s.dev i) m)).view n) := by
  have hself : Function.update s.dev i (s.dev i) = s.dev := Function.update_eq_self _ _
  by_cases hleft : Leftward i m
  · -- towards the arbiter: passed on, whatever it is
    have hmem : (i, m.line) ∈ leftLane n s.queue := by
      refine Mailboxes.mem_stream.mpr ⟨List.mem_range.mpr (Nat.lt_succ_of_le hn), ?_⟩
      simp [leftAt, hq, hleft]
    obtain ⟨hlt, hsig⟩ := hs.left _ hmem
    obtain ⟨hl, hr⟩ := lanes_hopLeft s.queue hq hleft h1 hlt
    have hmove : Move n ok (s.view n) _ := .hopLeft i m.line _ h1 hlt hl
    have hprocess : processPrEvents (wiring n i) (s.dev i) m
        = ((s.dev i).see m.line, pass (wiring n i) m) := by
      rcases hsig with h | h | h <;>
        simp [processPrEvents, show m.sig = _ from h, handleBr, handleSack, handleBbsy,
          Device.see, PrReq.line]
    rw [hprocess, view_post]
    dsimp only
    rw [hr]
    exact hmove
  · have hmem : (i, m.line) ∈ rightLane n s.queue := by
      refine Mailboxes.mem_stream.mpr
        ⟨List.mem_reverse.mpr (List.mem_range'_1.mpr ⟨h1, by omega⟩), ?_⟩
      simp [rightAt, hq, hleft]
    have hfrom : m.fromNode = i - 1 := not_not.mp fun hne => hleft (.inr hne)
    obtain ⟨htake, htakeL⟩ := lanes_take s.queue hq hleft h1 hn
    obtain ⟨hhop, hhopL⟩ := lanes_hopRight s.queue hq hleft h1 hn
    by_cases hbg : m.sig = .bg
    · -- a grant: acknowledged, answered with BBSY, or passed on
      have hline : m.line = (.bg, m.assertion) := by rw [PrReq.line, hbg]
      rw [hline] at htake hhop
      simp only [processPrEvents, hbg, handleBg]
      split
      · next h =>
        obtain ⟨hbr, hass⟩ := Bool.and_eq_true_iff.mp h
        rw [hass] at htake
        obtain ⟨hl, hr⟩ := lanes_pushLeft (s.queue.take i 0) (.sack, true) h1 hn
        rw [getFdDirection_reply hfrom, view_post]
        simp only [write, wiring, updateFromAddr, Option.map_some, Option.toList_some,
          Mailboxes.pushAll]
        rw [htakeL] at hl
        rw [hr]
        exact .ackGrant i _ _ h1 hn hbr htake hl
      · next hbr =>
        split
        · next h =>
          obtain ⟨hsack, hneg⟩ := Bool.and_eq_true_iff.mp h
          rw [show m.assertion = false by simpa using hneg] at htake
          unfold assertBbsy
          split
          · next hbbsy =>
            rw [view_post]
            dsimp only [Mailboxes.pushAll]
            rw [hself, htakeL]
            exact .missBus i _ h1 hn hsack hbbsy htake
          · next hbbsy =>
            obtain ⟨hl, hr⟩ := lanes_broadcast (s.queue.take i 0) (.bbsy, true) h1 hn
            rw [htakeL] at hl
            exact .ownBus i _ _ _ h1 hn hsack (Bool.eq_false_iff.mpr hbbsy) htake hl hr
        · next hsack =>
          rw [view_post]
          dsimp only
          rw [hself, hhopL]
          refine .passGrant i m.assertion _ h1 hn (fun hb => ?_) (fun hb => ?_) hhop
          · simpa [hb, System.view] using hbr
          · simpa [hb, System.view] using hsack
    · have hmove : Move n ok (s.view n) _ := .hopRight i m.line _ h1 hn hbg hhop
      have hprocess : processPrEvents (wiring n i) (s.dev i) m
          = ((s.dev i).see m.line, pass (wiring n i) m) := by
        rcases hs.right _ hmem with h | h | h | h
        · simp [processPrEvents, show m.sig = _ from h, handleBr, Device.see, PrReq.line]
        · exact absurd h hbg
        · simp [processPrEvents, show m.sig = _ from h, handleSack, Device.see, PrReq.line]
        · simp [processPrEvents, show m.sig = _ from h, handleBbsy, Device.see, PrReq.line]
      rw [hprocess, view_post]
      dsimp only
      rw [hhopL]
      exact hmove

/-- **Every step of a chain served in order is a move on its lanes.** -/
theorem step_move {a : Act} (hs : (s.view n).Regular n) (ha : a.Fifo)
    (hok : ∀ m rest, a = .arb 0 → s.queue 0 = m :: rest → m.sig = .br → ok) :
    Move n ok (s.view n) ((step n a s).view n) := by
  obtain h | ⟨i, d, h, hnpr, hbr, hsack, hbbsy, hmaster⟩ | ⟨i, h1, hn, h⟩ |
    ⟨i, k, req, rfl, h1, hn, hreq, h⟩ | ⟨k, req, rfl, hreq, h⟩ := step_cases n a s
  · rw [h]
    have hmove : Move n ok (s.view n) _ := .flags 0 (s.dev 0) ⟨rfl, rfl, rfl, rfl, rfl⟩
    rwa [show Function.update (s.view n).dev 0 (s.dev 0) = (s.view n).dev from
      Function.update_eq_self _ _] at hmove
  · rw [h]
    exact .flags i d ⟨hnpr, hbr, hsack, hbbsy, hmaster⟩
  · rw [h]
    exact move_pollFlags hs h1 hn
  · obtain rfl : k = 0 := ha
    obtain ⟨rest, hq⟩ := List.head?_eq_some_iff.mp (List.head?_eq_getElem? ▸ hreq)
    rw [h]
    exact move_processPrEvents hs h1 hn hq
  · obtain rfl : k = 0 := ha
    obtain ⟨rest, hq⟩ := List.head?_eq_some_iff.mp (List.head?_eq_getElem? ▸ hreq)
    obtain ⟨hl, hr⟩ := lanes_arb (n := n) s.queue hq
    have hn : 1 ≤ n := by
      have := (hs.left (0, req.line) (by rw [System.view, hl]; exact List.mem_cons_self)).1
      omega
    obtain ⟨hgr, hgl⟩ := lanes_deliverGrant (s.queue.take 0 0) hn (listenPriority s.arb req).2
    have hmove : Move n ok (s.view n) _ := .arb req _ hl (hok req rest rfl hq)
    rw [h]
    simp only [System.view] at hmove ⊢
    rw [hgr, hgl, hr]
    exact hmove

end Simulation

end XMachine.Unibus
