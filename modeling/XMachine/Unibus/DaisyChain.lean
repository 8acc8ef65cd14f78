import XMachine.Unibus.Travel

namespace XMachine.Unibus.Sockets

open XMachine.Lib

/-!
# Daisy chain — one grant and its acknowledgement

A BG comes down the chain from the arbiter.  Every device has flags of its own
here and keeps what its handlers make of them; the datagrams are delivered in
any order until none is left.

* `Relay` — the devices, what is in flight, and what has been taken by whom;
* `Stage` — the datagram in flight is the grant on its way to the right, or the
  acknowledgement on its way back;
* `grant_daisy_chain` — the leftmost device with a request takes the grant.
-/

/-- The states of the devices, the datagrams in flight, and those taken, each
    with its node. -/
structure Relay where
  dev : ℕ → Device
  inFlight : Outbox
  taken : List (ℕ × PrReq)

/-- Node `i` takes `req`, and `rest` is still in flight; the arbiter sends nothing. -/
def Relay.handle (names : ℕ → BusNames) (i : ℕ) (req : PrReq) (rest : Outbox) (s : Relay) :
    Relay :=
  if i = 0 then { s with inFlight := rest, taken := s.taken ++ [(0, req)] }
  else
    let r := processPrEvents (initPrState (names i)) (s.dev i) req
    { dev := Function.update s.dev i r.1, inFlight := rest ++ r.2, taken := s.taken ++ [(i, req)] }

/-- Node `i` of the chain takes the `k`-th datagram in flight, if it is the one
    the datagram is sent to. -/
def relay (n : ℕ) (names : ℕ → BusNames) : ℕ × ℕ → Relay → Relay
  | (i, k), s =>
    match s.inFlight[k]? with
    | none => s
    | some (p, req) =>
      if i ≤ n ∧ p = nodePath names i then s.handle names i req (s.inFlight.eraseIdx k) else s

/-- A grant is delivered to the device next to the arbiter, as coming from there. -/
def grantRelay (names : ℕ → BusNames) (d : ℕ → Device) : Relay where
  dev := d
  inFlight := [(nodePath names 1, real names ⟨0, .bg, ASSERTED⟩)]
  taken := []

/-- Device `k` is the leftmost with a request. -/
def Leftmost (n : ℕ) (d : ℕ → Device) (k : ℕ) : Prop :=
  1 ≤ k ∧ k ≤ n ∧ (d k).brIssued = true ∧ ∀ j, 1 ≤ j → j < k → (d j).brIssued = false

/-- Device `k` alone has taken the grant. -/
structure TakenBy (names : ℕ → BusNames) (d : ℕ → Device) (k : ℕ) (s : Relay) : Prop where
  flags : s.dev = Function.update d k { d k with brIssued := false, sackAsserted := true }
  /-- No device to its right gets the grant. -/
  blocked : ∀ e ∈ s.taken, e.2.sig = .bg → e.1 ≤ k
  /-- One acknowledgement has come to the arbiter. -/
  acknowledged : s.taken.filter (fun e => e.1 = 0) = [(0, real names ⟨1, .sack, ASSERTED⟩)]

/-- Every device has got the grant from its left neighbour, and the last one has
    dropped it. -/
structure PassedOn (n : ℕ) (names : ℕ → BusNames) (d : ℕ → Device) (s : Relay) : Prop where
  flags : s.dev = d
  passed : s.taken = (List.range n).map fun j => (j + 1, real names ⟨j, .bg, ASSERTED⟩)

/-- The grant as the first `j` devices take it. -/
def grantsTaken (names : ℕ → BusNames) (j : ℕ) : List (ℕ × PrReq) :=
  (List.range j).map fun i => (i + 1, real names ⟨i, .bg, ASSERTED⟩)

/-- The acknowledgement of device `k` as the next `m` nodes on its left take it. -/
def acksTaken (names : ℕ → BusNames) (k m : ℕ) : List (ℕ × PrReq) :=
  (List.range m).map fun i => (k - (i + 1), real names ⟨k - i, .sack, ASSERTED⟩)

/-- Where the one datagram is. -/
inductive Stage (n : ℕ) (names : ℕ → BusNames) (d : ℕ → Device) : Relay → Prop
  | grant (j : ℕ) (hj : j < n) (hnone : ∀ i, 1 ≤ i → i ≤ j → (d i).brIssued = false) :
    Stage n names d
      ⟨d, [(nodePath names (j + 1), real names ⟨j, .bg, ASSERTED⟩)], grantsTaken names j⟩
  | dropped (hnone : ∀ i, 1 ≤ i → i ≤ n → (d i).brIssued = false) :
    Stage n names d ⟨d, [], grantsTaken names n⟩
  | ack (k m : ℕ) (hk : Leftmost n d k) (hm : m < k) :
    Stage n names d
      ⟨Function.update d k { d k with brIssued := false, sackAsserted := true },
        [(nodePath names (k - (m + 1)), real names ⟨k - m, .sack, ASSERTED⟩)],
        grantsTaken names k ++ acksTaken names k m⟩
  | acked (k : ℕ) (hk : Leftmost n d k) :
    Stage n names d
      ⟨Function.update d k { d k with brIssued := false, sackAsserted := true }, [],
        grantsTaken names k ++ acksTaken names k k⟩

section

variable {n i j k m : ℕ} {names : ℕ → BusNames} {d : ℕ → Device} {s : Relay}

theorem grantsTaken_succ : grantsTaken names (j + 1)
    = grantsTaken names j ++ [(j + 1, real names ⟨j, .bg, ASSERTED⟩)] := by
  rw [grantsTaken, List.range_succ, List.map_append]
  rfl

theorem acksTaken_succ : acksTaken names k (m + 1)
    = acksTaken names k m ++ [(k - (m + 1), real names ⟨k - m, .sack, ASSERTED⟩)] := by
  rw [acksTaken, List.range_succ, List.map_append]
  rfl

theorem filter_grantsTaken : (grantsTaken names j).filter (fun e => e.1 = 0) = [] := by
  simp [grantsTaken, List.filter_map]

theorem filter_acksTaken (hm : m < k) : (acksTaken names k m).filter (fun e => e.1 = 0) = [] := by
  refine List.filter_eq_nil_iff.mpr fun e he => ?_
  obtain ⟨i, hi, rfl⟩ := List.mem_map.mp he
  have := List.mem_range.mp hi
  simp
  omega

/-! ### One datagram handled -/

/-- A device without a request hands the grant on. -/
theorem processPrEvents_grant (hbr : (d (j + 1)).brIssued = false) :
    Unibus.processPrEvents (wiring n (j + 1)) (d (j + 1)) ⟨j, .bg, ASSERTED⟩
      = (d (j + 1), if j + 1 < n then [(j + 2, ⟨j + 1, .bg, ASSERTED⟩)] else []) := by
  have hpass : Unibus.processPrEvents (wiring n (j + 1)) (d (j + 1)) ⟨j, .bg, ASSERTED⟩
      = (d (j + 1), Unibus.pass (wiring n (j + 1)) ⟨j, .bg, ASSERTED⟩) := by
    simp [Unibus.processPrEvents, Unibus.handleBg, hbr]
  rw [hpass]
  split
  · next hlt => rw [pass_right hlt rfl]
  · next hge => rw [pass_last hge]

/-- A device with a request keeps the grant and answers to the left. -/
theorem processPrEvents_take (hbr : (d (j + 1)).brIssued = true) :
    Unibus.processPrEvents (wiring n (j + 1)) (d (j + 1)) ⟨j, .bg, ASSERTED⟩
      = ({ d (j + 1) with brIssued := false, sackAsserted := true },
          [(j, ⟨j + 1, .sack, ASSERTED⟩)]) := by
  have hdir : Unibus.getFdDirection (wiring n (j + 1)) ⟨j, .bg, ASSERTED⟩ true = .left :=
    getFdDirection_reply rfl
  simp only [Unibus.processPrEvents, Unibus.handleBg, hbr, hdir, Bool.and_true, if_true]
  rfl

/-- An acknowledgement from the right goes on to the left. -/
theorem processPrEvents_ack (hlt : j + 1 < n) (d : Device) :
    Unibus.processPrEvents (wiring n (j + 1)) d ⟨j + 2, .sack, ASSERTED⟩
      = (d, [(j, ⟨j + 1, .sack, ASSERTED⟩)]) := by
  show (d, Unibus.pass _ _) = _
  rw [pass_left hlt (by show j + 2 ≠ _; omega)]
  rfl

/-- What device `i` does with a datagram of the chain. -/
theorem handle_device (W : Wired n names) (h1 : 1 ≤ i) (hi : i ≤ n) {req : Unibus.PrReq}
    (hfrom : req.fromNode ≤ n) (s : Relay) (rest : Outbox) :
    s.handle names i (real names req) rest =
      let r := Unibus.processPrEvents (wiring n i) (s.dev i) req
      ⟨Function.update s.dev i r.1, rest ++ realOut names r.2,
        s.taken ++ [(i, real names req)]⟩ := by
  have h0 : i ≠ 0 := Nat.one_le_iff_ne_zero.mp h1
  rw [Relay.handle, if_neg h0, processPrEvents_chain W h1 hi _ _ hfrom]
  rfl

/-- The one datagram in flight is taken by the node it is sent to, or by nobody. -/
theorem relay_single (W : Wired n names) (hj : j ≤ n) (a : ℕ × ℕ) {dv : ℕ → Device} {req : PrReq}
    {tk : List (ℕ × PrReq)} :
    let s : Relay := ⟨dv, [(nodePath names j, req)], tk⟩
    relay n names a s = s ∨ relay n names a s = s.handle names j req [] := by
  obtain ⟨i, k⟩ := a
  unfold relay
  cases k with
  | zero =>
    dsimp only [List.getElem?_cons_zero]
    split
    · next h =>
      -- no other node has this path
      obtain rfl : j = i := (W.nodePath_inj hj h.1).mp h.2
      exact .inr rfl
    · exact .inl rfl
  | succ k => exact .inl rfl

theorem relay_take (hj : j ≤ n) {dv : ℕ → Device} {req : PrReq} {tk : List (ℕ × PrReq)} :
    relay n names (j, 0) ⟨dv, [(nodePath names j, req)], tk⟩
      = Relay.handle names j req [] ⟨dv, [(nodePath names j, req)], tk⟩ := by
  unfold relay
  exact if_pos ⟨hj, rfl⟩

theorem taken_handle (req : PrReq) (rest : Outbox) (s : Relay) :
    (s.handle names i req rest).taken = s.taken ++ [(i, req)] := by
  unfold Relay.handle
  split
  · next h => rw [h]
  · rfl

/-! ### The invariant -/

/-- The datagram is taken: the next stage. -/
theorem Stage.handle_grant (W : Wired n names) (hj : j < n)
    (hnone : ∀ i, 1 ≤ i → i ≤ j → (d i).brIssued = false) (hdev : s.dev = d)
    (htaken : s.taken = grantsTaken names j) :
    Stage n names d (s.handle names (j + 1) (real names ⟨j, .bg, ASSERTED⟩) []) := by
  rw [handle_device W (Nat.le_add_left 1 j) hj (Nat.le_of_lt hj), hdev, htaken, ← grantsTaken_succ]
  cases hbr : (d (j + 1)).brIssued with
  | true =>
    rw [processPrEvents_take hbr]
    have hk : Leftmost n d (j + 1) :=
      ⟨Nat.le_add_left 1 j, hj, hbr, fun i h1 hi => hnone i h1 (Nat.le_of_lt_succ hi)⟩
    have hstage : Stage n names d _ := .ack (j + 1) 0 hk (Nat.succ_pos j)
    rwa [acksTaken, List.range_zero, List.map_nil, List.append_nil] at hstage
  | false =>
    have hnone' : ∀ i, 1 ≤ i → i ≤ j + 1 → (d i).brIssued = false := by
      intro i h1 hi
      rcases Nat.lt_or_ge j i with h | h
      · obtain rfl : i = j + 1 := by omega
        exact hbr
      · exact hnone i h1 h
    rw [processPrEvents_grant hbr]
    dsimp only
    rw [Function.update_eq_self]
    split
    · next hlt => exact .grant (j + 1) hlt hnone'
    · next hge =>
      obtain rfl : j + 1 = n := by omega
      exact .dropped hnone'

theorem Stage.handle_ack (W : Wired n names) (hk : Leftmost n d k) (hm : m < k)
    (hdev : s.dev = Function.update d k { d k with brIssued := false, sackAsserted := true })
    (htaken : s.taken = grantsTaken names k ++ acksTaken names k m) :
    Stage n names d (s.handle names (k - (m + 1)) (real names ⟨k - m, .sack, ASSERTED⟩) []) := by
  have htaken' := (congrArg (· ++ [(k - (m + 1), real names ⟨k - m, .sack, ASSERTED⟩)])
    htaken).trans
    ((List.append_assoc ..).trans (congrArg (grantsTaken names k ++ ·) acksTaken_succ.symm))
  rcases Nat.lt_or_ge (m + 1) k with hlt | hge
  · -- a device between the arbiter and `k`
    obtain ⟨j, rfl⟩ : ∃ j, k = j + 1 + (m + 1) := ⟨k - (m + 1) - 1, by omega⟩
    have hkn := hk.2.1
    have hj : j + 1 + (m + 1) - (m + 1) = j + 1 := by omega
    have hfrom : j + 1 + (m + 1) - m = j + 2 := by omega
    rw [hj, hfrom] at htaken' ⊢
    rw [handle_device W (by omega) (by omega) (by show j + 2 ≤ n; omega),
      processPrEvents_ack (by omega)]
    dsimp only
    rw [Function.update_eq_self, hdev, htaken']
    have hstage : Stage n names d _ := .ack _ (m + 1) hk (by omega)
    have hj' : j + 1 + (m + 1) - (m + 1 + 1) = j := by omega
    rwa [hj, hj'] at hstage
  · -- the arbiter itself
    obtain rfl : k = m + 1 := by omega
    rw [Nat.sub_self] at htaken' ⊢
    have hstage : Stage n names d _ := .acked (m + 1) hk
    rwa [← hdev, ← htaken'] at hstage

/-- **Step lemma.** -/
theorem Stage.relay (W : Wired n names) (h : Stage n names d s) (a : ℕ × ℕ) :
    Stage n names d (Sockets.relay n names a s) := by
  cases h with
  | grant j hj hnone =>
    rcases relay_single W hj a with h | h
    · rw [h]
      exact .grant j hj hnone
    · rw [h]
      exact handle_grant W hj hnone rfl rfl
  | dropped hnone => exact .dropped hnone
  | ack k m hk hm =>
    have hkn := hk.2.1
    rcases relay_single W (show k - (m + 1) ≤ n by omega) a with h | h
    · rw [h]
      exact .ack k m hk hm
    · rw [h]
      exact handle_ack W hk hm rfl rfl
  | acked k hk => exact .acked k hk

/-- Anything in flight can be taken. -/
theorem Stage.takes_next (h : Stage n names d s) : s.inFlight = [] ∨
    ∃ a, (Sockets.relay n names a s).taken.length = s.taken.length + 1 := by
  cases h with
  | grant j hj hnone =>
    refine .inr ⟨(j + 1, 0), ?_⟩
    rw [relay_take hj, taken_handle, List.length_append, List.length_singleton]
  | dropped hnone => exact .inl rfl
  | ack k m hk hm =>
    have hkn := hk.2.1
    refine .inr ⟨(k - (m + 1), 0), ?_⟩
    rw [relay_take (by omega), taken_handle, List.length_append, List.length_singleton]
  | acked k hk => exact .inl rfl

theorem Stage.length_taken_le (h : Stage n names d s) : s.taken.length ≤ 2 * n := by
  cases h with
  | grant j hj hnone =>
    simp [grantsTaken]
    omega
  | dropped hnone =>
    simp [grantsTaken]
    omega
  | ack k m hk hm =>
    have hkn := hk.2.1
    simp [grantsTaken, acksTaken]
    omega
  | acked k hk =>
    have hkn := hk.2.1
    simp [grantsTaken, acksTaken]
    omega

theorem stage_grantRelay (hn : 1 ≤ n) : Stage n names d (grantRelay names d) := by
  refine .grant 0 hn fun i h1 hi => ?_
  omega

/-- From every stage some deliveries lead to the end. -/
theorem Stage.reaches_end (W : Wired n names) (h : Stage n names d s) :
    ∃ as, (runActs (Sockets.relay n names) as s).inFlight = [] := by
  -- every datagram taken brings the run closer to its last
  induction hr : 2 * n - s.taken.length using Nat.strong_induction_on generalizing s with
  | _ r ih =>
    rcases h.takes_next with hend | ⟨a, ha⟩
    · exact ⟨[], hend⟩
    · have hnext := h.relay W a
      have hle := hnext.length_taken_le
      obtain ⟨as, has⟩ := ih _ (by omega) hnext rfl
      exact ⟨a :: as, has⟩

/-- What the last stage says. -/
theorem Stage.takenBy (h : Stage n names d s) (hend : s.inFlight = []) (hk : Leftmost n d k) :
    TakenBy names d k s := by
  cases h with
  | grant j hj hnone => cases hend
  | ack k' m hk' hm => cases hend
  | dropped hnone =>
    have := hnone k hk.1 hk.2.1
    rw [hk.2.2.1] at this
    cases this
  | acked k' hk' =>
    have hkk : k' = k := by
      rcases Nat.lt_trichotomy k' k with hlt | heq | hgt
      · exact absurd hk'.2.2.1 (by simp [hk.2.2.2 k' hk'.1 hlt])
      · exact heq
      · exact absurd hk.2.2.1 (by simp [hk'.2.2.2 k hk.1 hgt])
    subst hkk
    refine ⟨rfl, fun e he hsig => ?_, ?_⟩
    · rcases List.mem_append.mp he with he | he
      · obtain ⟨i, hi, rfl⟩ := List.mem_map.mp he
        exact List.mem_range.mp hi
      · obtain ⟨i, -, rfl⟩ := List.mem_map.mp he
        cases hsig
    · -- the arbiter takes the last acknowledgement only
      obtain ⟨m, rfl⟩ : ∃ m, k' = m + 1 := ⟨k' - 1, by have := hk.1; omega⟩
      rw [List.filter_append, acksTaken_succ, List.filter_append, filter_grantsTaken,
        filter_acksTaken (Nat.lt_succ_self m), Nat.sub_self, Nat.add_sub_cancel_left]
      rfl

theorem Stage.passedOn (h : Stage n names d s) (hend : s.inFlight = [])
    (hnone : ∀ j, 1 ≤ j → j ≤ n → (d j).brIssued = false) : PassedOn n names d s := by
  cases h with
  | grant j hj hnone' => cases hend
  | ack k m hk hm => cases hend
  | dropped hnone' => exact ⟨rfl, rfl⟩
  | acked k hk =>
    have := hnone k hk.1 hk.2.1
    rw [hk.2.2.1] at this
    cases this

end

/-- **Daisy-chain priority.**  Whatever the flags of the devices are and in
    whatever order the datagrams are taken, a grant delivered to the first device
    comes to an end.  Then the leftmost device with a request has taken it, alone,
    and the arbiter has its acknowledgement; or every device has passed it on. -/
theorem grant_daisy_chain {n : ℕ} {names : ℕ → BusNames} (W : Wired n names) (hn : 1 ≤ n)
    (d : ℕ → Device) :
    (∀ as, ∃ as', (runActs (relay n names) (as ++ as') (grantRelay names d)).inFlight = []) ∧
    ∀ as, (runActs (relay n names) as (grantRelay names d)).inFlight = [] →
      (∀ k, Leftmost n d k → TakenBy names d k (runActs (relay n names) as (grantRelay names d))) ∧
      ((∀ j, 1 ≤ j → j ≤ n → (d j).brIssued = false) →
        PassedOn n names d (runActs (relay n names) as (grantRelay names d))) := by
  have hstage : ∀ as, Stage n names d (runActs (relay n names) as (grantRelay names d)) :=
    fun as => runActs_invariant (fun _ a h => h.relay W a) as _ (stage_grantRelay hn)
  refine ⟨fun as => ?_, fun as hend => ⟨fun k hk => ?_, fun hnone => ?_⟩⟩
  · obtain ⟨as', has'⟩ := (hstage as).reaches_end W
    exact ⟨as', by rwa [runActs_append]⟩
  · exact (hstage as).takenBy hend hk
  · exact (hstage as).passedOn hend hnone

/-- The request of the second of two devices. -/
theorem grant_daisy_chain_two :
    let d := fun i => if i = 2 then { initDevice with brIssued := true } else initDevice
    TakenBy twoDevices d 2
      (runActs (relay 2 twoDevices) [(1, 0), (2, 0), (1, 0), (0, 0)] (grantRelay twoDevices d)) :=
  ((grant_daisy_chain twoDevices_chained.wired (by decide) _).2 _ (by decide +kernel)).1 2
    ⟨by decide, by decide, rfl, fun j h1 hj => by interval_cases j; rfl⟩

end XMachine.Unibus.Sockets
