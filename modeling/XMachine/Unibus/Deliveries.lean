import XMachine.Lib.Potential
import XMachine.Unibus.Lanes

namespace XMachine.Unibus

open XMachine.Lib

/-!
# Deliveries — how much traffic a request can cause

Handlers send messages of their own: a request brings a grant, a grant an
acknowledgement, this one the negated grant, that one BBSY, and the release two
more.  Nothing comes round again.  Whatever order the messages are taken in,
the devices and the arbiter have no more than `7 * n + 2` of them to handle for
each time a main thread asks for the bus.

* `serves` — the actions that do something;
* `charge` — what the messages that may still follow from a message cost;
* `traffic` — the potential;
* `services_le` — the bound.
-/

/-! ### Actions that do something -/

/-- A turn of the device sends a request. -/
def Device.requests (d : Device) : Bool := d.reqMaster && !d.isMaster && !d.bbsyAsserted

/-- A turn of the device gives the bus back. -/
def Device.releases (d : Device) : Bool :=
  d.relMaster && d.isMaster && (d.sackAsserted || d.bbsyAsserted)

/-- The action takes a message or sends one. -/
def serves (n : ℕ) (s : System) (a : Act) : Bool :=
  match a with
  | .setReq _ _ | .setRel _ _ => false
  | .poll i => decide (1 ≤ i ∧ i ≤ n) && ((s.dev i).requests || (s.dev i).releases)
  | .event i k => decide (1 ≤ i ∧ i ≤ n) && ((s.queue i)[k]?).isSome
  | .arb k => ((s.queue 0)[k]?).isSome

/-- A main thread asks for the bus. -/
def Act.asks : Act → Bool
  | .setReq _ b => b
  | _ => false

/-- A turn without a request and without a release. -/
theorem pollFlags_of_idle {w : Wiring} {d : Device} (hreq : d.requests = false)
    (hrel : d.releases = false) : pollFlags w d = (d, []) := by
  obtain ⟨npr, br, sack, bbsy, master, req, rel⟩ := d
  cases master <;> cases req <;> cases rel <;> cases bbsy <;> cases sack <;>
    simp_all [pollFlags, requestMaster, releaseMaster, negateSack, negateBbsy, Device.requests,
      Device.releases]

theorem post_self (s : System) (i : ℕ) : s.post i (s.dev i, []) = s := by
  obtain ⟨arb, cpuMaster, dev, queue⟩ := s
  simp [System.post, System.setDev, Mailboxes.pushAll]

/-! ### Prices -/

/-- The nodes that will take the message `m`, now at node `i`. -/
def legs (n i : ℕ) (m : PrReq) : ℕ := if Leftward i m then i + 1 else n + 1 - i

/-- The price of what may follow from a line that moves to the left or to the right. -/
def charge (n : ℕ) (leftward : Bool) : Line → ℕ
  | (.br, _) => if leftward then 6 * n + 1 else 0
  | (.bg, true) => 5 * n + 1
  | (.sack, true) => if leftward then 4 * n + 1 else 0
  | (.bg, false) => 3 * n + 1
  | (.npr, _) => if leftward then n else 0
  | (.npg, _) | (.sack, false) | (.bbsy, _) => 0

def price (n i : ℕ) (m : PrReq) : ℕ := charge n (decide (Leftward i m)) m.line + legs n i m

/-- The price of the messages of a handler. -/
def outPrice (n : ℕ) (out : Outbox) : ℕ := (out.map fun e => price n e.1 e.2).sum

/-- The price of what the flags of a device may still bring about. -/
def Device.price (n : ℕ) (d : Device) : ℕ :=
  (if d.isMaster then 2 * n + 1 else 0) + (if d.reqMaster then 7 * n + 2 else 0) +
    if d.nprIssued then 5 * n + 1 else 0

section Prices

variable {n i : ℕ} {x : Line} {m : PrReq} {d : Device}

theorem price_toLeft (h1 : 1 ≤ i) (sig : Signal) (b : Bool) :
    price n (i - 1) ⟨i, sig, b⟩ = charge n true (sig, b) + i := by
  have hleft := leftward_pred h1 (sig, b)
  rw [price, legs, if_pos hleft, decide_eq_true hleft, Nat.sub_add_cancel h1]
  rfl

theorem price_toRight (n i : ℕ) (sig : Signal) (b : Bool) :
    price n (i + 1) ⟨i, sig, b⟩ = charge n false (sig, b) + (n - i) := by
  have hright := not_leftward_succ i (sig, b)
  rw [price, legs, if_neg hright, decide_eq_false hright, Nat.add_sub_add_right]
  rfl

theorem one_le_legs (hn : i ≤ n) (m : PrReq) : 1 ≤ legs n i m := by
  unfold legs
  split <;> omega

@[simp] theorem outPrice_nil : outPrice n [] = 0 := rfl

@[simp] theorem outPrice_append (out out' : Outbox) :
    outPrice n (out ++ out') = outPrice n out + outPrice n out' := by simp [outPrice]

/-- A line sent to both sides is taken once by every other node. -/
theorem outPrice_broadcast (h1 : 1 ≤ i) (hn : i ≤ n) (sig : Signal) (b : Bool) :
    outPrice n (broadcast (wiring n i) sig b) ≤
      charge n true (sig, b) + charge n false (sig, b) + n := by
  have hleft := price_toLeft (n := n) h1 sig b
  have hright := price_toRight n i sig b
  rw [broadcast_wiring]
  by_cases hi : i < n
  · simp only [outPrice, if_pos hi, List.map_cons, List.map_nil, List.sum_cons, List.sum_nil]
    omega
  · simp only [outPrice, if_neg hi, List.map_cons, List.map_nil, List.sum_cons, List.sum_nil]
    omega

/-- Passed on, a message has one node less before it. -/
theorem outPrice_pass (h1 : 1 ≤ i) (hn : i ≤ n) (m : PrReq) :
    outPrice n (pass (wiring n i) m) + 1 ≤ price n i m := by
  by_cases hi : i < n
  · by_cases hfrom : m.fromNode = i - 1
    · have hright : ¬ Leftward i m := by
        rintro (h0 | hne)
        · omega
        · exact hne hfrom
      have hsent := price_toRight n i m.sig m.assertion
      rw [pass_right hi hfrom, price, legs, if_neg hright, decide_eq_false hright]
      simp only [outPrice, List.map_cons, List.map_nil, List.sum_cons, List.sum_nil]
      rw [hsent, PrReq.line]
      omega
    · have hleft : Leftward i m := .inr hfrom
      have hsent := price_toLeft (n := n) h1 m.sig m.assertion
      rw [pass_left hi hfrom, price, legs, if_pos hleft, decide_eq_true hleft]
      simp only [outPrice, List.map_cons, List.map_nil, List.sum_cons, List.sum_nil]
      rw [hsent, PrReq.line]
      omega
  · have := one_le_legs hn m
    rw [pass_last hi, outPrice_nil, price]
    omega

/-- An acknowledgement, to whatever side it goes. -/
theorem outPrice_ack (h1 : 1 ≤ i) (hn : i ≤ n) (dir : Direction) :
    outPrice n (write (wiring n i) dir ⟨i, .sack, ASSERTED⟩) ≤ 5 * n + 1 := by
  have hleft := price_toLeft (n := n) h1 .sack ASSERTED
  have hright := price_toRight n i .sack ASSERTED
  simp only [charge, if_true, Bool.false_eq_true, if_false] at hleft hright
  cases dir with
  | left =>
    simp only [write, wiring, outPrice, Option.map_some, Option.toList_some, List.map_cons,
      List.map_nil, List.sum_cons, List.sum_nil]
    omega
  | right =>
    by_cases hi : i < n
    · simp only [write, wiring, outPrice, if_pos hi, Option.map_some, Option.toList_some,
        List.map_cons, List.map_nil, List.sum_cons, List.sum_nil]
      omega
    · simp [write, wiring, hi]
  | none => exact Nat.zero_le _

end Prices

/-! ### Handlers -/

section Handlers

variable {n i : ℕ}

/-- A line of its own that the device drops, sent to both sides. -/
theorem outPrice_drop (h1 : 1 ≤ i) (hn : i ≤ n) {sig : Signal} (hsig : sig = .sack ∨ sig = .bbsy) :
    outPrice n (broadcast (wiring n i) sig NEGATED) ≤ n := by
  have hsent := outPrice_broadcast h1 hn sig NEGATED
  rcases hsig with rfl | rfl <;> simpa [charge] using hsent

theorem assertBbsy_price (h1 : 1 ≤ i) (hn : i ≤ n) (d : Device) :
    (assertBbsy (wiring n i) d).1.price n + outPrice n (assertBbsy (wiring n i) d).2 ≤
      d.price n + 3 * n + 1 := by
  have hsent := outPrice_broadcast h1 hn .bbsy ASSERTED
  simp only [charge] at hsent
  unfold assertBbsy
  by_cases hb : d.bbsyAsserted = true
  · rw [if_pos hb]
    show d.price n + 0 ≤ _
    omega
  · rw [if_neg hb]
    simp only [Device.price, if_true, Bool.false_eq_true, if_false]
    omega

/-- The acknowledgement of a grant. -/
theorem ack_price (h1 : 1 ≤ i) (hn : i ≤ n) (req : PrReq) :
    outPrice n (write (wiring n i) (getFdDirection (wiring n i) req true)
      (updateFromAddr (wiring n i) ⟨(wiring n i).self, .sack, ASSERTED⟩)) ≤ 5 * n + 1 :=
  outPrice_ack h1 hn _

theorem handleBg_price (h1 : 1 ≤ i) (hn : i ≤ n) (d : Device) {req : PrReq} (hbg : req.sig = .bg) :
    (handleBg (wiring n i) d req).1.price n + outPrice n (handleBg (wiring n i) d req).2 + 1 ≤
      d.price n + price n i req := by
  have hlegs := one_le_legs hn req
  have hpass := outPrice_pass h1 hn req
  have hack := ack_price h1 hn req
  have hown := assertBbsy_price h1 hn d
  have hdir : getFdDirection (wiring n i) req true ≠ .none := getFdDirection_reply_ne_none
  unfold handleBg
  by_cases hbr : (d.brIssued && req.assertion) = true
  · have hcharge : price n i req = 5 * n + 1 + legs n i req := by
      rw [price, PrReq.line, hbg, (Bool.and_eq_true_iff.mp hbr).2, charge]
    rw [if_pos hbr]
    cases hd : getFdDirection (wiring n i) req true with
    | none => exact absurd hd hdir
    | left | right =>
      rw [hd] at hack
      simp only [Device.price] at hown ⊢
      omega
  · rw [if_neg hbr]
    by_cases hsack : (d.sackAsserted && !req.assertion) = true
    · have hneg : req.assertion = false := by simpa using (Bool.and_eq_true_iff.mp hsack).2
      have hcharge : price n i req = 3 * n + 1 + legs n i req := by
        rw [price, PrReq.line, hbg, hneg, charge]
      rw [if_pos hsack]
      omega
    · rw [if_neg hsack]
      dsimp only
      omega

theorem handleNpg_price (h1 : 1 ≤ i) (hn : i ≤ n) (d : Device) (req : PrReq) :
    (handleNpg (wiring n i) d req).1.price n + outPrice n (handleNpg (wiring n i) d req).2 + 1 ≤
      d.price n + price n i req := by
  have hpass := outPrice_pass h1 hn req
  have hack := ack_price h1 hn req
  have hdir : getFdDirection (wiring n i) req true ≠ .none := getFdDirection_reply_ne_none
  have hlegs := one_le_legs hn req
  unfold handleNpg
  by_cases hnpr : d.nprIssued = true
  · rw [if_pos hnpr]
    cases hd : getFdDirection (wiring n i) req true with
    | none => exact absurd hd hdir
    | left | right =>
      rw [hd] at hack
      simp only [Device.price, hnpr, if_true, Bool.false_eq_true, if_false, price]
      omega
  · rw [if_neg hnpr]
    dsimp only
    omega

/-- **What a handler sends costs less than what it takes.** -/
theorem processPrEvents_price (h1 : 1 ≤ i) (hn : i ≤ n) (d : Device) (req : PrReq) :
    (processPrEvents (wiring n i) d req).1.price n +
        outPrice n (processPrEvents (wiring n i) d req).2 + 1 ≤ d.price n + price n i req := by
  have hpass := outPrice_pass h1 hn req
  unfold processPrEvents
  cases hsig : req.sig with
  | br | npr | sack =>
    simp only [handleBr, handleNpr, handleSack]
    omega
  | bbsy =>
    show d.price n + outPrice n (pass (wiring n i) req) + 1 ≤ d.price n + price n i req
    omega
  | bg => exact handleBg_price h1 hn d hsig
  | npg => exact handleNpg_price h1 hn d req

/-- A turn of the device is paid for by its flags. -/
theorem pollFlags_price (h1 : 1 ≤ i) (hn : i ≤ n) (d : Device) :
    (pollFlags (wiring n i) d).1.price n + outPrice n (pollFlags (wiring n i) d).2 +
        (d.requests || d.releases).toNat ≤ d.price n := by
  have hbr := outPrice_broadcast h1 hn .br ASSERTED
  simp only [charge, if_true, Bool.false_eq_true, if_false] at hbr
  have hsack := outPrice_drop h1 hn (.inl rfl)
  have hbbsy := outPrice_drop h1 hn (.inr rfl)
  obtain ⟨npr, br, sack, bbsy, master, req, rel⟩ := d
  cases master with
  | true =>
    cases rel with
    | false => simp [pollFlags, Device.requests, Device.releases]
    | true =>
      -- the master gives back what it holds
      cases sack <;> cases bbsy <;>
        simp [pollFlags, releaseMaster, negateSack, negateBbsy, Device.requests, Device.releases,
          Device.price] <;> omega
  | false =>
    cases req with
    | false => simp [pollFlags, Device.requests, Device.releases]
    | true =>
      cases bbsy <;>
        simp [pollFlags, requestMaster, assertBr, Device.requests, Device.releases, Device.price]
      omega

/-- The arbiter's grants are paid for by what it takes. -/
theorem listenPriority_price (n : ℕ) (a : ArbState) (req : PrReq) :
    ((listenPriority a req).2.toList.map fun g => price n 1 ⟨0, g.1, g.2⟩).sum + 1 ≤
      price n 0 req := by
  have hprice (sig : Signal) (b : Bool) : price n 1 ⟨0, sig, b⟩ = charge n false (sig, b) + n :=
    price_toRight n 0 sig b
  have htaken : price n 0 req = charge n true req.line + 1 := rfl
  obtain ⟨src, sig, b⟩ := req
  obtain ⟨sack, bbsy, bg, npg⟩ := a
  rw [htaken]
  cases sig with
  | br =>
    cases sack <;> simp [listenPriority, assertBusGrant, hprice, charge, PrReq.line]
    omega
  | npr => cases sack <;> simp [listenPriority, assertNpGrant, hprice, charge, PrReq.line]
  | sack =>
    -- a new SACK negates the grant that is out
    cases sack <;> cases b <;> cases bg <;> cases npg <;>
      simp [listenPriority, arbHandleSack, negateBusGrant, negateNpGrant, hprice, charge,
        PrReq.line] <;> omega
  | bbsy =>
    cases bbsy <;> cases b <;> simp [listenPriority, arbHandleBbsy]
  | bg | npg => simp [listenPriority]

end Handlers

/-! ### The potential -/

section Traffic

variable {n i : ℕ} {s : System}

/-- The price of all that is under way or asked for. -/
def traffic (n : ℕ) (s : System) : ℕ :=
  Mailboxes.weight n (price n) s.queue + ∑ i ∈ Finset.range (n + 1), (s.dev i).price n

theorem sum_price_update (dev : ℕ → Device) (d : Device) (hi : i ≤ n) :
    ∑ j ∈ Finset.range (n + 1), (Function.update dev i d j).price n + (dev i).price n =
      ∑ j ∈ Finset.range (n + 1), (dev j).price n + d.price n :=
  Mailboxes.sum_update (fun _ d => d.price n) dev d (Finset.mem_range.mpr (by omega))

/-- Writing the flags of a device changes the price by theirs. -/
theorem traffic_setDev_le {d : Device} {g : ℕ} (hd : d.price n ≤ (s.dev i).price n + g) :
    traffic n (s.setDev i d) ≤ traffic n s + g := by
  rw [traffic, traffic, System.setDev_queue, System.setDev_dev]
  by_cases hi : i ≤ n
  · have hsum := sum_price_update s.dev d hi
    omega
  · -- outside the chain nothing is counted
    have hsum : ∑ j ∈ Finset.range (n + 1), (Function.update s.dev i d j).price n =
        ∑ j ∈ Finset.range (n + 1), (s.dev j).price n := by
      refine Finset.sum_congr rfl fun j hj => ?_
      have hj := Finset.mem_range.mp hj
      rw [Function.update_of_ne (by omega)]
    omega

theorem traffic_post_le (s : System) (hn : i ≤ n) (r : Device × Outbox) :
    traffic n (s.post i r) + (s.dev i).price n ≤ traffic n s + r.1.price n + outPrice n r.2 := by
  have hsent := Mailboxes.weight_pushAll_le n (price n) s.queue r.2
  have hdev := sum_price_update s.dev r.1 hn
  rw [traffic, traffic, System.post_queue, System.post_dev, outPrice]
  omega

theorem traffic_take {k : ℕ} {req : PrReq} (hn : i ≤ n) (hk : (s.queue i)[k]? = some req) :
    traffic n { s with queue := s.queue.take i k } + price n i req = traffic n s := by
  have htake := Mailboxes.weight_take (price n) s.queue hn hk
  simp only [traffic]
  omega

/-- A grant adds what it weighs at the first device. -/
theorem weight_grant_le (n : ℕ) (w : ℕ → PrReq → ℕ) (q : Mailboxes PrReq) (g : Option Grant) :
    Mailboxes.weight n w (deliverGrant q g) ≤
      Mailboxes.weight n w q + (g.toList.map fun g => w 1 ⟨0, g.1, g.2⟩).sum := by
  cases g with
  | none => exact Nat.le_refl _
  | some g => exact Mailboxes.weight_push_le n w q 1 ⟨0, g.1, g.2⟩

/-- What a main thread pays when it asks. -/
def Act.gain (n : ℕ) (a : Act) : ℕ := if a.asks then 7 * n + 2 else 0

/-- **Every action is paid for.** -/
theorem traffic_step_le (n : ℕ) (s : System) (a : Act) :
    traffic n (step n a s) + (serves n s a).toNat ≤ traffic n s + a.gain n := by
  cases a with
  | setReq i b =>
    refine traffic_setDev_le ?_
    cases b with
    | true =>
      simp only [Device.price, Act.gain, Act.asks, if_true]
      omega
    | false =>
      simp only [Device.price, Act.gain, Act.asks, Bool.false_eq_true, if_false]
      omega
  | setRel i b => exact traffic_setDev_le (Nat.le_refl _)
  | poll i =>
    by_cases hi : 1 ≤ i ∧ i ≤ n
    · have hturn := pollFlags_price hi.1 hi.2 (s.dev i)
      have hpost := traffic_post_le s hi.2 (pollFlags (wiring n i) (s.dev i))
      simp only [step, if_pos hi, serves, decide_eq_true hi, Bool.true_and]
      omega
    · simp [step, serves, hi]
  | event i k =>
    by_cases hi : 1 ≤ i ∧ i ≤ n
    · simp only [step, if_pos hi, serves, decide_eq_true hi, Bool.true_and]
      cases hk : (s.queue i)[k]? with
      | none => exact Nat.le_add_right _ _
      | some req =>
        have hhandler := processPrEvents_price hi.1 hi.2 (s.dev i) req
        have htake := traffic_take hi.2 hk
        have hpost := traffic_post_le { s with queue := s.queue.take i k } hi.2
          (processPrEvents (wiring n i) (s.dev i) req)
        dsimp only at hpost
        simp only [Option.isSome_some, Bool.toNat_true]
        omega
    · simp [step, serves, hi]
  | arb k =>
    simp only [step, serves]
    cases hk : (s.queue 0)[k]? with
    | none => exact Nat.le_add_right _ _
    | some req =>
      have hgrant := listenPriority_price n s.arb req
      have htake := traffic_take (Nat.zero_le n) hk
      have hsent := weight_grant_le n (price n) (s.queue.take 0 k) (listenPriority s.arb req).2
      simp only [traffic, Option.isSome_some, Bool.toNat_true] at htake ⊢
      omega

end Traffic

/-- The potential of a chain with `n` devices. -/
def trafficPotential (n : ℕ) : Potential (step n) (serves n) (Act.gain n) where
  val := traffic n
  step_le := traffic_step_le n

theorem traffic_initSystem (n : ℕ) : traffic n initSystem = 0 := by
  simp [traffic, initSystem, initDevice, Device.price, Mailboxes.weight]

theorem sum_gain (n : ℕ) (as : List Act) :
    (as.map (Act.gain n)).sum = (7 * n + 2) * as.countP Act.asks := by
  induction as with
  | nil => rfl
  | cons a as ih =>
    rw [List.map_cons, List.sum_cons, List.countP_cons, ih, Act.gain, Nat.mul_add]
    split_ifs <;> omega

/-- **A request causes at most `7 * n + 2` actions.**  In whatever order the
    messages are taken, the arbiter and the `n` devices have no more than that
    to do for each time a main thread asks for the bus. -/
theorem services_reach_le (n : ℕ) (as : List Act) :
    services (step n) (serves n) as initSystem ≤ (7 * n + 2) * as.countP Act.asks := by
  have hpaid := (trafficPotential n).services_le as initSystem
  have hstart : (trafficPotential n).val initSystem = 0 := traffic_initSystem n
  rw [hstart, sum_gain] at hpaid
  omega

/-- The last of two devices asks, becomes master and gives the bus back: the
    bound is reached. -/
example : services (step 2) (serves 2)
    [.setReq 2 true, .poll 2, .event 1 0, .arb 0, .event 1 0, .event 2 0, .event 1 0, .arb 0,
      .event 1 0, .event 2 0, .event 1 0, .arb 0, .setRel 2 true, .poll 2, .event 1 0, .event 1 0,
      .arb 0, .arb 0] initSystem = 7 * 2 + 2 := by
  decide

end XMachine.Unibus
