import XMachine.Unibus.Deliveries
import XMachine.Unibus.Requests

namespace XMachine.Unibus

open XMachine.Lib

/-!
# One by one — requests that wait for each other

The arbiter keeps no queue of requests.  If every device sends its request only
when no other acquisition is under way, no request meets another one: at any
time there is at most one request, grant, acknowledgement or asserted SACK, in
whatever order the messages are taken.

* `acquiring` — the acquisitions under way;
* `AsksAlone` — the discipline;
* `requests_one_by_one` — at most one is under way, and every request is heeded.
-/

/-- A request on its way to the arbiter, a grant or its acknowledgement. -/
def acquires (i : ℕ) (m : PrReq) : ℕ :=
  if m.sig = .br ∧ Leftward i m ∨ (m.sig = .bg ∨ m.sig = .sack) ∧ m.assertion = ASSERTED then 1
  else 0

/-- The acquisitions under way, with the one that raised the arbiter's SACK line. -/
def acquiring (n : ℕ) (s : System) : ℕ :=
  Mailboxes.weight n acquires s.queue + s.arb.sack.toNat

/-- A device sends a request only when no acquisition is under way. -/
def AsksAlone (n : ℕ) (s : System) : Act → Prop
  | .poll i => (s.dev i).requests = true → acquiring n s = 0
  | _ => True

instance (n : ℕ) (s : System) (a : Act) : Decidable (AsksAlone n s a) :=
  match a with
  | .poll i => inferInstanceAs (Decidable ((s.dev i).requests = true → acquiring n s = 0))
  | .setReq .. | .setRel .. | .event .. | .arb .. => isTrue trivial

/-! ### Handlers -/

section Handlers

variable {n i : ℕ}

/-- The acquisitions among the messages of a handler. -/
def outAcquires (out : Outbox) : ℕ := (out.map fun e => acquires e.1 e.2).sum

theorem acquires_toLeft (h1 : 1 ≤ i) (sig : Signal) (b : Bool) : acquires (i - 1) ⟨i, sig, b⟩ =
    if sig = .br ∨ (sig = .bg ∨ sig = .sack) ∧ b = ASSERTED then 1 else 0 := by
  simp [acquires, leftward_pred h1 (sig, b)]

theorem acquires_toRight (i : ℕ) (sig : Signal) (b : Bool) : acquires (i + 1) ⟨i, sig, b⟩ =
    if (sig = .bg ∨ sig = .sack) ∧ b = ASSERTED then 1 else 0 := by
  simp [acquires, not_leftward_succ i (sig, b)]

/-- A message passed on keeps its direction. -/
theorem outAcquires_pass (h1 : 1 ≤ i) (m : PrReq) :
    outAcquires (pass (wiring n i) m) ≤ acquires i m := by
  by_cases hi : i < n
  · by_cases hfrom : m.fromNode = i - 1
    · have hright : ¬ Leftward i m := by
        rintro (h0 | hne)
        · omega
        · exact hne hfrom
      have hsent := acquires_toRight i m.sig m.assertion
      rw [pass_right hi hfrom, outAcquires, List.map_singleton, List.sum_singleton, hsent]
      simp [acquires, hright]
    · have hleft : Leftward i m := .inr hfrom
      have hsent := acquires_toLeft h1 m.sig m.assertion
      rw [pass_left hi hfrom, outAcquires, List.map_singleton, List.sum_singleton, hsent]
      simp [acquires, hleft]
  · rw [pass_last hi]
    exact Nat.zero_le _

theorem acquires_le_one (i : ℕ) (m : PrReq) : acquires i m ≤ 1 := by
  unfold acquires
  split <;> omega

theorem outAcquires_write_le (w : Wiring) (dir : Direction) (m : PrReq) :
    outAcquires (write w dir m) ≤ 1 := by
  have hone (e : ℕ × PrReq) : outAcquires [e] ≤ 1 := by
    simpa [outAcquires] using acquires_le_one e.1 e.2
  cases dir with
  | left => cases hl : w.left <;> simp [write, hl, outAcquires, acquires_le_one]
  | right => cases hr : w.right <;> simp [write, hr, outAcquires, acquires_le_one]
  | none => exact Nat.zero_le _

/-- Of a broadcast only a request counts, and only its copy to the left. -/
theorem outAcquires_broadcast (h1 : 1 ≤ i) (sig : Signal) (b : Bool)
    (hb : ¬ ((sig = .bg ∨ sig = .sack) ∧ b = ASSERTED)) :
    outAcquires (broadcast (wiring n i) sig b) = if sig = .br then 1 else 0 := by
  rw [broadcast_wiring]
  by_cases hi : i < n <;>
    simp [outAcquires, hi, acquires_toLeft h1, acquires_toRight, hb]

/-- A grant is passed on, or acknowledged. -/
theorem handleBg_acquires (h1 : 1 ≤ i) (d : Device) {req : PrReq} (hbg : req.sig = .bg) :
    outAcquires (handleBg (wiring n i) d req).2 ≤ acquires i req := by
  unfold handleBg
  by_cases hbr : (d.brIssued && req.assertion) = true
  · have hgrant : acquires i req = 1 := by
      rw [acquires, if_pos]
      exact .inr ⟨.inl hbg, (Bool.and_eq_true_iff.mp hbr).2⟩
    rw [if_pos hbr, hgrant]
    cases getFdDirection (wiring n i) req true with
    | none => exact Nat.zero_le _
    | left => exact outAcquires_write_le (wiring n i) .left _
    | right => exact outAcquires_write_le (wiring n i) .right _
  · rw [if_neg hbr]
    by_cases hsack : (d.sackAsserted && !req.assertion) = true
    · rw [if_pos hsack, assertBbsy]
      split
      · exact Nat.zero_le _
      · rw [outAcquires_broadcast h1 .bbsy ASSERTED (by decide)]
        exact Nat.zero_le _
    · rw [if_neg hsack]
      exact outAcquires_pass h1 req

theorem processPrEvents_acquires (h1 : 1 ≤ i) {d : Device} (hnpr : d.nprIssued = false)
    (req : PrReq) :
    outAcquires (processPrEvents (wiring n i) d req).2 ≤ acquires i req := by
  have hpass := outAcquires_pass (n := n) h1 req
  unfold processPrEvents
  cases hsig : req.sig with
  | br | npr | sack | bbsy => exact hpass
  | bg => exact handleBg_acquires h1 d hsig
  | npg =>
    dsimp only
    rw [handleNpg, hnpr, if_neg Bool.false_ne_true]
    exact hpass

theorem pollFlags_acquires (h1 : 1 ≤ i) (d : Device) :
    outAcquires (pollFlags (wiring n i) d).2 ≤ d.requests.toNat := by
  have hbr := outAcquires_broadcast (n := n) h1 .br ASSERTED (by decide)
  have hsack := outAcquires_broadcast (n := n) h1 .sack NEGATED (by decide)
  have hbbsy := outAcquires_broadcast (n := n) h1 .bbsy NEGATED (by decide)
  obtain ⟨npr, br, sack, bbsy, master, req, rel⟩ := d
  cases master with
  | true =>
    cases rel with
    | false => simp [pollFlags, outAcquires]
    | true =>
      simp only [outAcquires] at hsack hbbsy
      cases sack <;> cases bbsy <;>
        simp [pollFlags, releaseMaster, negateSack, negateBbsy, outAcquires, hsack, hbbsy]
  | false =>
    cases req with
    | false => simp [pollFlags, outAcquires]
    | true =>
      cases bbsy with
      | true => simp [pollFlags, requestMaster, outAcquires]
      | false => simpa [pollFlags, requestMaster, assertBr, Device.requests] using hbr.le

/-- The arbiter turns a request into a grant and an acknowledgement into its SACK line. -/
theorem listenPriority_acquires (a : ArbState) (req : PrReq) :
    ((listenPriority a req).2.toList.map fun g => acquires 1 ⟨0, g.1, g.2⟩).sum +
        (listenPriority a req).1.sack.toNat ≤ acquires 0 req + a.sack.toNat := by
  have hsent (sig : Signal) (b : Bool) := acquires_toRight 0 sig b
  have hleft : Leftward 0 req := .inl rfl
  obtain ⟨src, sig, b⟩ := req
  obtain ⟨sack, bbsy, bg, npg⟩ := a
  cases sig with
  | br => cases sack <;> simp [listenPriority, assertBusGrant, acquires, hleft]
  | npr => cases sack <;> simp [listenPriority, assertNpGrant, hsent]
  | sack =>
    cases sack <;> cases b <;> cases bg <;> cases npg <;>
      simp [listenPriority, arbHandleSack, negateBusGrant, negateNpGrant, acquires]
  | bbsy => cases bbsy <;> cases b <;> simp [listenPriority, arbHandleBbsy]
  | bg | npg => simp [listenPriority]

end Handlers

/-! ### Steps -/

section Steps

variable {n i : ℕ} {s : System}

/-- No handler issues an NPR. -/
theorem nprIssued_pollFlags (w : Wiring) (d : Device) :
    (pollFlags w d).1.nprIssued = d.nprIssued := by
  unfold pollFlags requestMaster assertBr releaseMaster negateSack negateBbsy
  dsimp only
  split_ifs <;> rfl

theorem nprIssued_processPrEvents (w : Wiring) {d : Device} (req : PrReq)
    (h : d.nprIssued = false) : (processPrEvents w d req).1.nprIssued = false := by
  unfold processPrEvents
  cases req.sig with
  | br | npr | sack | bbsy => exact h
  | bg =>
    dsimp only
    unfold handleBg assertBbsy
    split_ifs
    · cases getFdDirection w req true <;> exact h
    · exact h
    · exact h
    · exact h
  | npg =>
    dsimp only
    rw [handleNpg, h, if_neg Bool.false_ne_true]
    exact h

theorem nprIssued_step {a : Act} (h : ∀ j, (s.dev j).nprIssued = false) (j : ℕ) :
    ((step n a s).dev j).nprIssued = false := by
  have hupdate (i : ℕ) {d : Device} (hd : d.nprIssued = false) :
      (Function.update s.dev i d j).nprIssued = false := by
    by_cases hj : j = i
    · subst hj
      rwa [Function.update_self]
    · rw [Function.update_of_ne hj]
      exact h j
  obtain hs | ⟨i, d, hs, hnpr, -⟩ | ⟨i, -, -, hs⟩ | ⟨i, k, req, -, -, -, -, hs⟩ |
    ⟨k, req, -, -, hs⟩ := step_cases n a s
  · rw [hs]
    exact h j
  · rw [hs]
    exact hupdate i (hnpr.trans (h i))
  · rw [hs]
    exact hupdate i ((nprIssued_pollFlags _ _).trans (h i))
  · rw [hs]
    exact hupdate i (nprIssued_processPrEvents _ req (h i))
  · rw [hs]
    exact h j

theorem acquiring_post_le (s : System) (i : ℕ) (r : Device × Outbox) :
    acquiring n (s.post i r) ≤ acquiring n s + outAcquires r.2 := by
  have hsent := Mailboxes.weight_pushAll_le n acquires s.queue r.2
  rw [acquiring, acquiring, System.post_queue, System.post_arb, outAcquires]
  omega

theorem acquiring_take {k : ℕ} {req : PrReq} (hn : i ≤ n) (hk : (s.queue i)[k]? = some req) :
    acquiring n { s with queue := s.queue.take i k } + acquires i req = acquiring n s := by
  have htake := Mailboxes.weight_take acquires s.queue hn hk
  simp only [acquiring]
  omega

/-- Only a device that sends a request adds an acquisition. -/
theorem acquiring_step_le (hnpr : ∀ j, (s.dev j).nprIssued = false) {a : Act} :
    acquiring n (step n a s) ≤ acquiring n s ∨
      ∃ i, a = .poll i ∧ (s.dev i).requests = true ∧
        acquiring n (step n a s) ≤ acquiring n s + 1 := by
  cases a with
  | setReq i b | setRel i b => exact .inl (le_refl _)
  | poll i =>
    by_cases hi : 1 ≤ i ∧ i ≤ n
    · have hturn := pollFlags_acquires (n := n) hi.1 (s.dev i)
      have hpost := acquiring_post_le (n := n) s i (pollFlags (wiring n i) (s.dev i))
      rw [step, if_pos hi]
      by_cases hreq : (s.dev i).requests = true
      · right
        rw [hreq, Bool.toNat_true] at hturn
        exact ⟨i, rfl, hreq, by omega⟩
      · left
        rw [Bool.not_eq_true] at hreq
        rw [hreq, Bool.toNat_false] at hturn
        omega
    · left
      rw [step, if_neg hi]
  | event i k =>
    left
    by_cases hi : 1 ≤ i ∧ i ≤ n
    · simp only [step, if_pos hi]
      cases hk : (s.queue i)[k]? with
      | none => exact le_refl _
      | some req =>
        have hhandler := processPrEvents_acquires (n := n) hi.1 (hnpr i) req
        have htake := acquiring_take hi.2 hk
        have hpost := acquiring_post_le (n := n) { s with queue := s.queue.take i k } i
          (processPrEvents (wiring n i) (s.dev i) req)
        dsimp only
        omega
    · rw [step, if_neg hi]
  | arb k =>
    left
    simp only [step]
    cases hk : (s.queue 0)[k]? with
    | none => exact le_refl _
    | some req =>
      have hturn := listenPriority_acquires s.arb req
      have htake := acquiring_take (n := n) (Nat.zero_le n) hk
      have hsent := weight_grant_le n acquires (s.queue.take 0 k) (listenPriority s.arb req).2
      simp only [acquiring] at htake ⊢
      omega

end Steps

/-! ### Whole runs -/

/-- At most one acquisition is under way. -/
structure AtMostOne (n : ℕ) (s : System) : Prop where
  npr : ∀ j, (s.dev j).nprIssued = false
  le_one : acquiring n s ≤ 1

section Runs

variable {n : ℕ} {s : System}

theorem atMostOne_step (s : System) (a : Act) (h : AtMostOne n s) (ha : AsksAlone n s a) :
    AtMostOne n (step n a s) := by
  refine ⟨nprIssued_step h.npr, ?_⟩
  obtain hle | ⟨i, hact, hreq, hle⟩ := acquiring_step_le (n := n) h.npr (a := a)
  · exact hle.trans h.le_one
  · subst hact
    rwa [ha hreq] at hle

theorem acquires_le_weight {q : Mailboxes PrReq} {i : ℕ} {m : PrReq} (hi : i ≤ n) (hm : m ∈ q i) :
    acquires i m ≤ Mailboxes.weight n acquires q := by
  obtain ⟨k, hk⟩ := List.getElem?_of_mem hm
  have htake := Mailboxes.weight_take acquires q hi hk
  omega

/-- A request at the arbiter is all there is. -/
theorem AtMostOne.noneAcquiring (h : AtMostOne n s) {m : PrReq} (hm : m ∈ s.queue 0)
    (hbr : m.sig = .br) : NoneAcquiring n s := by
  obtain ⟨k, hk⟩ := List.getElem?_of_mem hm
  have hone : acquires 0 m = 1 := if_pos (.inl ⟨hbr, .inl rfl⟩)
  have htake := Mailboxes.weight_take acquires s.queue (Nat.zero_le n) hk
  have hle := h.le_one
  rw [acquiring] at hle
  have hrest : Mailboxes.weight n acquires (s.queue.take 0 k) = 0 := by omega
  have hsack : s.arb.sack.toNat = 0 := by omega
  -- the others weigh nothing
  have hother (i : ℕ) (hi : i ≤ n) (m' : PrReq) (hm' : m' ∈ s.queue i) (hsig : m'.sig ≠ .br) :
      acquires i m' = 0 := by
    have hstill : m' ∈ s.queue.take 0 k i := by
      by_cases h0 : i = 0
      · subst h0
        rw [Mailboxes.take, Function.update_self]
        obtain ⟨k', hk'⟩ := List.getElem?_of_mem hm'
        refine List.mem_eraseIdx_iff_getElem?.mpr ⟨k', fun heq => ?_, hk'⟩
        rw [heq, hk] at hk'
        cases hk'
        exact hsig hbr
      · rwa [Mailboxes.take, Function.update_of_ne h0]
    have := acquires_le_weight hi hstill
    omega
  refine ⟨?_, fun i hi m' hm' => ⟨fun hline => ?_, fun hline => ?_⟩⟩
  · cases hs : s.arb.sack with
    | false => rfl
    | true => simp [hs] at hsack
  · obtain ⟨hsig, hass⟩ := Prod.mk.inj hline
    have hzero := hother i hi m' hm' (by simp [hsig])
    simp [acquires, hsig, hass] at hzero
  · obtain ⟨hsig, hass⟩ := Prod.mk.inj hline
    have hzero := hother i hi m' hm' (by simp [hsig])
    simp [acquires, hsig, hass] at hzero

theorem atMostOne_initSystem (n : ℕ) : AtMostOne n initSystem :=
  ⟨fun _ => rfl, by simp [acquiring, Mailboxes.weight, initSystem, initArb]⟩

/-- **Requests that wait for each other are all heeded.**  If every request is
    sent while no acquisition is under way, there is at most one at any time, in
    whatever order the messages are taken; a request that waits at the arbiter
    finds SACK negated and no other grant or acknowledgement in flight. -/
theorem requests_one_by_one {as : List Act}
    (halone : RunMeets (step n) (AsksAlone n) as initSystem) :
    acquiring n (reach n as) ≤ 1 ∧
      (∀ m ∈ (reach n as).queue 0, m.sig = .br → NoneAcquiring n (reach n as)) ∧
      ∀ a, Heeded n (reach n as) a := by
  have h : AtMostOne n (reach n as) :=
    runActs_invariant_of_meets atMostOne_step as initSystem (atMostOne_initSystem n) halone
  refine ⟨h.le_one, fun m hm hbr => h.noneAcquiring hm hbr, fun a ha m hm hbr => ?_⟩
  exact .inl (h.noneAcquiring (List.mem_of_mem_head? hm) hbr)

/-- Device 2 asks when device 1 has given the bus back. -/
abbrev inTurn : List Act :=
  [.setReq 1 true, .poll 1, .arb 0, .event 1 0, .arb 0, .event 1 0, .arb 0, .setRel 1 true, .poll 1,
    .arb 0, .arb 0, .event 2 0, .event 2 0, .event 2 0, .event 2 0, .setReq 2 true, .poll 2,
    .event 1 0]

theorem requests_one_by_one_inTurn :
    acquiring 2 (reach 2 inTurn) ≤ 1 ∧
      (∀ m ∈ (reach 2 inTurn).queue 0, m.sig = .br → NoneAcquiring 2 (reach 2 inTurn)) ∧
      ∀ a, Heeded 2 (reach 2 inTurn) a :=
  requests_one_by_one (by decide)

end Runs

end XMachine.Unibus
