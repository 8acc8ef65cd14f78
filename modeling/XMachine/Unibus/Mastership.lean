import XMachine.Unibus.Chain
import Mathlib.Algebra.Order.BigOperators.Group.Finset
import Mathlib.Order.Interval.Finset.Nat

namespace XMachine.Unibus

open XMachine.Lib

/-!
# Mastership — at most one device is bus master

Three things can carry the right to the bus: a device that is master, a negated
grant on its way to a device, and a negated SACK on its way to the arbiter.
Their number never exceeds one, and is zero while the arbiter's own SACK line
is negated: that line is the only place where the right is made and taken back.

* `carries` — whether a message at a node is such a carrier;
* `rights_processPrEvents`, `rights_pollFlags` — no device adds to the number;
* `Exclusive` — the invariant, kept by every step in whatever order the nodes
  take their messages.
-/

/-- A negated grant, or a negated SACK that moves towards the arbiter. -/
def carries (i : ℕ) (m : PrReq) : ℕ :=
  if m.assertion then 0
  else if m.sig = .bg then (if i = 0 then 0 else 1)
  else if m.sig = .sack then (if i = 0 ∨ m.fromNode ≠ i - 1 then 1 else 0)
  else 0

/-- The carriers among the datagrams a handler sends. -/
def sent (out : Outbox) : ℕ := (out.map fun e => carries e.1 e.2).sum

def masters (d : Device) : ℕ := if d.isMaster then 1 else 0

/-- All carriers of the right to the bus. -/
def rights (n : ℕ) (s : System) : ℕ :=
  ∑ i ∈ Finset.Icc 1 n, masters (s.dev i) + Mailboxes.weight n carries s.queue

/-! ### Handlers -/

section Handlers

variable {n i : ℕ} (d : Device) (req : PrReq)

@[simp] theorem sent_nil : sent [] = 0 := rfl

@[simp] theorem sent_append (out out' : Outbox) : sent (out ++ out') = sent out + sent out' := by
  simp [sent]

@[simp] theorem carries_asserted (j k : ℕ) (sig : Signal) : carries j ⟨k, sig, true⟩ = 0 := rfl

@[simp] theorem carries_bbsy (j k : ℕ) (b : Bool) : carries j ⟨k, .bbsy, b⟩ = 0 := by
  simp [carries]

@[simp] theorem carries_br (j k : ℕ) (b : Bool) : carries j ⟨k, .br, b⟩ = 0 := by
  simp [carries]

theorem sent_write_asserted (w : Wiring) (dir : Direction) (k : ℕ) (sig : Signal) :
    sent (write w dir ⟨k, sig, ASSERTED⟩) = 0 := by
  cases dir with
  | left => cases hl : w.left <;> simp [write, hl, sent]
  | right => cases hr : w.right <;> simp [write, hr, sent]
  | none => rfl

@[simp] theorem sent_broadcast_asserted (w : Wiring) (sig : Signal) :
    sent (broadcast w sig ASSERTED) = 0 := by
  rw [broadcast, sent_append, sent_write_asserted, sent_write_asserted]

@[simp] theorem sent_broadcast_bbsy (n i : ℕ) (b : Bool) :
    sent (broadcast (wiring n i) .bbsy b) = 0 := by
  rw [broadcast_wiring]
  split_ifs <;> simp [sent]

/-- Sent to the right, only a grant carries the right to the bus. -/
theorem carries_right (i : ℕ) (sig : Signal) (b : Bool) :
    carries (i + 1) ⟨i, sig, b⟩ = if b then 0 else if sig = .bg then 1 else 0 := by
  simp [carries]

/-- Of a device's negated SACK only the copy sent to the left counts. -/
theorem sent_broadcast_sack (n i : ℕ) : sent (broadcast (wiring n i) .sack NEGATED) ≤ 1 := by
  have hl : carries (i - 1) ⟨i, .sack, NEGATED⟩ ≤ 1 := by
    unfold carries
    split_ifs <;> omega
  rw [broadcast_wiring]
  split_ifs <;> simpa [sent, carries_right] using hl

/-- A message passed on keeps its value: it keeps its direction. -/
theorem sent_pass (hi : 1 ≤ i) : sent (pass (wiring n i) req) ≤ carries i req := by
  by_cases hn : i < n
  · by_cases hfrom : req.fromNode = i - 1
    · have hle : carries (i + 1) ⟨i, req.sig, req.assertion⟩ ≤ carries i req := by
        rw [carries_right, carries]
        split_ifs <;> omega
      simpa [pass_right hn hfrom, sent] using hle
    · have hle : carries (i - 1) ⟨i, req.sig, req.assertion⟩ ≤ carries i req := by
        unfold carries
        split_ifs <;> omega
      simpa [pass_left hn hfrom, sent] using hle
  · rw [pass_last hn]
    exact Nat.zero_le _

theorem write_le {dir : Direction} {m : PrReq} (hi : i ≤ n) {e : ℕ × PrReq}
    (he : e ∈ write (wiring n i) dir m) : e.1 ≤ n := by
  obtain ⟨-, ⟨-, hl⟩ | ⟨-, hr⟩⟩ := mem_write he
  · have : i - 1 = e.1 := Option.some.inj hl
    omega
  · simp only [wiring, Option.ite_none_right_eq_some, Option.some.injEq] at hr
    omega

theorem broadcast_le {sig : Signal} {b : Bool} (hi : i ≤ n) {e : ℕ × PrReq}
    (he : e ∈ broadcast (wiring n i) sig b) : e.1 ≤ n := by
  rcases List.mem_append.mp he with he | he <;> exact write_le hi he

theorem pass_le (hi : i ≤ n) {e : ℕ × PrReq} (he : e ∈ pass (wiring n i) req) : e.1 ≤ n :=
  write_le hi he

/-- Taking the bus turns the negated grant into a master. -/
theorem rights_assertBbsy (n i : ℕ) :
    sent (assertBbsy (wiring n i) d).2 + masters (assertBbsy (wiring n i) d).1 ≤ masters d + 1 := by
  unfold assertBbsy
  split
  · simp
  · simp [masters]

theorem rights_handleBg (hi : 1 ≤ i) (hsig : req.sig = .bg) :
    sent (handleBg (wiring n i) d req).2 + masters (handleBg (wiring n i) d req).1
      ≤ carries i req + masters d := by
  unfold handleBg
  split
  · split
    · simp
    · simp [updateFromAddr, sent_write_asserted, masters]
  · split
    · next hneg =>
      obtain ⟨-, hneg⟩ := Bool.and_eq_true_iff.mp hneg
      have hcarries : carries i req = 1 := by
        have : i ≠ 0 := by omega
        simp_all [carries]
      have := rights_assertBbsy d n i
      omega
    · have := sent_pass (n := n) req hi
      simp only
      omega

theorem rights_handleNpg (hi : 1 ≤ i) :
    sent (handleNpg (wiring n i) d req).2 + masters (handleNpg (wiring n i) d req).1
      ≤ carries i req + masters d := by
  unfold handleNpg
  split
  · split
    · simp
    · simp [updateFromAddr, sent_write_asserted, masters]
  · have := sent_pass (n := n) req hi
    simp only
    omega

/-- No handler adds to the carriers. -/
theorem rights_processPrEvents (hi : 1 ≤ i) :
    sent (processPrEvents (wiring n i) d req).2 + masters (processPrEvents (wiring n i) d req).1
      ≤ carries i req + masters d := by
  have hpass := sent_pass (n := n) req hi
  unfold processPrEvents
  split
  · simp only [handleBr]
    omega
  · next hsig => exact rights_handleBg d req hi hsig
  · simp only [handleNpr]
    omega
  · exact rights_handleNpg d req hi
  · simp only [handleSack]
    omega
  · exact Nat.add_le_add_right hpass _

/-- A master gives the right back when it negates its SACK. -/
theorem rights_releaseMaster (n i : ℕ) (hmaster : d.isMaster = true)
    (hsack : d.sackAsserted = true) :
    sent (releaseMaster (wiring n i) d).2 + masters (releaseMaster (wiring n i) d).1
      ≤ masters d := by
  have hsent := sent_broadcast_sack n i
  unfold releaseMaster negateSack negateBbsy
  simp only [hsack, Bool.not_true, Bool.false_eq_true, if_false]
  split <;> simp [masters, hmaster, hsent]

theorem rights_pollFlags (n i : ℕ) (hsack : d.isMaster = true → d.sackAsserted = true) :
    sent (pollFlags (wiring n i) d).2 + masters (pollFlags (wiring n i) d).1 ≤ masters d := by
  unfold pollFlags
  split
  · unfold requestMaster
    split
    · simp
    · unfold assertBr
      split <;> simp [masters]
  · split
    · next h =>
      obtain ⟨-, hmaster⟩ := Bool.and_eq_true_iff.mp h
      exact rights_releaseMaster d n i hmaster (hsack hmaster)
    · simp

end Handlers

/-! ### The arbiter -/

/-- The carrier among the grants. -/
def granted (g : Option Grant) : ℕ := if g = some (.bg, NEGATED) then 1 else 0

/-- The arbiter makes a carrier only where it raises its SACK line, and lowers
    the line only where it takes a carrier in. -/
theorem rights_listenPriority (a : ArbState) (req : PrReq) :
    granted (listenPriority a req).2 + (if a.sack then 1 else 0)
      ≤ carries 0 req + if (listenPriority a req).1.sack then 1 else 0 := by
  unfold listenPriority
  split
  · unfold assertBusGrant
    split <;> simp_all [granted]
  · unfold assertNpGrant
    split <;> simp_all [granted]
  · next hsig =>
    unfold arbHandleSack negateBusGrant negateNpGrant
    dsimp only
    split_ifs <;> simp_all [granted, carries]
  · unfold arbHandleBbsy
    split_ifs <;> simp [granted]
  · simp [granted]

theorem weight_deliverGrant_le (n : ℕ) (q : Mailboxes PrReq) (g : Option Grant) :
    Mailboxes.weight n carries (deliverGrant q g) ≤ Mailboxes.weight n carries q + granted g := by
  match g with
  | none => exact Nat.le_add_right _ _
  | some (sig, b) =>
    refine (Mailboxes.weight_push_le n carries q 1 _).trans (Nat.add_le_add_left ?_ _)
    cases b <;> cases sig <;> simp [carries, granted]

/-! ### Whole runs -/

/-- A master has acknowledged its grant and not yet taken the acknowledgement back. -/
def Acknowledged (d : Device) : Prop := d.isMaster = true → d.sackAsserted = true

/-- At most one carrier of the right to the bus, none while SACK is negated. -/
structure Exclusive (n : ℕ) (s : System) : Prop where
  rights_le : rights n s ≤ if s.arb.sack then 1 else 0
  acknowledged : ∀ i, Acknowledged (s.dev i)

theorem acknowledged_processPrEvents (w : Wiring) {d : Device} (req : PrReq)
    (hd : Acknowledged d) : Acknowledged (processPrEvents w d req).1 := by
  unfold processPrEvents
  split
  · exact hd
  · unfold handleBg
    split
    · split
      · exact hd
      · exact fun _ => rfl
    · split
      · next hneg =>
        obtain ⟨hsack, -⟩ := Bool.and_eq_true_iff.mp hneg
        unfold assertBbsy
        split
        · exact hd
        · exact fun _ => hsack
      · exact hd
  · exact hd
  · unfold handleNpg
    split
    · split
      · exact hd
      · exact fun _ => rfl
    · exact hd
  · exact hd
  · exact hd

theorem isMaster_releaseMaster (w : Wiring) {d : Device} (hsack : d.sackAsserted = true) :
    (releaseMaster w d).1.isMaster = false := by
  simp only [releaseMaster, negateSack, hsack, Bool.not_true, Bool.false_eq_true, if_false,
    negateBbsy]
  split <;> rfl

theorem acknowledged_pollFlags (w : Wiring) {d : Device} (hd : Acknowledged d) :
    Acknowledged (pollFlags w d).1 := by
  unfold pollFlags
  split
  · unfold requestMaster
    split
    · exact hd
    · unfold assertBr
      split <;> exact hd
  · split
    · next h =>
      obtain ⟨-, hmaster⟩ := Bool.and_eq_true_iff.mp h
      intro hm
      -- the SACK a master holds is negated here, and mastership with it
      rw [isMaster_releaseMaster w (hd hmaster)] at hm
      cases hm
    · exact hd

theorem rights_post {n i : ℕ} (s : System) (r : Device × Outbox) (h1 : 1 ≤ i) (hn : i ≤ n)
    (hout : ∀ e ∈ r.2, e.1 ≤ n) :
    rights n (s.post i r) + masters (s.dev i) = rights n s + masters r.1 + sent r.2 := by
  have hdev := Mailboxes.sum_update (t := Finset.Icc 1 n) (fun _ => masters) s.dev r.1
    (Finset.mem_Icc.mpr ⟨h1, hn⟩)
  have hq := Mailboxes.weight_pushAll carries s.queue r.2 hout
  simp only [rights, System.post_dev, System.post_queue, hq, sent]
  omega

theorem outbox_processPrEvents_le {n i : ℕ} (d : Device) (req : PrReq) (hn : i ≤ n) :
    ∀ e ∈ (processPrEvents (wiring n i) d req).2, e.1 ≤ n := by
  intro e he
  unfold processPrEvents at he
  split at he
  · exact pass_le req hn he
  · unfold handleBg at he
    split at he
    · split at he
      · cases he
      · exact write_le hn he
    · split at he
      · unfold assertBbsy at he
        split at he
        · cases he
        · exact broadcast_le hn he
      · exact pass_le req hn he
  · exact pass_le req hn he
  · unfold handleNpg at he
    split at he
    · split at he
      · cases he
      · exact write_le hn he
    · exact pass_le req hn he
  · exact pass_le req hn he
  · exact pass_le req hn he

theorem outbox_negateSack_le {n i : ℕ} (d : Device) (hn : i ≤ n) :
    ∀ e ∈ (negateSack (wiring n i) d).2, e.1 ≤ n := by
  intro e he
  unfold negateSack at he
  split at he
  · cases he
  · exact broadcast_le hn he

theorem outbox_negateBbsy_le {n i : ℕ} (d : Device) (hn : i ≤ n) :
    ∀ e ∈ (negateBbsy (wiring n i) d).2, e.1 ≤ n := by
  intro e he
  unfold negateBbsy at he
  split at he
  · cases he
  · exact broadcast_le hn he

theorem outbox_pollFlags_le {n i : ℕ} (d : Device) (hn : i ≤ n) :
    ∀ e ∈ (pollFlags (wiring n i) d).2, e.1 ≤ n := by
  intro e he
  unfold pollFlags at he
  split at he
  · unfold requestMaster assertBr at he
    split at he
    · cases he
    · split at he
      · cases he
      · exact broadcast_le hn he
  · split at he
    · rcases List.mem_append.mp he with he | he
      · exact outbox_negateSack_le d hn e he
      · exact outbox_negateBbsy_le _ hn e he
    · cases he

theorem exclusive_init (n : ℕ) : Exclusive n initSystem := by
  constructor
  · simp [rights, initSystem, initDevice, masters, Mailboxes.weight, initArb]
  · intro i h
    cases h

theorem exclusive_step {n : ℕ} (s : System) (a : Act) (hs : Exclusive n s) :
    Exclusive n (step n a s) := by
  have hle := hs.rights_le
  obtain h | ⟨i, d, h, -, -, hsack, -, hmaster⟩ | ⟨i, h1, hn, h⟩ |
    ⟨i, k, req, -, h1, hn, hreq, h⟩ | ⟨k, req, -, hreq, h⟩ := step_cases n a s
  · rwa [h]
  · -- a flag of the main thread: nothing the carriers depend on
    rw [h]
    have hdev : ∀ j, masters ((s.setDev i d).dev j) = masters (s.dev j) := by
      intro j
      by_cases hj : j = i
      · subst hj
        simp [masters, hmaster]
      · simp [hj]
    have hrights : rights n (s.setDev i d) = rights n s := by
      simp only [rights, hdev, System.setDev_queue]
    refine ⟨hrights ▸ hle, fun j => ?_⟩
    · by_cases hj : j = i
      · subst hj
        simpa [Acknowledged, hmaster, hsack] using hs.acknowledged j
      · simpa [hj] using hs.acknowledged j
  · rw [h]
    have hpost := rights_post s _ h1 hn (outbox_pollFlags_le (s.dev i) hn)
    have hpoll := rights_pollFlags (s.dev i) n i (hs.acknowledged i)
    refine ⟨?_, fun j => ?_⟩
    · rw [System.post_arb]
      omega
    · by_cases hj : j = i
      · subst hj
        simpa using acknowledged_pollFlags (wiring n j) (hs.acknowledged j)
      · simpa [hj] using hs.acknowledged j
  · rw [h]
    have htake := Mailboxes.weight_take carries s.queue hn hreq
    have hpost := rights_post { s with queue := s.queue.take i k } _ h1 hn
      (outbox_processPrEvents_le (s.dev i) req hn)
    have hevent := rights_processPrEvents (n := n) (s.dev i) req h1
    have hrights : rights n { s with queue := s.queue.take i k } + carries i req = rights n s := by
      simp only [rights]
      omega
    refine ⟨?_, fun j => ?_⟩
    · have hdev : ({ s with queue := s.queue.take i k } : System).dev = s.dev := rfl
      rw [System.post_arb]
      rw [hdev] at hpost
      dsimp only
      omega
    · by_cases hj : j = i
      · subst hj
        simpa using acknowledged_processPrEvents (wiring n j) req (hs.acknowledged j)
      · simpa [hj] using hs.acknowledged j
  · rw [h]
    have htake := Mailboxes.weight_take carries s.queue (Nat.zero_le n) hreq
    have hgrant := weight_deliverGrant_le n (s.queue.take 0 k) (listenPriority s.arb req).2
    have harb := rights_listenPriority s.arb req
    refine ⟨?_, hs.acknowledged⟩
    simp only [rights] at hle ⊢
    omega

theorem exclusive_reach (n : ℕ) (as : List Act) : Exclusive n (reach n as) :=
  runActs_invariant exclusive_step as initSystem (exclusive_init n)

/-- Two masters would be two carriers. -/
theorem eq_of_exclusive {n i j : ℕ} {s : System} (hs : Exclusive n s) (hi : 1 ≤ i ∧ i ≤ n)
    (hj : 1 ≤ j ∧ j ≤ n) (hmi : (s.dev i).isMaster = true) (hmj : (s.dev j).isMaster = true) :
    i = j := by
  by_contra hij
  have hpair : ∑ l ∈ {i, j}, masters (s.dev l) ≤ ∑ l ∈ Finset.Icc 1 n, masters (s.dev l) := by
    refine Finset.sum_le_sum_of_subset fun l hl => ?_
    rcases Finset.mem_insert.mp hl with rfl | hl
    · exact Finset.mem_Icc.mpr hi
    · rw [Finset.mem_singleton.mp hl]
      exact Finset.mem_Icc.mpr hj
  rw [Finset.sum_pair hij] at hpair
  have hle := hs.rights_le
  simp only [rights, masters, hmi, hmj, if_true] at hle hpair
  split_ifs at hle <;> omega

/-- **At most one device is bus master**, in every state of every run. -/
theorem atMostOneMaster (n : ℕ) (as : List Act) :
    ((Finset.Icc 1 n).filter fun i => ((reach n as).dev i).isMaster = true).card ≤ 1 := by
  refine Finset.card_le_one.mpr fun i hi j hj => ?_
  obtain ⟨hi, hmi⟩ := Finset.mem_filter.mp hi
  obtain ⟨hj, hmj⟩ := Finset.mem_filter.mp hj
  exact eq_of_exclusive (exclusive_reach n as) (Finset.mem_Icc.mp hi) (Finset.mem_Icc.mp hj) hmi hmj

/-- The invariant is not vacuous: a device does become master. -/
example : ((reach 1 [.setReq 1 true, .poll 1, .arb 0, .event 1 0, .arb 0, .event 1 0]).dev
    1).isMaster = true := by decide

end XMachine.Unibus
