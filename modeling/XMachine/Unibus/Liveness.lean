import XMachine.Unibus.Deliveries
import XMachine.Unibus.Requests

namespace XMachine.Unibus

open XMachine.Lib

/-!
# Liveness — every heeded request is granted

Traffic comes to an end once the main threads stop asking, and what it leaves
behind is a chain at rest (`Served`).  So a device that has asked for the bus
becomes its master, however the arbiter and the devices take turns, if the
arbiter heeds every request it takes and every master gives the bus back.

* `FairRun` — an infinite run of the chain and what is asked of it;
* `AtRest` — nothing in flight, nobody waits, nobody holds the bus;
* `FairRun.exists_atRest` — the run comes to rest and stays there;
* `every_request_granted` — the liveness theorem.
-/

/-- What the threads of the chain do, again and again. -/
def Act.OfChain (n : ℕ) : Act → Prop
  | .poll i => 1 ≤ i ∧ i ≤ n
  | .event i k => 1 ≤ i ∧ i ≤ n ∧ k = 0
  | .arb k => k = 0
  | .setReq _ _ | .setRel _ _ => False

/-- The states of a run from the start. -/
def runAt (n : ℕ) (sched : ℕ → Act) (t : ℕ) : System := trace (step n) sched initSystem t

/-- An infinite run in which every thread of the chain goes on, every queue is
    served in order and every request that is taken is heeded.  The main
    threads take no request back, ask no more from some time on, and give the
    bus back when they have it. -/
structure FairRun (n : ℕ) (sched : ℕ → Act) : Prop where
  recurs : ∀ a, a.OfChain n → Recurs sched a
  fifo : ∀ t, (sched t).Fifo
  heeded : ∀ t, Heeded n (runAt n sched t) (sched t)
  keepsAsking : ∀ t i, sched t ≠ .setReq i false
  stopsAsking : ∃ T, ∀ t, T ≤ t → (sched t).asks = false
  givesBack : ∀ t i, 1 ≤ i → i ≤ n → ((runAt n sched t).dev i).isMaster = true →
    ∃ t', t ≤ t' ∧ sched t' = .poll i ∧ ((runAt n sched t').dev i).relMaster = true

/-- The chain at rest. -/
structure AtRest (n : ℕ) (s : System) : Prop where
  quiet : ∀ i ≤ n, s.queue i = []
  sack : s.arb.sack = NEGATED
  free : ∀ i, 1 ≤ i → i ≤ n → (s.dev i).isMaster = false ∧ (s.dev i).brIssued = false ∧
    (s.dev i).sackAsserted = false ∧ (s.dev i).bbsyAsserted = false ∧
    (s.dev i).reqMaster = false

/-! ### Steps that do nothing -/

section Idle

variable {n i : ℕ} {s : System} {a : Act}

/-- Only a main thread still writes its flags. -/
theorem step_of_idle (h : serves n s a = false) :
    step n a s = s ∨ (∃ i b, a = .setReq i b) ∨ ∃ i b, a = .setRel i b := by
  cases a with
  | setReq i b => exact .inr (.inl ⟨i, b, rfl⟩)
  | setRel i b => exact .inr (.inr ⟨i, b, rfl⟩)
  | poll i =>
    left
    by_cases hi : 1 ≤ i ∧ i ≤ n
    · rw [serves, decide_eq_true hi, Bool.true_and, Bool.or_eq_false_iff] at h
      rw [step, if_pos hi, pollFlags_of_idle h.1 h.2, post_self]
    · rw [step, if_neg hi]
  | event i k =>
    left
    by_cases hi : 1 ≤ i ∧ i ≤ n
    · rw [serves, decide_eq_true hi, Bool.true_and, Option.isSome_eq_false_iff,
        Option.isNone_iff_eq_none] at h
      simp only [step, if_pos hi, h]
    · rw [step, if_neg hi]
  | arb k =>
    left
    rw [serves, Option.isSome_eq_false_iff, Option.isNone_iff_eq_none] at h
    simp only [step, h]

/-- The queues and the flags of the bus are the same. -/
structure SameBus (s s' : System) : Prop where
  queue : s'.queue = s.queue
  lines : ∀ i, SameLines (s'.dev i) (s.dev i)

theorem SameBus.refl (s : System) : SameBus s s :=
  ⟨rfl, fun _ => ⟨rfl, rfl, rfl, rfl, rfl⟩⟩

theorem SameBus.trans {s s' s'' : System} (h : SameBus s s') (h' : SameBus s' s'') :
    SameBus s s'' := by
  refine ⟨h'.queue.trans h.queue, fun i => ?_⟩
  obtain ⟨hnpr, hbr, hsack, hbbsy, hmaster⟩ := h.lines i
  obtain ⟨hnpr', hbr', hsack', hbbsy', hmaster'⟩ := h'.lines i
  exact ⟨hnpr'.trans hnpr, hbr'.trans hbr, hsack'.trans hsack, hbbsy'.trans hbbsy,
    hmaster'.trans hmaster⟩

theorem sameBus_setDev {d : Device} (hd : SameLines d (s.dev i)) : SameBus s (s.setDev i d) := by
  refine ⟨rfl, fun j => ?_⟩
  rw [System.setDev_dev]
  by_cases hj : j = i
  · subst hj
    rwa [Function.update_self]
  · rw [Function.update_of_ne hj]
    exact (SameBus.refl s).lines j

theorem sameBus_of_idle (h : serves n s a = false) : SameBus s (step n a s) := by
  obtain hs | ⟨i, b, rfl⟩ | ⟨i, b, rfl⟩ := step_of_idle h
  · rw [hs]
    exact .refl s
  · exact sameBus_setDev ⟨rfl, rfl, rfl, rfl, rfl⟩
  · exact sameBus_setDev ⟨rfl, rfl, rfl, rfl, rfl⟩

/-- An open request of the main thread stays open. -/
theorem reqMaster_of_idle (h : serves n s a = false) (ha : a ≠ .setReq i false)
    (hreq : (s.dev i).reqMaster = true) : ((step n a s).dev i).reqMaster = true := by
  obtain hs | ⟨j, b, rfl⟩ | ⟨j, b, rfl⟩ := step_of_idle h
  · rw [hs]
    exact hreq
  · by_cases hj : i = j
    · subst hj
      cases b with
      | true => simp [step]
      | false => exact absurd rfl ha
    · simpa [step, hj] using hreq
  · by_cases hj : i = j
    · subst hj
      simpa [step] using hreq
    · simpa [step, hj] using hreq

end Idle

/-! ### Devices that want the bus -/

/-- The device is on its way to the bus, or has it. -/
def Device.wants (d : Device) : Bool := d.reqMaster || d.brIssued || d.sackAsserted

section Wants

variable {n i : ℕ} {s : System} {a : Act}

/-- Its own turn ends this only if it is master. -/
theorem wants_pollFlags {w : Wiring} {d : Device} (h : d.wants = true) :
    (pollFlags w d).1.wants = true ∨ d.isMaster = true := by
  obtain ⟨npr, br, sack, bbsy, master, req, rel⟩ := d
  cases master with
  | true => exact .inr rfl
  | false =>
    left
    cases req <;> cases bbsy <;>
      simp_all [pollFlags, requestMaster, assertBr, Device.wants]

/-- A message ends it only by making the device master. -/
theorem wants_processPrEvents {w : Wiring} {d : Device} (req : PrReq) (h : d.wants = true) :
    (processPrEvents w d req).1.wants = true ∨ (processPrEvents w d req).1.isMaster = true := by
  unfold processPrEvents
  cases req.sig with
  | br | npr | sack => exact .inl h
  | bbsy => exact .inl h
  | bg =>
    unfold handleBg assertBbsy
    split_ifs with hbr hsack hbbsy
    · cases getFdDirection w req true <;> simp_all [Device.wants]
    · exact .inl h
    · exact .inr rfl
    · exact .inl h
  | npg =>
    unfold handleNpg
    split_ifs
    · cases getFdDirection w req true <;> simp_all [Device.wants]
    · exact .inl h

/-- **A device that wants the bus goes on wanting it** until it is master. -/
theorem wants_step (ha : a ≠ .setReq i false) (h : (s.dev i).wants = true) :
    ((step n a s).dev i).wants = true ∨ (s.dev i).isMaster = true ∨
      ((step n a s).dev i).isMaster = true := by
  cases a with
  | setReq j b =>
    left
    by_cases hj : i = j
    · subst hj
      cases b with
      | true => simp [step, Device.wants]
      | false => exact absurd rfl ha
    · simpa [step, hj] using h
  | setRel j b =>
    left
    by_cases hj : i = j
    · subst hj
      simpa [step, Device.wants] using h
    · simpa [step, hj] using h
  | poll j =>
    by_cases hi : 1 ≤ j ∧ j ≤ n
    · rw [step, if_pos hi]
      by_cases hj : i = j
      · subst hj
        rw [System.post_dev, Function.update_self]
        rcases wants_pollFlags (w := wiring n i) h with hw | hm
        · exact .inl hw
        · exact .inr (.inl hm)
      · exact .inl (by simpa [hj] using h)
    · rw [step, if_neg hi]
      exact .inl h
  | event j k =>
    by_cases hi : 1 ≤ j ∧ j ≤ n
    · simp only [step, if_pos hi]
      cases hk : (s.queue j)[k]? with
      | none => exact .inl h
      | some req =>
        dsimp only
        by_cases hj : i = j
        · subst hj
          rw [System.post_dev, Function.update_self]
          rcases wants_processPrEvents (w := wiring n i) req h with hw | hm
          · exact .inl hw
          · exact .inr (.inr hm)
        · exact .inl (by simpa [hj] using h)
    · rw [step, if_neg hi]
      exact .inl h
  | arb k =>
    left
    simp only [step]
    cases (s.queue 0)[k]? <;> exact h

end Wants

/-! ### The run comes to rest -/

/-- With nothing in flight and no master, nobody waits and nobody holds a line. -/
theorem Served.rest {n : ℕ} {v : View} {ph : Phase} (h : Served n v ph) (hleft : v.left = [])
    (hright : v.right = []) (hmaster : ∀ i, (v.dev i).isMaster = false) :
    v.arb.sack = NEGATED ∧ ∀ i, 1 ≤ i → i ≤ n → (v.dev i).brIssued = false ∧
      (v.dev i).sackAsserted = false ∧ (v.dev i).bbsyAsserted = false := by
  have hgrants (b : Bool) : 0 = ph.grants b := by
    rw [← h.grants b, hright]
    rfl
  have hacks (b : Bool) : 0 = ph.acks b := by
    rw [← h.acks b, hleft]
    rfl
  obtain rfl : ph = .idle := by
    cases ph with
    | idle => rfl
    | granted => exact absurd (hgrants true) (by simp [Phase.grants])
    | acked i => exact absurd (hacks true) (by simp [Phase.acks])
    | negated i => exact absurd (hgrants false) (by simp [Phase.grants])
    | owned i => exact absurd ((h.master i).mpr rfl) (by simp [hmaster i])
    | released => exact absurd (hacks false) (by simp [Phase.acks])
  refine ⟨h.sack, fun i h1 hn => ⟨?_, ?_, ?_⟩⟩
  · rw [← Bool.not_eq_true]
    intro hbr
    have hwait : 0 < waiting n v.dev := waiting_pos h1 hn hbr
    rcases h.asked with hasked | ⟨-, g, -, hg, -⟩
    · simp only [hleft, requests, Lane.word, List.map_nil, List.count_nil] at hasked
      omega
    · simp only [hright, List.not_mem_nil] at hg
  · rw [← Bool.not_eq_true]
    intro hheld
    exact absurd ((h.holder i).mp hheld) (by simp [Phase.holder])
  · -- a device that sees BBSY would have its negation before it
    rw [← Bool.not_eq_true]
    intro hbbsy
    obtain ⟨st, hst⟩ := h.handover
    have hfree : ∀ k, st ≠ .owned k := fun k hk => by
      have := (hst.master k).mpr hk
      rw [hmaster k] at this
      cases this
    obtain ⟨p, -, hp⟩ | ⟨p, -, hp⟩ := hst.stale hfree i h1 hn hbbsy
    · simp [hright] at hp
    · simp [hleft] at hp

/-- From `T` on nothing is done. -/
def IdleFrom (n : ℕ) (sched : ℕ → Act) (T : ℕ) : Prop :=
  ∀ t, T ≤ t → serves n (runAt n sched t) (sched t) = false

section Runs

variable {n T : ℕ} {sched : ℕ → Act}

/-- The invariant of heeded runs holds all along. -/
theorem FairRun.served (h : FairRun n sched) (t : ℕ) :
    ∃ ph, Served n ((runAt n sched t).view n) ph := by
  induction t with
  | zero => exact ⟨.idle, served_init n⟩
  | succ t ih => exact served_step ih ⟨h.fifo t, h.heeded t⟩

theorem FairRun.exists_idle (h : FairRun n sched) : ∃ T, IdleFrom n sched T := by
  obtain ⟨T, hT⟩ := h.stopsAsking
  have hgain : ∀ t, T ≤ t → (sched t).gain n = 0 := fun t ht => by
    rw [Act.gain, hT t ht, if_neg Bool.false_ne_true]
  obtain ⟨T', -, hidle⟩ := (trafficPotential n).exists_idle hgain
  exact ⟨T', hidle⟩

theorem IdleFrom.mono (h : IdleFrom n sched T) {T' : ℕ} (hT : T ≤ T') : IdleFrom n sched T' :=
  fun t ht => h t (le_trans hT ht)

theorem IdleFrom.sameBus (h : IdleFrom n sched T) {t : ℕ} (ht : T ≤ t) :
    SameBus (runAt n sched T) (runAt n sched t) := by
  induction t, ht using Nat.le_induction with
  | base => exact .refl _
  | succ t ht ih => exact ih.trans (sameBus_of_idle (h t ht))

theorem IdleFrom.reqMaster (h : IdleFrom n sched T) {i : ℕ} (hkeep : ∀ t, sched t ≠ .setReq i false)
    (hreq : ((runAt n sched T).dev i).reqMaster = true) {t : ℕ} (ht : T ≤ t) :
    ((runAt n sched t).dev i).reqMaster = true := by
  induction t, ht using Nat.le_induction with
  | base => exact hreq
  | succ t ht ih => exact reqMaster_of_idle (h t ht) (hkeep t) ih

/-- Nothing is left in a queue, whose node would take it. -/
theorem FairRun.quiet (h : FairRun n sched) (hidle : IdleFrom n sched T) {i : ℕ} (hi : i ≤ n) :
    (runAt n sched T).queue i = [] := by
  have hnone : ∀ t, T ≤ t → ((runAt n sched t).queue i)[0]? = none →
      (runAt n sched T).queue i = [] := by
    intro t ht hq
    rw [(hidle.sameBus ht).queue] at hq
    exact List.eq_nil_of_length_eq_zero (by simpa using hq)
  by_cases h0 : i = 0
  · subst h0
    obtain ⟨t, ht, hact⟩ := h.recurs (.arb 0) rfl T
    have hserves := hidle t ht
    rw [hact, serves, Option.isSome_eq_false_iff, Option.isNone_iff_eq_none] at hserves
    exact hnone t ht hserves
  · obtain ⟨t, ht, hact⟩ := h.recurs (.event i 0) ⟨Nat.one_le_iff_ne_zero.mpr h0, hi, rfl⟩ T
    have hserves := hidle t ht
    rw [hact, serves, decide_eq_true ⟨Nat.one_le_iff_ne_zero.mpr h0, hi⟩, Bool.true_and,
      Option.isSome_eq_false_iff, Option.isNone_iff_eq_none] at hserves
    exact hnone t ht hserves

/-- A master would have given the bus back. -/
theorem FairRun.no_master (h : FairRun n sched) (hidle : IdleFrom n sched T) (i : ℕ) :
    ((runAt n sched T).dev i).isMaster = false := by
  rw [← Bool.not_eq_true]
  intro hm
  obtain ⟨ph, hph⟩ := h.served T
  obtain ⟨h1, hn⟩ := hph.inChain i (by rw [(hph.master i).mp hm]; rfl)
  obtain ⟨t, ht, hact, hrel⟩ := h.givesBack T i h1 hn hm
  have hsack := (hph.holder i).mpr (by rw [(hph.master i).mp hm]; rfl)
  have hlines := (hidle.sameBus ht).lines i
  have hserves := hidle t ht
  rw [hact, serves, decide_eq_true ⟨h1, hn⟩, Bool.true_and, Bool.or_eq_false_iff] at hserves
  have hreleases : ((runAt n sched t).dev i).releases = true := by
    rw [Device.releases, hrel, hlines.master.trans hm, hlines.sack.trans hsack]
    rfl
  rw [hserves.2] at hreleases
  cases hreleases

/-- **The run comes to rest**, from the moment on at which nothing is done any more. -/
theorem FairRun.atRest (h : FairRun n sched) (hidle : IdleFrom n sched T) :
    AtRest n (runAt n sched T) := by
  obtain ⟨ph, hph⟩ := h.served T
  have hquiet : ∀ i ≤ n, (runAt n sched T).queue i = [] := fun i hi => h.quiet hidle hi
  obtain ⟨hleft, hright⟩ := lanes_of_quiet hquiet
  have hmaster := h.no_master hidle
  obtain ⟨hsack, hrest⟩ := hph.rest hleft hright hmaster
  refine ⟨hquiet, hsack, fun i h1 hn => ?_⟩
  obtain ⟨hbr, hheld, hbbsy⟩ := hrest i h1 hn
  refine ⟨hmaster i, hbr, hheld, hbbsy, ?_⟩
  -- an open request would be sent at the next turn
  rw [← Bool.not_eq_true]
  intro hreq
  obtain ⟨t, ht, hact⟩ := h.recurs (.poll i) ⟨h1, hn⟩ T
  have hlines := (hidle.sameBus ht).lines i
  have hserves := hidle t ht
  rw [hact, serves, decide_eq_true ⟨h1, hn⟩, Bool.true_and, Bool.or_eq_false_iff] at hserves
  have hrequests : ((runAt n sched t).dev i).requests = true := by
    rw [Device.requests, hidle.reqMaster (fun t => h.keepsAsking t i) hreq ht,
      hlines.master.trans (hmaster i), hlines.bbsy.trans hbbsy]
    rfl
  rw [hserves.1] at hrequests
  cases hrequests

/-- **Every heeded request is granted.**  In a fair run the chain comes to rest
    for good, and a device that wants the bus at any time is master then or later. -/
theorem every_request_granted (h : FairRun n sched) :
    (∃ T, ∀ t, T ≤ t → AtRest n (runAt n sched t)) ∧
      ∀ t i, 1 ≤ i → i ≤ n → ((runAt n sched t).dev i).wants = true →
        ∃ t', t ≤ t' ∧ ((runAt n sched t').dev i).isMaster = true := by
  obtain ⟨T, hidle⟩ := h.exists_idle
  have hrest : ∀ t, T ≤ t → AtRest n (runAt n sched t) := fun t ht =>
    h.atRest (hidle.mono ht)
  refine ⟨⟨T, hrest⟩, fun t i h1 hn hwants => ?_⟩
  by_contra hnever
  have hnot : ∀ u, t ≤ u → ¬ ((runAt n sched u).dev i).isMaster = true := fun u hu hm =>
    hnever ⟨u, hu, hm⟩
  -- until it is master it goes on wanting the bus, even when the chain is at rest
  have hlater : ∀ u, t ≤ u → ((runAt n sched u).dev i).wants = true := by
    intro u hu
    induction u, hu using Nat.le_induction with
    | base => exact hwants
    | succ u hu ih =>
      rcases wants_step (n := n) (h.keepsAsking u i) ih with hw | hm | hm
      · exact hw
      · exact absurd hm (hnot u hu)
      · exact absurd hm (hnot (u + 1) (by omega))
  have hw := hlater (max t T) (le_max_left t T)
  obtain ⟨-, hbr, hsack, -, hreq⟩ := (hrest (max t T) (le_max_right t T)).free i h1 hn
  rw [Device.wants, hbr, hsack, hreq] at hw
  cases hw

/-- Device 1 asks once and is told to give back again and again. -/
def askOnce : ℕ → Act
  | 0 => .setReq 1 true
  | t + 1 =>
    match t % 4 with
    | 0 => .poll 1
    | 1 => .arb 0
    | 2 => .event 1 0
    | _ => .setRel 1 true

theorem askOnce_recurs {a : Act} (ha : a.OfChain 1) : Recurs askOnce a := by
  intro t
  cases a with
  | setReq i b | setRel i b => exact ha.elim
  | poll i =>
    obtain rfl : i = 1 := le_antisymm ha.2 ha.1
    exact ⟨4 * t + 1, by omega, by simp [askOnce]⟩
  | event i k =>
    obtain ⟨h1, hn, rfl⟩ := ha
    obtain rfl : i = 1 := le_antisymm hn h1
    exact ⟨4 * t + 3, by omega, by simp [askOnce]⟩
  | arb k =>
    obtain rfl : k = 0 := ha
    exact ⟨4 * t + 2, by omega, by simp [askOnce]⟩

theorem askOnce_cases (t : ℕ) :
    askOnce (t + 1) = .poll 1 ∨ askOnce (t + 1) = .arb 0 ∨ askOnce (t + 1) = .event 1 0 ∨
      askOnce (t + 1) = .setRel 1 true := by
  rw [askOnce]
  split <;> simp

/-- After one request nothing is left but the flag that tells device 1 to give back. -/
structure AskedOnce (s : System) : Prop where
  arbiter : s.queue 0 = []
  device : s.queue 1 = []
  flags : s.dev 1 = { initDevice with relMaster := true }

theorem askedOnce_runAt (d : ℕ) : AskedOnce (runAt 1 askOnce (21 + d)) := by
  induction d with
  | zero => exact ⟨by decide, by decide, by decide⟩
  | succ d ih =>
    rw [show runAt 1 askOnce (21 + (d + 1)) =
      step 1 (askOnce (20 + d + 1)) (runAt 1 askOnce (21 + d)) by
        rw [show 20 + d + 1 = 21 + d by omega]; rfl]
    generalize runAt 1 askOnce (21 + d) = s at ih ⊢
    obtain ⟨h0, h1, hd⟩ := ih
    obtain ha | ha | ha | ha := askOnce_cases (20 + d)
    · have hself := post_self s 1
      rw [hd] at hself
      rw [ha, step, if_pos ⟨le_refl 1, le_refl 1⟩, hd]
      exact hself.symm ▸ ⟨h0, h1, hd⟩
    · simpa [ha, step, h0] using ⟨h0, h1, hd⟩
    · simpa [ha, step, h1] using ⟨h0, h1, hd⟩
    · rw [ha]
      exact ⟨h0, h1, by simp [step, hd]⟩

theorem fairRun_askOnce : FairRun 1 askOnce where
  recurs _ ha := askOnce_recurs ha
  fifo t := by
    cases t with
    | zero => exact trivial
    | succ t => obtain ha | ha | ha | ha := askOnce_cases t <;> simp [ha, Act.Fifo]
  heeded t := by
    by_cases ht : t < 21
    · have hfirst : ∀ t < 21, Heeded 1 (runAt 1 askOnce t) (askOnce t) := by decide
      exact hfirst t ht
    · obtain ⟨d, rfl⟩ := Nat.exists_eq_add_of_le (Nat.not_lt.mp ht)
      intro _ m hm
      rw [(askedOnce_runAt d).arbiter] at hm
      cases hm
  keepsAsking t i := by
    cases t with
    | zero => simp [askOnce]
    | succ t => obtain ha | ha | ha | ha := askOnce_cases t <;> simp [ha]
  stopsAsking := by
    refine ⟨1, fun t ht => ?_⟩
    obtain ⟨d, rfl⟩ := Nat.exists_eq_add_of_le' ht
    obtain ha | ha | ha | ha := askOnce_cases d <;> simp [ha, Act.asks]
  givesBack t i h1 hn hm := by
    obtain rfl : i = 1 := le_antisymm hn h1
    -- master it is until its turn at 13
    have hfirst : ∀ t < 21, ((runAt 1 askOnce t).dev 1).isMaster = true → t ≤ 13 := by decide
    have ht : t ≤ 13 := by
      by_cases ht : t < 21
      · exact hfirst t ht hm
      · obtain ⟨d, rfl⟩ := Nat.exists_eq_add_of_le (Nat.not_lt.mp ht)
        rw [(askedOnce_runAt d).flags] at hm
        cases hm
    exact ⟨13, ht, rfl, by decide⟩

/-- Its request is granted. -/
theorem every_request_granted_once :
    ∃ t, 2 ≤ t ∧ ((runAt 1 askOnce t).dev 1).isMaster = true :=
  (every_request_granted fairRun_askOnce).2 2 1 (le_refl 1) (le_refl 1) (by decide)

end Runs

end XMachine.Unibus
