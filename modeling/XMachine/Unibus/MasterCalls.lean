import XMachine.Unibus.OneByOne

namespace XMachine.Unibus.MasterCalls

open XMachine.Lib

/-!
# Master calls — `req_bus_master` and `release_bus_master`

The two calls by which the main thread of a device takes the bus and gives it
back, run against the bus threads of the chain.  Each writes a flag and then
waits for a signal of its bus thread, without looking at the state again: a
signal given before the wait begins is lost.

* `Fits` — how far a main thread and the flags of its device agree;
* `critical_section` — at most one main thread is between the two calls, and its
  device is the master;
* `request_returns_iff`, `release_returns_iff` — a call that does not wait yet when
  its signal is given never returns; the request then keeps the bus from everybody
  else.

A wait ends by its signal only.
-/

/-! ### The model -/

/-- Where the main thread of a device is. -/
inductive Main
  | outside
  /-- In `req_bus_master`, the flag written. -/
  | asked
  /-- In `pthread_cond_wait` on `cond_pr_master`. -/
  | waiting
  /-- `req_bus_master` has returned. -/
  | inside
  /-- In `release_bus_master`, the flag written. -/
  | releasing
  /-- In `pthread_cond_wait` on `cond_pr_rel_master`. -/
  | leaving
  deriving DecidableEq, Repr

/-- The chain and the main threads of its devices. -/
structure Threads where
  sys : System
  main : ℕ → Main

def initThreads : Threads := ⟨initSystem, fun _ => .outside⟩

/-- Who acts next. -/
inductive Turn
  | main (i : ℕ)
  | poll (i : ℕ)
  | event (i : ℕ)
  | arb
  deriving DecidableEq, Repr

/-- The critical section of `req_bus_master`. -/
def reqBusMaster (n i : ℕ) (s : System) : System :=
  if (s.dev i).isMaster then s else step n (.setReq i true) s

/-- The critical section of `release_bus_master`. -/
def releaseBusMaster (n i : ℕ) (s : System) : System :=
  if (s.dev i).isMaster then step n (.setRel i true) s else s

/-- `handle_bg` takes the branch that ends with a signal on `cond_pr_master`. -/
def signalsMaster (d : Device) (req : PrReq) : Bool :=
  req.sig = .bg && !(d.brIssued && req.assertion) && (d.sackAsserted && !req.assertion)

/-- The turn calls `release_master`, which ends with a signal on `cond_pr_rel_master`. -/
def signalsRelease (d : Device) : Bool :=
  !(d.reqMaster && !d.isMaster) && (d.relMaster && d.isMaster)

/-- A signal wakes a thread that waits for it, and no other. -/
def wake (p wait next : Main) (signal : Bool) : Main := if signal && p = wait then next else p

/-- One step of the main thread. -/
def mainStep (n i : ℕ) (t : Threads) : Threads :=
  match t.main i with
  | .outside => ⟨reqBusMaster n i t.sys, Function.update t.main i .asked⟩
  | .asked => ⟨t.sys, Function.update t.main i .waiting⟩
  | .inside => ⟨releaseBusMaster n i t.sys, Function.update t.main i .releasing⟩
  | .releasing => ⟨t.sys, Function.update t.main i .leaving⟩
  | .waiting | .leaving => t

def turn (n : ℕ) (a : Turn) (t : Threads) : Threads :=
  match a with
  | .main i => mainStep n i t
  | .poll i =>
    if 1 ≤ i ∧ i ≤ n then
      ⟨step n (.poll i) t.sys, Function.update t.main i
        (wake (t.main i) .leaving .outside (signalsRelease (t.sys.dev i)))⟩
    else t
  | .event i =>
    if 1 ≤ i ∧ i ≤ n then
      match t.sys.queue i with
      | [] => t
      | req :: _ =>
        ⟨step n (.event i 0) t.sys, Function.update t.main i
          (wake (t.main i) .waiting .inside (signalsMaster (t.sys.dev i) req))⟩
    else t
  | .arb => ⟨step n (.arb 0) t.sys, t.main⟩

/-- The states reached by the turns `as`. -/
def run (n : ℕ) (as : List Turn) : Threads := runActs (turn n) as initThreads

/-! ### One device -/

/-- The five flags that tell how far a device has come. -/
structure Is (d : Device) (req br sack master rel : Bool) : Prop where
  req : d.reqMaster = req
  br : d.brIssued = br
  sack : d.sackAsserted = sack
  master : d.isMaster = master
  rel : d.relMaster = rel

/-- On the way to the bus, or there. -/
def Acquiring (d : Device) : Prop :=
  Is d true false false false false ∨ Is d false true false false false ∨
    Is d false false true false false ∨ Is d false false true true false

/-- The flags of a device, by where its main thread is. -/
def Fits (p : Main) (d : Device) : Prop :=
  match p with
  | .outside => Is d false false false false false
  | .asked | .waiting => Acquiring d
  | .inside => Is d false false true true false
  | .releasing | .leaving => Is d false false true true true ∨ Is d false false false false false

section OneDevice

variable {p : Main} {d : Device} {w : Wiring}

/-- A turn leaves a device alone that neither asks nor gives back. -/
theorem pollFlags_self (hreq : d.reqMaster = false)
    (hrel : d.relMaster = false ∨ d.isMaster = false) :
    pollFlags w d = (d, []) ∧ signalsRelease d = false := by
  constructor
  · apply pollFlags_of_idle
    · rw [Device.requests, hreq]
      rfl
    · rcases hrel with h | h <;> simp [Device.releases, h]
  · rcases hrel with h | h <;> simp [signalsRelease, h]

/-- A request is sent, or waits for the bus to be free. -/
theorem acquiring_pollFlags (h : Acquiring d) :
    Acquiring (pollFlags w d).1 ∧ signalsRelease d = false := by
  rcases h with h | h | h | h
  · refine ⟨?_, by simp [signalsRelease, h.rel]⟩
    by_cases hbbsy : d.bbsyAsserted = true
    · rw [pollFlags_of_idle (by simp [Device.requests, hbbsy]) (by simp [Device.releases, h.rel])]
      exact .inl h
    · right
      left
      rw [Bool.not_eq_true] at hbbsy
      simp only [pollFlags, h.req, h.master, requestMaster, hbbsy, assertBr, Bool.false_and,
        Bool.not_false, Bool.and_self, Bool.false_eq_true, if_true, if_false]
      exact ⟨rfl, rfl, h.sack, rfl, h.rel⟩
  all_goals
    obtain ⟨hself, hsig⟩ := pollFlags_self (w := w) h.req (.inl h.rel)
    rw [hself]
    exact ⟨by simp only [Acquiring, h, true_or, or_true], hsig⟩

/-- A turn of the bus thread. -/
theorem fits_pollFlags (h : Fits p d) (hbbsy : d.isMaster = true → d.bbsyAsserted = true) :
    Fits (wake p .leaving .outside (signalsRelease d)) (pollFlags w d).1 := by
  have hback (h : Is d false false true true true) : signalsRelease d = true ∧
      Is (pollFlags w d).1 false false false false false := by
    refine ⟨by simp [signalsRelease, h.req, h.master, h.rel], ?_⟩
    simp only [pollFlags, h.req, h.master, h.rel, releaseMaster, negateSack, h.sack, negateBbsy,
      hbbsy h.master, Bool.not_true, Bool.and_self, Bool.false_eq_true, if_true,
      if_false]
    exact ⟨rfl, h.br, rfl, rfl, rfl⟩
  cases p with
  | outside =>
    obtain ⟨hself, hsig⟩ := pollFlags_self (w := w) h.req (.inl h.rel)
    rw [hself, hsig]
    exact h
  | asked | waiting =>
    obtain ⟨hnext, hsig⟩ := acquiring_pollFlags (w := w) h
    rw [hsig]
    exact hnext
  | inside =>
    obtain ⟨hself, hsig⟩ := pollFlags_self (w := w) h.req (.inl h.rel)
    rw [hself, hsig]
    exact h
  | releasing =>
    rcases h with h | h
    · obtain ⟨hsig, hnext⟩ := hback h
      rw [hsig]
      exact .inr hnext
    · obtain ⟨hself, hsig⟩ := pollFlags_self (w := w) h.req (.inl h.rel)
      rw [hself, hsig]
      exact .inr h
  | leaving =>
    rcases h with h | h
    · obtain ⟨hsig, hnext⟩ := hback h
      rw [hsig]
      exact hnext
    · obtain ⟨hself, hsig⟩ := pollFlags_self (w := w) h.req (.inl h.rel)
      rw [hself, hsig]
      exact .inr h

/-- A message changes none of the five flags where it is passed on. -/
theorem processPrEvents_is {rq br sack master rel : Bool} (req : PrReq)
    (h : Is d rq br sack master rel) (hnpr : d.nprIssued = false)
    (hbr : req.sig = .bg → (d.brIssued && req.assertion) = false)
    (hsig : signalsMaster d req = false) :
    Is (processPrEvents w d req).1 rq br sack master rel := by
  unfold processPrEvents
  cases hs : req.sig with
  | br | npr | sack => exact h
  | bbsy => exact ⟨h.req, h.br, h.sack, h.master, h.rel⟩
  | npg =>
    dsimp only
    rw [handleNpg, hnpr, if_neg Bool.false_ne_true]
    exact h
  | bg =>
    have hown : (d.sackAsserted && !req.assertion) = false := by
      simpa [signalsMaster, hs, hbr hs] using hsig
    dsimp only
    rw [handleBg, hbr hs, hown, if_neg Bool.false_ne_true, if_neg Bool.false_ne_true]
    exact h

/-- The negated grant that it waits for makes a device master. -/
theorem processPrEvents_own {req : PrReq} (h : Acquiring d) (hsig : signalsMaster d req = true)
    (hbbsy : d.bbsyAsserted = false) :
    Is (processPrEvents w d req).1 false false true true false := by
  rw [signalsMaster, Bool.and_eq_true, Bool.and_eq_true, decide_eq_true_eq,
    Bool.not_eq_true'] at hsig
  obtain ⟨⟨hbg, hbr⟩, hown⟩ := hsig
  have hsack : d.sackAsserted = true := (Bool.and_eq_true_iff.mp hown).1
  have hd : (processPrEvents w d req).1 =
      { d with bbsyAsserted := true, isMaster := true, reqMaster := false } := by
    simp only [processPrEvents, hbg, handleBg, hbr, hown, assertBbsy, hbbsy, Bool.false_eq_true,
      if_true, if_false]
  rw [hd]
  rcases h with h | h | h | h
  · exact absurd hsack (by simp [h.sack])
  · exact absurd hsack (by simp [h.sack])
  · exact ⟨rfl, h.br, h.sack, rfl, h.rel⟩
  · exact ⟨rfl, h.br, h.sack, rfl, h.rel⟩

/-- A device on its way to the bus stays on it. -/
theorem acquiring_processPrEvents {req : PrReq} (h : Acquiring d) (hnpr : d.nprIssued = false)
    (hsig : signalsMaster d req = false) : Acquiring (processPrEvents w d req).1 := by
  by_cases hack : req.sig = .bg ∧ (d.brIssued && req.assertion) = true
  · obtain ⟨hbg, hbr⟩ := hack
    have hissued : d.brIssued = true := (Bool.and_eq_true_iff.mp hbr).1
    have hasked : Is d false true false false false := by
      rcases h with h | h | h | h
      · exact absurd hissued (by simp [h.br])
      · exact h
      · exact absurd hissued (by simp [h.br])
      · exact absurd hissued (by simp [h.br])
    simp only [processPrEvents, hbg, handleBg, hbr, if_true]
    cases getFdDirection w req true with
    | none => exact .inr (.inl hasked)
    | left | right =>
      exact .inr (.inr (.inl ⟨hasked.req, rfl, rfl, hasked.master, hasked.rel⟩))
  · have hbr : req.sig = .bg → (d.brIssued && req.assertion) = false := fun hbg =>
      Bool.not_eq_true _ ▸ fun hbr => hack ⟨hbg, hbr⟩
    rcases h with h | h | h | h
    · exact .inl (processPrEvents_is req h hnpr hbr hsig)
    · exact .inr (.inl (processPrEvents_is req h hnpr hbr hsig))
    · exact .inr (.inr (.inl (processPrEvents_is req h hnpr hbr hsig)))
    · exact .inr (.inr (.inr (processPrEvents_is req h hnpr hbr hsig)))

/-- A message handled by the bus thread. -/
theorem fits_processPrEvents {req : PrReq} (h : Fits p d) (hnpr : d.nprIssued = false)
    (hfree : signalsMaster d req = true → d.bbsyAsserted = false ∧ d.isMaster = false) :
    Fits (wake p .waiting .inside (signalsMaster d req)) (processPrEvents w d req).1 := by
  -- where no request is out no grant is acknowledged
  have hpass {rq sack master rel : Bool} (h : Is d rq false sack master rel)
      (hsig : signalsMaster d req = false) :
      Is (processPrEvents w d req).1 rq false sack master rel :=
    processPrEvents_is req h hnpr (fun _ => by rw [h.br]; rfl) hsig
  have hmaster (hm : d.isMaster = true) : signalsMaster d req = false := by
    rw [← Bool.not_eq_true]
    intro hsig
    rw [(hfree hsig).2] at hm
    cases hm
  have hquiet (hs : d.sackAsserted = false) : signalsMaster d req = false := by
    simp [signalsMaster, hs]
  cases p with
  | outside =>
    rw [hquiet h.sack]
    exact hpass h (hquiet h.sack)
  | asked =>
    cases hsig : signalsMaster d req with
    | true => exact .inr (.inr (.inr (processPrEvents_own h hsig (hfree hsig).1)))
    | false => exact acquiring_processPrEvents h hnpr hsig
  | waiting =>
    cases hsig : signalsMaster d req with
    | true => exact processPrEvents_own h hsig (hfree hsig).1
    | false => exact acquiring_processPrEvents h hnpr hsig
  | inside =>
    rw [hmaster h.master]
    exact hpass h (hmaster h.master)
  | releasing | leaving =>
    rcases h with h | h
    · rw [hmaster h.master]
      exact .inl (hpass h (hmaster h.master))
    · rw [hquiet h.sack]
      exact .inr (hpass h (hquiet h.sack))

end OneDevice

/-! ### All devices -/

/-- The invariant. -/
structure Consistent (n : ℕ) (t : Threads) : Prop where
  handover : ∃ st, Handover n (t.sys.view n) st
  npr : ∀ i, (t.sys.dev i).nprIssued = false
  fits : ∀ i, Fits (t.main i) (t.sys.dev i)

theorem consistent_init (n : ℕ) : Consistent n initThreads :=
  ⟨⟨.free, handover_init n⟩, fun _ => rfl, fun _ => ⟨rfl, rfl, rfl, rfl, rfl⟩⟩

section Turns

variable {n i : ℕ} {t : Threads}

/-- A master holds BBSY. -/
theorem Consistent.bbsy (h : Consistent n t) (hm : (t.sys.dev i).isMaster = true) :
    (t.sys.dev i).bbsyAsserted = true := by
  obtain ⟨st, hst⟩ := h.handover
  exact (hst.regular.master i hm).2

/-- The device that is told it owns the bus sees BBSY negated, and is not master yet. -/
theorem Consistent.free (h : Consistent n t) (h1 : 1 ≤ i) (hn : i ≤ n) {req : PrReq}
    {rest : List PrReq} (hq : t.sys.queue i = req :: rest)
    (hsig : signalsMaster (t.sys.dev i) req = true) :
    (t.sys.dev i).bbsyAsserted = false ∧ (t.sys.dev i).isMaster = false := by
  obtain ⟨st, hst⟩ := h.handover
  rw [signalsMaster, Bool.and_eq_true, Bool.and_eq_true, decide_eq_true_eq,
    Bool.and_eq_true, Bool.not_eq_true'] at hsig
  obtain ⟨⟨hbg, -⟩, -, hneg⟩ := hsig
  have hline : req.line = .bgOff := by
    rw [PrReq.line, hbg, show req.assertion = false by simpa using hneg]
  -- only the arbiter sends grants, so this one moves to the right
  have hright : ¬ Leftward i req := by
    intro hleft
    have hmem : (i, req.line) ∈ leftLane n t.sys.queue := by
      refine Mailboxes.mem_stream.mpr ⟨List.mem_range.mpr (Nat.lt_succ_of_le hn), ?_⟩
      simp [leftAt, hq, hleft]
    have hkind := hst.shape.sig (List.mem_map.mpr ⟨_, hmem, rfl⟩)
    rw [hline] at hkind
    rcases hkind with hkind | hkind | hkind <;> cases hkind
  have htake := (lanes_take t.sys.queue hq hright h1 hn).1
  rw [hline] at htake
  have hbbsy := hst.not_bbsy_of_grant h1 hn htake
  refine ⟨hbbsy, ?_⟩
  rw [← Bool.not_eq_true]
  intro hm
  have hseen := h.bbsy hm
  rw [show (t.sys.dev i).bbsyAsserted = false from hbbsy] at hseen
  cases hseen

theorem dev_poll_of_ne {j : ℕ} (hj : j ≠ i) (s : System) :
    (step n (.poll i) s).dev j = s.dev j := by
  rw [step]
  split
  · simp [hj]
  · rfl

theorem dev_poll (h1 : 1 ≤ i) (hn : i ≤ n) (s : System) :
    (step n (.poll i) s).dev i = (pollFlags (wiring n i) (s.dev i)).1 := by
  rw [step, if_pos ⟨h1, hn⟩]
  simp

theorem dev_event_of_ne {j : ℕ} (hj : j ≠ i) (s : System) :
    (step n (.event i 0) s).dev j = s.dev j := by
  rw [step]
  split
  · cases (s.queue i)[0]? with
    | none => rfl
    | some req => simp [hj]
  · rfl

theorem dev_event (h1 : 1 ≤ i) (hn : i ≤ n) {s : System} {req : PrReq} {rest : List PrReq}
    (hq : s.queue i = req :: rest) :
    (step n (.event i 0) s).dev i = (processPrEvents (wiring n i) (s.dev i) req).1 := by
  rw [step, if_pos ⟨h1, hn⟩]
  simp [hq]

theorem dev_arb (s : System) : (step n (.arb 0) s).dev = s.dev := by
  rw [step]
  cases (s.queue 0)[0]? <;> rfl

/-- Device `i` and its main thread took a step, the others did not. -/
theorem Consistent.update (h : Consistent n t) {s : System} {p : Main}
    (hsys : s = t.sys ∨ ∃ a : Act, a.Fifo ∧ s = step n a t.sys)
    (hdev : ∀ j, j ≠ i → s.dev j = t.sys.dev j) (hfits : Fits p (s.dev i)) :
    Consistent n ⟨s, Function.update t.main i p⟩ := by
  have hfits (j : ℕ) : Fits (Function.update t.main i p j) (s.dev j) := by
    by_cases hj : j = i
    · subst hj
      rwa [Function.update_self]
    · rw [Function.update_of_ne hj, hdev j hj]
      exact h.fits j
  rcases hsys with rfl | ⟨a, ha, rfl⟩
  · exact ⟨h.handover, h.npr, hfits⟩
  · exact ⟨handover_step ha h.handover, nprIssued_step h.npr, hfits⟩

theorem consistent_main (h : Consistent n t) (i : ℕ) : Consistent n (mainStep n i t) := by
  have hfits := h.fits i
  unfold mainStep
  cases hp : t.main i with
  | outside =>
    rw [hp] at hfits
    rw [reqBusMaster, hfits.master, if_neg Bool.false_ne_true]
    refine h.update (.inr ⟨.setReq i true, trivial, rfl⟩) (fun j hj => ?_) (.inl ?_)
    · simp [step, hj]
    · simpa [step] using ⟨rfl, hfits.br, hfits.sack, hfits.master, hfits.rel⟩
  | asked =>
    rw [hp] at hfits
    exact h.update (.inl rfl) (fun _ _ => rfl) hfits
  | inside =>
    rw [hp] at hfits
    rw [releaseBusMaster, hfits.master, if_pos rfl]
    refine h.update (.inr ⟨.setRel i true, trivial, rfl⟩) (fun j hj => ?_) (.inl ?_)
    · simp [step, hj]
    · simpa [step] using ⟨hfits.req, hfits.br, hfits.sack, hfits.master, rfl⟩
  | releasing =>
    rw [hp] at hfits
    exact h.update (.inl rfl) (fun _ _ => rfl) hfits
  | waiting | leaving => exact h

theorem consistent_turn (h : Consistent n t) (a : Turn) : Consistent n (turn n a t) := by
  cases a with
  | main i => exact consistent_main h i
  | poll i =>
    by_cases hi : 1 ≤ i ∧ i ≤ n
    · simp only [turn, if_pos hi]
      refine h.update (.inr ⟨.poll i, trivial, rfl⟩) (fun j hj => dev_poll_of_ne hj t.sys) ?_
      rw [dev_poll hi.1 hi.2]
      exact fits_pollFlags (h.fits i) h.bbsy
    · rw [turn, if_neg hi]
      exact h
  | event i =>
    by_cases hi : 1 ≤ i ∧ i ≤ n
    · simp only [turn, if_pos hi]
      cases hq : t.sys.queue i with
      | nil => exact h
      | cons req rest =>
        refine h.update (.inr ⟨.event i 0, rfl, rfl⟩) (fun j hj => dev_event_of_ne hj t.sys) ?_
        rw [dev_event hi.1 hi.2 hq]
        exact fits_processPrEvents (h.fits i) (h.npr i) (h.free hi.1 hi.2 hq)
    · rw [turn, if_neg hi]
      exact h
  | arb =>
    refine ⟨handover_step rfl h.handover, nprIssued_step h.npr, fun i => ?_⟩
    rw [turn, dev_arb]
    exact h.fits i

theorem consistent_runActs (h : Consistent n t) (as : List Turn) :
    Consistent n (runActs (turn n) as t) := by
  have hstep : ∀ t a, Consistent n t → Consistent n (turn n a t) := fun _ a h =>
    consistent_turn h a
  exact runActs_invariant hstep as t h

theorem consistent_run (as : List Turn) : Consistent n (run n as) :=
  consistent_runActs (consistent_init n) as

/-- There is one master at most. -/
theorem Consistent.unique (h : Consistent n t) {j : ℕ} (hi : (t.sys.dev i).isMaster = true)
    (hj : (t.sys.dev j).isMaster = true) : i = j := by
  obtain ⟨st, hst⟩ := h.handover
  have hown := (hst.master i).mp hi
  rw [(hst.master j).mp hj] at hown
  exact (Stage.owned.inj hown).symm

end Turns

/-- **The two calls enclose a critical section.**  Whatever order the threads
    take their turns in, a main thread whose `req_bus_master` has returned and
    that has not yet called `release_bus_master` is the only one, and its device
    is the only master. -/
theorem critical_section (n : ℕ) (as : List Turn) (i : ℕ) (hi : (run n as).main i = .inside) :
    ((run n as).sys.dev i).isMaster = true ∧
      ∀ j, j ≠ i → ((run n as).sys.dev j).isMaster = false ∧ (run n as).main j ≠ .inside := by
  have h : Consistent n (run n as) := consistent_run as
  have hmaster (j : ℕ) (hj : (run n as).main j = .inside) :
      ((run n as).sys.dev j).isMaster = true := by
    have hfits := h.fits j
    rw [hj] at hfits
    exact hfits.master
  refine ⟨hmaster i hi, fun j hj => ⟨?_, fun hin => hj (h.unique (hmaster j hin) (hmaster i hi))⟩⟩
  rw [← Bool.not_eq_true]
  exact fun hm => hj (h.unique hm (hmaster i hi))

/-- Device 1 asks and waits, and the arbiter's grant is out. -/
abbrev asksAndWaits : List Turn := [.main 1, .main 1, .poll 1, .arb, .event 1, .arb]

/-- Device 1 is told. -/
theorem critical_section_one :
    ((run 1 (asksAndWaits ++ [.event 1])).sys.dev 1).isMaster = true ∧
      ∀ j, j ≠ 1 → ((run 1 (asksAndWaits ++ [.event 1])).sys.dev j).isMaster = false ∧
        (run 1 (asksAndWaits ++ [.event 1])).main j ≠ .inside :=
  critical_section 1 (asksAndWaits ++ [Turn.event 1]) 1 (by decide)

/-! ### Lost signals -/

/-- Only the branch that signals makes a device master. -/
theorem isMaster_processPrEvents {w : Wiring} {d : Device} {req : PrReq}
    (hsig : signalsMaster d req = false) :
    (processPrEvents w d req).1.isMaster = d.isMaster := by
  unfold processPrEvents
  cases hs : req.sig with
  | br | npr | sack | bbsy => rfl
  | npg =>
    dsimp only
    unfold handleNpg
    split
    · cases getFdDirection w req true <;> rfl
    · rfl
  | bg =>
    dsimp only
    unfold handleBg
    split_ifs with hbr hown
    · cases getFdDirection w req true <;> rfl
    · simp [signalsMaster, hs, hbr, hown] at hsig
    · rfl

/-- Only `release_master` ends it. -/
theorem isMaster_pollFlags {w : Wiring} {d : Device} (hsig : signalsRelease d = false) :
    (pollFlags w d).1.isMaster = d.isMaster := by
  unfold pollFlags
  split_ifs with hreq hrel
  · unfold requestMaster assertBr
    split_ifs <;> rfl
  · rw [signalsRelease, hrel, Bool.and_true, Bool.not_eq_false'] at hsig
    exact absurd hsig hreq
  · rfl

/-- No turn gives device `i` a signal. -/
structure Quiet (n i : ℕ) (t : Threads) : Prop where
  master : 1 ≤ i → i ≤ n → ∀ req rest, t.sys.queue i = req :: rest →
    signalsMaster (t.sys.dev i) req = false
  release : signalsRelease (t.sys.dev i) = false

section Lost

variable {n i : ℕ} {t : Threads}

theorem dev_main (a : ℕ) :
    ((turn n (.main a) t).sys.dev i).isMaster = (t.sys.dev i).isMaster := by
  simp only [turn, mainStep]
  cases t.main a with
  | outside =>
    dsimp only
    rw [reqBusMaster]
    split
    · rfl
    · by_cases ha : i = a <;> simp [step, ha]
  | inside =>
    dsimp only
    rw [releaseBusMaster]
    split
    · by_cases ha : i = a <;> simp [step, ha]
    · rfl
  | asked | releasing | waiting | leaving => rfl

/-- Two turns change who is master, and each gives the signal for it. -/
theorem isMaster_turn (a : Turn) (i : ℕ) :
    ((turn n a t).sys.dev i).isMaster = (t.sys.dev i).isMaster ∨
      (a = .event i ∧ 1 ≤ i ∧ i ≤ n ∧
        ∃ req rest, t.sys.queue i = req :: rest ∧ signalsMaster (t.sys.dev i) req = true) ∨
      (a = .poll i ∧ 1 ≤ i ∧ i ≤ n ∧ signalsRelease (t.sys.dev i) = true) := by
  cases a with
  | main j => exact .inl (dev_main j)
  | poll j =>
    by_cases hin : 1 ≤ j ∧ j ≤ n
    · by_cases hj : i = j
      · subst hj
        cases hsig : signalsRelease (t.sys.dev i) with
        | true => exact .inr (.inr ⟨rfl, hin.1, hin.2, rfl⟩)
        | false =>
          left
          rw [turn, if_pos hin, dev_poll hin.1 hin.2, isMaster_pollFlags hsig]
      · left
        rw [turn, if_pos hin, dev_poll_of_ne hj]
    · left
      rw [turn, if_neg hin]
  | event j =>
    by_cases hin : 1 ≤ j ∧ j ≤ n
    · simp only [turn, if_pos hin]
      cases hq : t.sys.queue j with
      | nil => exact .inl rfl
      | cons req rest =>
        by_cases hj : i = j
        · subst hj
          cases hsig : signalsMaster (t.sys.dev i) req with
          | true => exact .inr (.inl ⟨rfl, hin.1, hin.2, req, rest, hq, hsig⟩)
          | false =>
            left
            rw [dev_event hin.1 hin.2 hq, isMaster_processPrEvents hsig]
        · left
          rw [dev_event_of_ne hj]
    · left
      rw [turn, if_neg hin]
  | arb =>
    left
    rw [turn, dev_arb]

/-- Without a signal a device stays master or not, and its main thread takes its own steps only. -/
theorem Quiet.turn (h : Quiet n i t) (a : Turn) :
    ((turn n a t).sys.dev i).isMaster = (t.sys.dev i).isMaster ∧
      ((turn n a t).main i = t.main i ∨ (turn n a t).main i = (mainStep n i t).main i) := by
  constructor
  · rcases isMaster_turn a i with heq | ⟨-, h1, hn, req, rest, hq, hsig⟩ | ⟨-, -, -, hsig⟩
    · exact heq
    · rw [h.master h1 hn req rest hq] at hsig
      cases hsig
    · rw [h.release] at hsig
      cases hsig
  · cases a with
    | main j =>
      by_cases hj : j = i
      · subst hj
        exact .inr rfl
      · left
        simp only [MasterCalls.turn, mainStep]
        cases t.main j <;> simp [Ne.symm hj]
    | poll j =>
      left
      simp only [MasterCalls.turn]
      split
      · by_cases hj : j = i
        · subst hj
          simp [h.release, wake]
        · simp [Ne.symm hj]
      · rfl
    | event j =>
      left
      by_cases hin : 1 ≤ j ∧ j ≤ n
      · simp only [MasterCalls.turn, if_pos hin]
        cases hq : t.sys.queue j with
        | nil => rfl
        | cons req rest =>
          by_cases hj : j = i
          · subst hj
            simp [h.master hin.1 hin.2 req rest hq, wake]
          · simp [Ne.symm hj]
      · rw [MasterCalls.turn, if_neg hin]
    | arb => exact .inl rfl

/-- The main thread of device `i` is in a call, about to wait or waiting, and the signal
    is gone: the device is master already, or no more. -/
structure Stranded (call wait : Main) (master : Bool) (i : ℕ) (t : Threads) : Prop where
  main : t.main i = call ∨ t.main i = wait
  master : (t.sys.dev i).isMaster = master

/-- A device that is master while its thread still waits to be. -/
abbrev Untold := Stranded .asked .waiting true

/-- A device that is master no more while its thread still waits for that. -/
abbrev Unreleased := Stranded .releasing .leaving false

theorem Untold.is (h : Untold i t) (hc : Consistent n t) :
    Is (t.sys.dev i) false false true true false := by
  have hfits := hc.fits i
  have hacq : Acquiring (t.sys.dev i) := by
    rcases h.main with hp | hp <;> rwa [hp] at hfits
  rcases hacq with hd | hd | hd | hd
  · exact absurd h.master (by simp [hd.master])
  · exact absurd h.master (by simp [hd.master])
  · exact absurd h.master (by simp [hd.master])
  · exact hd

theorem Unreleased.is (h : Unreleased i t) (hc : Consistent n t) :
    Is (t.sys.dev i) false false false false false := by
  have hfits := hc.fits i
  have hback : Is (t.sys.dev i) false false true true true ∨
      Is (t.sys.dev i) false false false false false := by
    rcases h.main with hp | hp <;> rwa [hp] at hfits
  rcases hback with hd | hd
  · exact absurd h.master (by simp [hd.master])
  · exact hd

theorem Untold.quiet (h : Untold i t) (hc : Consistent n t) : Quiet n i t := by
  refine ⟨fun h1 hn req rest hq => ?_, by simp [signalsRelease, (Untold.is h hc).rel]⟩
  -- the signal is given where the device is not master yet
  rw [← Bool.not_eq_true]
  intro hsig
  have hfree := (hc.free h1 hn hq hsig).2
  rw [h.master] at hfree
  cases hfree

theorem Unreleased.quiet (h : Unreleased i t) (hc : Consistent n t) : Quiet n i t :=
  ⟨fun _ _ _ _ _ => by simp [signalsMaster, (Unreleased.is h hc).sack],
    by simp [signalsRelease, (Unreleased.is h hc).rel]⟩

/-- Nothing that happens tells a stranded thread later. -/
theorem Stranded.runActs {call wait : Main} {master : Bool}
    (hquiet : ∀ t, Consistent n t → Stranded call wait master i t → Quiet n i t)
    (hnext : ∀ t : Threads, t.main i = call ∨ t.main i = wait → (mainStep n i t).main i = wait)
    (h : Stranded call wait master i t) (hc : Consistent n t) (as : List Turn) :
    Stranded call wait master i (runActs (turn n) as t) := by
  have hstep : ∀ t a, Consistent n t ∧ Stranded call wait master i t →
      Consistent n (turn n a t) ∧ Stranded call wait master i (turn n a t) := by
    intro t a ⟨hc, h⟩
    obtain ⟨hmaster, hmain⟩ := (hquiet t hc h).turn a
    refine ⟨consistent_turn hc a, ?_, by rw [hmaster, h.master]⟩
    rcases hmain with hmain | hmain
    · rw [hmain]
      exact h.main
    · exact .inr (hmain.trans (hnext t h.main))
  exact (runActs_invariant hstep as t ⟨hc, h⟩).2

theorem Untold.runActs (h : Untold i t) (hc : Consistent n t) (as : List Turn) :
    Untold i (runActs (turn n) as t) := by
  refine Stranded.runActs (fun _ hc h => Untold.quiet h hc) (fun t hp => ?_) h hc as
  rcases hp with hp | hp <;> simp [mainStep, hp]

theorem Unreleased.runActs (h : Unreleased i t) (hc : Consistent n t) (as : List Turn) :
    Unreleased i (runActs (turn n) as t) := by
  refine Stranded.runActs (fun _ hc h => Unreleased.quiet h hc) (fun t hp => ?_) h hc as
  rcases hp with hp | hp <;> simp [mainStep, hp]

/-- A device is made master by the message that its thread waits for, or should. -/
theorem main_of_taken (hc : Consistent n t) {a : Turn} (hbefore : (t.sys.dev i).isMaster = false)
    (hafter : ((turn n a t).sys.dev i).isMaster = true) :
    (t.main i = .asked ∧ (turn n a t).main i = .asked) ∨
      (t.main i = .waiting ∧ (turn n a t).main i = .inside) := by
  rcases isMaster_turn a i with heq | ⟨rfl, h1, hn, req, rest, hq, hsig⟩ | ⟨rfl, -, -, hsig⟩
  · rw [hafter, hbefore] at heq
    cases heq
  · have hsack : (t.sys.dev i).sackAsserted = true := by
      rw [signalsMaster, Bool.and_eq_true, Bool.and_eq_true] at hsig
      exact (Bool.and_eq_true_iff.mp hsig.2).1
    have hmain : (turn n (.event i) t).main i = wake (t.main i) .waiting .inside true := by
      simp [turn, h1, hn, hq, hsig]
    have hfits := hc.fits i
    cases hp : t.main i with
    | asked => exact .inl ⟨rfl, by rw [hmain, hp]; rfl⟩
    | waiting => exact .inr ⟨rfl, by rw [hmain, hp]; rfl⟩
    | outside =>
      rw [hp] at hfits
      exact absurd hsack (by simp [hfits.sack])
    | inside =>
      rw [hp] at hfits
      exact absurd hbefore (by simp [hfits.master])
    | releasing | leaving =>
      rw [hp] at hfits
      rcases hfits with hd | hd
      · exact absurd hbefore (by simp [hd.master])
      · exact absurd hsack (by simp [hd.sack])
  · simp [signalsRelease, hbefore] at hsig

/-- A device gives the bus back in the turn that its thread waits for, or should. -/
theorem main_of_given (hc : Consistent n t) {a : Turn} (hbefore : (t.sys.dev i).isMaster = true)
    (hafter : ((turn n a t).sys.dev i).isMaster = false) :
    (t.main i = .releasing ∧ (turn n a t).main i = .releasing) ∨
      (t.main i = .leaving ∧ (turn n a t).main i = .outside) := by
  rcases isMaster_turn a i with heq | ⟨rfl, h1, hn, req, rest, hq, hsig⟩ | ⟨rfl, h1, hn, hsig⟩
  · rw [hafter, hbefore] at heq
    cases heq
  · have hfree := (hc.free h1 hn hq hsig).2
    rw [hbefore] at hfree
    cases hfree
  · have hrel : (t.sys.dev i).relMaster = true := by
      rw [signalsRelease, Bool.and_eq_true] at hsig
      exact (Bool.and_eq_true_iff.mp hsig.2).1
    have hmain : (turn n (.poll i) t).main i = wake (t.main i) .leaving .outside true := by
      simp [turn, h1, hn, hsig]
    have hfits := hc.fits i
    cases hp : t.main i with
    | releasing => exact .inl ⟨rfl, by rw [hmain, hp]; rfl⟩
    | leaving => exact .inr ⟨rfl, by rw [hmain, hp]; rfl⟩
    | outside | inside =>
      rw [hp] at hfits
      exact absurd hrel (by simp [hfits.rel])
    | asked | waiting =>
      rw [hp] at hfits
      rcases hfits with hd | hd | hd | hd <;> exact absurd hrel (by simp [hd.rel])

end Lost

/-- **A request returns where it waits already.**  In the turn that makes a
    device master, its `req_bus_master` returns if and only if the main thread
    waits for the signal by then.  Otherwise the call never returns: the device
    stays master whatever follows, and no other device ever is. -/
theorem request_returns_iff (n : ℕ) (as : List Turn) (a : Turn) (i : ℕ)
    (hbefore : ((run n as).sys.dev i).isMaster = false)
    (hafter : ((run n (as ++ [a])).sys.dev i).isMaster = true) :
    ((run n (as ++ [a])).main i = .inside ↔ (run n as).main i = .waiting) ∧
      ((run n as).main i ≠ .waiting → ∀ bs : List Turn,
        ((run n (as ++ [a] ++ bs)).main i = .asked ∨
          (run n (as ++ [a] ++ bs)).main i = .waiting) ∧
        ((run n (as ++ [a] ++ bs)).sys.dev i).isMaster = true ∧
        ∀ j, j ≠ i → ((run n (as ++ [a] ++ bs)).sys.dev j).isMaster = false ∧
          (run n (as ++ [a] ++ bs)).main j ≠ .inside) := by
  have hc : Consistent n (run n as) := consistent_run as
  have hturn : run n (as ++ [a]) = turn n a (run n as) := by
    rw [run, runActs_append]
    rfl
  rw [hturn] at hafter
  have htaken := main_of_taken hc hbefore hafter
  rw [hturn]
  constructor
  · rcases htaken with ⟨hp, hp'⟩ | ⟨hp, hp'⟩ <;> simp [hp, hp']
  · intro hne bs
    have hp' : (turn n a (run n as)).main i = .asked := by
      rcases htaken with ⟨-, hp'⟩ | ⟨hp, -⟩
      · exact hp'
      · exact absurd hp hne
    have huntold : Untold i (runActs (turn n) bs (turn n a (run n as))) :=
      Untold.runActs ⟨.inl hp', hafter⟩ (consistent_turn hc a) bs
    have hrun : run n (as ++ [a] ++ bs) = runActs (turn n) bs (turn n a (run n as)) := by
      rw [run, runActs_append]
      exact congrArg _ hturn
    rw [← hrun] at huntold
    have hlater : Consistent n (run n (as ++ [a] ++ bs)) := consistent_run _
    refine ⟨huntold.main, huntold.master, fun j hj => ⟨?_, fun hin => ?_⟩⟩
    · rw [← Bool.not_eq_true]
      exact fun hm => hj (hlater.unique hm huntold.master)
    · have hfits := hlater.fits j
      rw [hin] at hfits
      exact hj (hlater.unique hfits.master huntold.master)

/-- The same with a slower main thread. -/
abbrev asksOnly : List Turn := [.main 1, .poll 1, .arb, .event 1, .arb]

/-- Device 1 is told before its thread waits. -/
theorem request_returns_iff_lost :
    ((run 1 (asksOnly ++ [.event 1])).main 1 = .inside ↔ (run 1 asksOnly).main 1 = .waiting) ∧
      ((run 1 asksOnly).main 1 ≠ .waiting → ∀ bs : List Turn,
        ((run 1 (asksOnly ++ [.event 1] ++ bs)).main 1 = .asked ∨
          (run 1 (asksOnly ++ [.event 1] ++ bs)).main 1 = .waiting) ∧
        ((run 1 (asksOnly ++ [.event 1] ++ bs)).sys.dev 1).isMaster = true ∧
        ∀ j, j ≠ 1 → ((run 1 (asksOnly ++ [.event 1] ++ bs)).sys.dev j).isMaster = false ∧
          (run 1 (asksOnly ++ [.event 1] ++ bs)).main j ≠ .inside) :=
  request_returns_iff 1 asksOnly (.event 1) 1 (by decide) (by decide)

/-- **A release returns where it waits already.**  In the turn that gives the bus
    back, `release_bus_master` returns if and only if the main thread waits for
    the signal by then.  Otherwise the call never returns, though the device has
    no flag set any more. -/
theorem release_returns_iff (n : ℕ) (as : List Turn) (a : Turn) (i : ℕ)
    (hbefore : ((run n as).sys.dev i).isMaster = true)
    (hafter : ((run n (as ++ [a])).sys.dev i).isMaster = false) :
    ((run n (as ++ [a])).main i = .outside ↔ (run n as).main i = .leaving) ∧
      ((run n as).main i ≠ .leaving → ∀ bs : List Turn,
        ((run n (as ++ [a] ++ bs)).main i = .releasing ∨
          (run n (as ++ [a] ++ bs)).main i = .leaving) ∧
        Is ((run n (as ++ [a] ++ bs)).sys.dev i) false false false false false) := by
  have hc : Consistent n (run n as) := consistent_run as
  have hturn : run n (as ++ [a]) = turn n a (run n as) := by
    rw [run, runActs_append]
    rfl
  rw [hturn] at hafter
  have hgiven := main_of_given hc hbefore hafter
  rw [hturn]
  constructor
  · rcases hgiven with ⟨hp, hp'⟩ | ⟨hp, hp'⟩ <;> simp [hp, hp']
  · intro hne bs
    have hp' : (turn n a (run n as)).main i = .releasing := by
      rcases hgiven with ⟨-, hp'⟩ | ⟨hp, -⟩
      · exact hp'
      · exact absurd hp hne
    have hunreleased : Unreleased i (runActs (turn n) bs (turn n a (run n as))) :=
      Unreleased.runActs ⟨.inl hp', hafter⟩ (consistent_turn hc a) bs
    have hrun : run n (as ++ [a] ++ bs) = runActs (turn n) bs (turn n a (run n as)) := by
      rw [run, runActs_append]
      exact congrArg _ hturn
    rw [← hrun] at hunreleased
    exact ⟨hunreleased.main, Unreleased.is hunreleased (consistent_run _)⟩

/-- Device 1 is master and its main thread has called `release_bus_master`. -/
abbrev releasesOnly : List Turn := asksAndWaits ++ [.event 1, .main 1]

/-- Device 1 gives the bus back before its thread waits. -/
theorem release_returns_iff_lost :
    ((run 1 (releasesOnly ++ [.poll 1])).main 1 = .outside ↔
        (run 1 releasesOnly).main 1 = .leaving) ∧
      ((run 1 releasesOnly).main 1 ≠ .leaving → ∀ bs : List Turn,
        ((run 1 (releasesOnly ++ [.poll 1] ++ bs)).main 1 = .releasing ∨
          (run 1 (releasesOnly ++ [.poll 1] ++ bs)).main 1 = .leaving) ∧
        Is ((run 1 (releasesOnly ++ [.poll 1] ++ bs)).sys.dev 1) false false false false false) :=
  release_returns_iff 1 releasesOnly (.poll 1) 1 (by decide) (by decide)

end XMachine.Unibus.MasterCalls
