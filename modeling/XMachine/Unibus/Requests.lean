import XMachine.Unibus.Handover
import Mathlib.Order.Interval.Finset.Nat

namespace XMachine.Unibus

open XMachine.Lib

/-!
# Requests — which bus requests are answered

The arbiter remembers no request.  A BR that finds its SACK line up is dropped,
and one that comes while a grant is out brings a second grant, which a second
device acknowledges in vain.  `dropped_request` is such a run.  Where every BR
finds no acquisition under way, or can be spared, nothing is left behind:
`no_request_forgotten`.

* `Heeded` — the condition on the steps of a run;
* `Phase` — how far the one acquisition under way has come;
* `Served` — the invariant: one lemma for each move that is not a mere passing on.
-/

/-! ### The condition -/

/-- How many of the devices wait for a grant. -/
def waiting (n : ℕ) (dev : ℕ → Device) : ℕ :=
  ((Finset.Icc 1 n).filter fun i => (dev i).brIssued = true).card

/-- The bus requests on their way to the arbiter. -/
def requests (l : Lane) : ℕ := (Lane.word l).count .br

/-- SACK is negated, and no grant and no acknowledgement is in flight. -/
def NoneAcquiring (n : ℕ) (s : System) : Prop :=
  s.arb.sack = NEGATED ∧ ∀ i ≤ n, ∀ m ∈ s.queue i, m.line ≠ .bgOn ∧ m.line ≠ .sackOn

/-- SACK is asserted, and there are more requests in flight than devices that wait. -/
def Spare (n : ℕ) (s : System) : Prop :=
  s.arb.sack = ASSERTED ∧ waiting n s.dev < requests (leftLane n s.queue)

/-- A bus request taken by the arbiter is not needed, or is granted and is the only one. -/
def Heeded (n : ℕ) (s : System) (a : Act) : Prop :=
  a = .arb 0 → ∀ m ∈ (s.queue 0).head?, m.sig = .br → NoneAcquiring n s ∨ Spare n s

instance (n : ℕ) (s : System) : Decidable (NoneAcquiring n s) :=
  inferInstanceAs (Decidable (_ ∧ _))

instance (n : ℕ) (s : System) : Decidable (Spare n s) := inferInstanceAs (Decidable (_ ∧ _))

instance (n : ℕ) (s : System) (a : Act) : Decidable (Heeded n s a) :=
  inferInstanceAs (Decidable (_ → _))

/-! ### Lines of one kind on a lane -/

/-- The entries with the line `x` are those of the other lane. -/
def SameOn (x : Line) (l l' : Lane) : Prop :=
  (l'.filter fun e => e.2 = x) = l.filter fun e => e.2 = x

section Lanes

variable {n i : ℕ} {x y : Line} {xs : List Line} {l l' : Lane}

theorem SameOn.count (h : SameOn x l l') : (Lane.word l').count x = (Lane.word l).count x := by
  have hcount (l : Lane) : (Lane.word l).count x = (l.filter fun e => e.2 = x).length := by
    rw [← List.countP_eq_length_filter, Lane.word, List.count, List.countP_map]
    exact List.countP_congr fun e _ => by simp
  rw [hcount, hcount, h]

theorem SameOn.mem_iff (h : SameOn x l l') (g : ℕ) : (g, x) ∈ l' ↔ (g, x) ∈ l := by
  have hmem (l : Lane) : (g, x) ∈ l ↔ (g, x) ∈ l.filter fun e => e.2 = x := by simp
  rw [hmem, hmem l, h]

theorem Send.count {before after : ℕ → Prop} (h : Send before after i xs l l') (x : Line) :
    (Lane.word l').count x = (Lane.word l).count x + xs.count x := by
  obtain ⟨u, w, rfl, rfl, -, -⟩ := h
  simp only [Lane.word, List.map_append, List.count_append, List.map_map]
  have hxs : xs.map (Prod.snd ∘ fun x => (i, x)) = xs := List.map_id xs
  rw [hxs]
  omega

theorem Send.sameOn {before after : ℕ → Prop} (h : Send before after i xs l l') (hx : x ∉ xs) :
    SameOn x l l' := by
  obtain ⟨u, w, rfl, rfl, -, -⟩ := h
  have hnone : (xs.map fun y => (i, y)).filter (fun e => e.2 = x) = [] := by
    refine List.filter_eq_nil_iff.mpr fun e he => ?_
    obtain ⟨y, hy, rfl⟩ := List.mem_map.mp he
    simp only [decide_eq_true_eq]
    rintro rfl
    exact hx hy
  simp only [SameOn, List.filter_append, hnone, List.append_nil]

theorem SendRight.sameOn (h : SendRight n i xs l l') (hx : x ∉ xs) : SameOn x l l' := by
  unfold SendRight at h
  split at h
  · exact Send.sameOn h hx
  · rw [h]
    rfl

theorem HopLeft.word_eq (h : HopLeft i x l l') : Lane.word l' = Lane.word l := by
  obtain ⟨u, w, rfl, rfl, -, -⟩ := h
  simp [Lane.word]

theorem TakeRight.sameOn (h : TakeRight i y l l') (hx : x ≠ y) : SameOn x l l' := by
  obtain ⟨u, w, rfl, rfl, -, -⟩ := h
  simp [SameOn, hx.symm]

theorem TakeRight.count (h : TakeRight i x l l') :
    (Lane.word l).count x = (Lane.word l').count x + 1 := by
  obtain ⟨u, w, rfl, rfl, -, -⟩ := h
  simp [Lane.word]
  omega

/-- If none of its kind is left, the line taken was the only one. -/
theorem TakeRight.eq_of_mem (h : TakeRight i x l l') (h0 : (Lane.word l').count x = 0) {g : ℕ}
    (hg : (g, x) ∈ l) : g = i := by
  obtain ⟨u, w, rfl, rfl, -, -⟩ := h
  have hnone : (g, x) ∉ u ++ w := fun hm =>
    List.count_eq_zero.mp h0 (List.mem_map.mpr ⟨_, hm, rfl⟩)
  simp only [List.mem_append, not_or] at hnone
  simpa [hnone.1, hnone.2] using hg

theorem HopRight.sameOn (h : HopRight n i y l l') (hx : x ≠ y) : SameOn x l l' := by
  unfold HopRight at h
  split at h
  · obtain ⟨u, w, rfl, rfl, -, -⟩ := h
    simp [SameOn, hx.symm]
  · exact h.sameOn hx

/-- The only line of its kind, passed on, is at the next node. -/
theorem HopRight.next (h : HopRight n i x l l') (hn : i < n) (h1 : (Lane.word l).count x = 1) :
    (Lane.word l').count x = 1 ∧ (i + 1, x) ∈ l' ∧ (∀ g, (g, x) ∈ l → g = i) ∧
      ∀ g, (g, x) ∈ l' → g = i + 1 := by
  rw [HopRight, if_pos hn] at h
  obtain ⟨u, w, rfl, rfl, -, -⟩ := h
  -- before and behind the one passed on there is no other
  have hsum : (Lane.word u).count x + (Lane.word w).count x = 0 := by
    simp only [Lane.word, List.map_append, List.map_cons, List.count_append,
      List.count_cons_self] at h1 ⊢
    omega
  have hu (g : ℕ) : (g, x) ∉ u := fun hm =>
    List.count_eq_zero.mp (by omega : (Lane.word u).count x = 0) (List.mem_map.mpr ⟨_, hm, rfl⟩)
  have hw (g : ℕ) : (g, x) ∉ w := fun hm =>
    List.count_eq_zero.mp (by omega : (Lane.word w).count x = 0) (List.mem_map.mpr ⟨_, hm, rfl⟩)
  refine ⟨?_, by simp, fun g hg => ?_, fun g hg => ?_⟩
  · simpa [Lane.word] using h1
  · simpa [hu, hw] using hg
  · simpa [hu, hw] using hg

end Lanes

/-! ### The acquisition under way -/

/-- How far it has come. -/
inductive Phase
  | idle
  /-- A grant is on its way. -/
  | granted
  /-- Device `i` has acknowledged it. -/
  | acked (i : ℕ)
  /-- The negated grant is on its way to device `i`. -/
  | negated (i : ℕ)
  | owned (i : ℕ)
  /-- The negated SACK is on its way to the arbiter. -/
  | released
  deriving DecidableEq

namespace Phase

/-- The device whose SACK is asserted. -/
def holder : Phase → Option ℕ
  | .acked i | .negated i | .owned i => some i
  | .idle | .granted | .released => none

/-- The arbiter's SACK line. -/
def sack : Phase → Bool
  | .negated _ | .owned _ | .released => true
  | .idle | .granted | .acked _ => false

/-- The grants with level `b` on the right lane. -/
def grants (b : Bool) : Phase → ℕ
  | .granted => if b then 1 else 0
  | .negated _ => if b then 0 else 1
  | .idle | .acked _ | .owned _ | .released => 0

/-- The SACKs with level `b` on the left lane. -/
def acks (b : Bool) : Phase → ℕ
  | .acked _ => if b then 1 else 0
  | .released => if b then 0 else 1
  | .idle | .granted | .negated _ | .owned _ => 0

theorem eq_granted {ph : Phase} (h : 0 < ph.grants true) : ph = .granted := by
  cases ph <;> first | rfl | cases h

theorem eq_negated {ph : Phase} (h : 0 < ph.grants false) : ∃ i, ph = .negated i := by
  cases ph <;> first | exact ⟨_, rfl⟩ | cases h

theorem eq_acked {ph : Phase} (h : 0 < ph.acks true) : ∃ i, ph = .acked i := by
  cases ph <;> first | exact ⟨_, rfl⟩ | cases h

theorem eq_released {ph : Phase} (h : 0 < ph.acks false) : ph = .released := by
  cases ph <;> first | rfl | cases h

end Phase

/-- For every device that waits there is a request, but for one to which a
    grant is on its way. -/
def Asked (n : ℕ) (v : View) : Prop :=
  waiting n v.dev ≤ requests v.left ∨ waiting n v.dev ≤ requests v.left + 1 ∧
    ∃ g i, (g, .bgOn) ∈ v.right ∧ g ≤ i ∧ i ≤ n ∧ (v.dev i).brIssued = true

structure Served (n : ℕ) (v : View) (ph : Phase) : Prop where
  handover : ∃ st, Handover n v st
  sack : v.arb.sack = ph.sack
  outstanding : ph = .granted ∨ (∃ i, ph = .acked i) → v.arb.outstandingBg = true
  grants : ∀ b, (Lane.word v.right).count (.bg, b) = ph.grants b
  acks : ∀ b, (Lane.word v.left).count (.sack, b) = ph.acks b
  holder : ∀ i, (v.dev i).sackAsserted = true ↔ ph.holder = some i
  master : ∀ i, (v.dev i).isMaster = true ↔ ph = .owned i
  inChain : ∀ i, ph.holder = some i → 1 ≤ i ∧ i ≤ n
  /-- The negated grant has not gone past the device it is for. -/
  ahead : ∀ i, ph.holder = some i → ∀ g, (g, .bgOff) ∈ v.right → g ≤ i
  asked : Asked n v

theorem served_init (n : ℕ) : Served n (initSystem.view n) .idle := by
  have hhandover := handover_init n
  rw [view_initSystem] at hhandover ⊢
  refine ⟨⟨_, hhandover⟩, rfl, by simp, fun b => rfl, fun b => rfl,
    by simp [initDevice, Phase.holder], by simp [initDevice], by simp [Phase.holder],
    by simp [Phase.holder], .inl ?_⟩
  simp [waiting, initDevice]

/-! ### Waiting devices -/

section Waiting

variable {n i : ℕ} {dev dev' : ℕ → Device}

theorem waiting_congr (h : ∀ j, (dev' j).brIssued = (dev j).brIssued) :
    waiting n dev' = waiting n dev := by
  simp only [waiting, h]

/-- One more device waits, if it did not wait before. -/
theorem waiting_request (d : Device) :
    waiting n (Function.update dev i d) ≤ waiting n dev + 1 := by
  have hsub : ((Finset.Icc 1 n).filter fun j => (Function.update dev i d j).brIssued = true)
      ⊆ insert i ((Finset.Icc 1 n).filter fun j => (dev j).brIssued = true) := by
    intro j hj
    obtain ⟨hjn, hbr⟩ := Finset.mem_filter.mp hj
    by_cases hji : j = i
    · exact Finset.mem_insert.mpr (.inl hji)
    · rw [Function.update_of_ne hji] at hbr
      exact Finset.mem_insert_of_mem (Finset.mem_filter.mpr ⟨hjn, hbr⟩)
  exact (Finset.card_le_card hsub).trans (Finset.card_insert_le _ _)

/-- A device that takes a grant waits no longer. -/
theorem waiting_ack {d : Device} (h1 : 1 ≤ i) (hn : i ≤ n) (hbr : (dev i).brIssued = true)
    (hd : d.brIssued = false) : waiting n (Function.update dev i d) + 1 = waiting n dev := by
  have hmem : i ∈ (Finset.Icc 1 n).filter fun j => (dev j).brIssued = true :=
    Finset.mem_filter.mpr ⟨Finset.mem_Icc.mpr ⟨h1, hn⟩, hbr⟩
  -- the devices that wait are those that waited, without `i`
  have herase : ((Finset.Icc 1 n).filter fun j => (Function.update dev i d j).brIssued = true)
      = ((Finset.Icc 1 n).filter fun j => (dev j).brIssued = true).erase i := by
    ext j
    by_cases hji : j = i
    · subst hji
      simp [hd]
    · simp [hji]
  rw [waiting, herase]
  exact Finset.card_erase_add_one hmem

/-- If somebody waits, it is a device of the chain. -/
theorem exists_waiting (h : 0 < waiting n dev) : ∃ i, 1 ≤ i ∧ i ≤ n ∧ (dev i).brIssued = true := by
  obtain ⟨i, hi⟩ := Finset.card_pos.mp h
  obtain ⟨hin, hbr⟩ := Finset.mem_filter.mp hi
  obtain ⟨h1, hn⟩ := Finset.mem_Icc.mp hin
  exact ⟨i, h1, hn, hbr⟩

theorem waiting_pos (h1 : 1 ≤ i) (hn : i ≤ n) (hbr : (dev i).brIssued = true) :
    0 < waiting n dev :=
  Finset.card_pos.mpr ⟨i, Finset.mem_filter.mpr ⟨Finset.mem_Icc.mpr ⟨h1, hn⟩, hbr⟩⟩

end Waiting

/-! ### Moves -/

section Moves

variable {n i : ℕ} {v v' : View} {ph : Phase}

/-- Nobody waits who did not wait before, and no request and no grant is gone. -/
theorem Asked.mono (h : Asked n v) (hdev : ∀ j, (v'.dev j).brIssued = (v.dev j).brIssued)
    (hleft : requests v.left ≤ requests v'.left)
    (hright : ∀ g, (g, .bgOn) ∈ v.right → (g, .bgOn) ∈ v'.right) : Asked n v' := by
  unfold Asked
  rw [waiting_congr hdev]
  rcases h with h | ⟨h, g, j, hg, hgj, hjn, hbr⟩
  · exact .inl (h.trans hleft)
  · refine .inr ⟨h.trans (Nat.add_le_add_right hleft 1), g, j, hright g hg, hgj, hjn, ?_⟩
    rw [hdev]
    exact hbr

/-- A move that touches neither grant nor SACK. -/
theorem Served.keep (h : Served n v ph) (hhandover : ∃ st, Handover n v' st)
    (hsack : v'.arb.sack = v.arb.sack) (hout : v'.arb.outstandingBg = v.arb.outstandingBg)
    (hdev : ∀ j, (v'.dev j).sackAsserted = (v.dev j).sackAsserted ∧
      (v'.dev j).isMaster = (v.dev j).isMaster)
    (hleft : ∀ b, (Lane.word v'.left).count (.sack, b) = (Lane.word v.left).count (.sack, b))
    (hright : ∀ b, SameOn (.bg, b) v.right v'.right) (hasked : Asked n v') :
    Served n v' ph where
  handover := hhandover
  sack := hsack.trans h.sack
  outstanding hph := hout.trans (h.outstanding hph)
  grants b := (hright b).count.trans (h.grants b)
  acks b := (hleft b).trans (h.acks b)
  holder j := (Bool.eq_iff_iff.mp (hdev j).1).trans (h.holder j)
  master j := (Bool.eq_iff_iff.mp (hdev j).2).trans (h.master j)
  inChain := h.inChain
  ahead j hj g hg := h.ahead j hj g (((hright false).mem_iff g).mp hg)
  asked := hasked

/-- A request. -/
theorem Served.request (h : Served n v ph) {l r : Lane}
    (hhandover : ∃ st, Handover n ⟨v.arb, Function.update v.dev i
      { v.dev i with brIssued := true, reqMaster := false }, l, r⟩ st)
    (hl : SendLeft i [(.br, true)] v.left l) (hr : SendRight n i [(.br, true)] v.right r) :
    Served n ⟨v.arb, Function.update v.dev i
      { v.dev i with brIssued := true, reqMaster := false }, l, r⟩ ph := by
  have hright (b : Bool) : SameOn (.bg, b) v.right r := hr.sameOn (by simp)
  refine h.keep hhandover rfl rfl (fun j => ?_) (fun b => (Send.sameOn hl (by simp)).count)
    hright ?_
  · by_cases hj : j = i
    · subst hj
      simp
    · simp [hj]
  · have hreq : requests l = requests v.left + 1 := Send.count hl .br
    have hwait : waiting n (Function.update v.dev i
        { v.dev i with brIssued := true, reqMaster := false }) ≤ waiting n v.dev + 1 :=
      waiting_request _
    -- one device more may wait, and there is one request more
    rcases h.asked with hasked | ⟨hasked, g, j, hg, hgj, hjn, hbr⟩
    · refine .inl (hwait.trans ?_)
      rw [hreq]
      exact Nat.add_le_add_right hasked 1
    · refine .inr ⟨hwait.trans ?_, g, j, ((hright true).mem_iff g).mpr hg, hgj, hjn, ?_⟩
      · rw [hreq]
        exact Nat.add_le_add_right hasked 1
      · by_cases hj : j = i
        · subst hj
          simp
        · simpa [hj] using hbr

/-- The master gives the bus back. -/
theorem Served.release (h : Served n v ph) {l r : Lane} (hmaster : (v.dev i).isMaster = true)
    (hhandover : ∃ st, Handover n ⟨v.arb, Function.update v.dev i
      { v.dev i with sackAsserted := false, bbsyAsserted := false, isMaster := false,
                     reqMaster := false, relMaster := false }, l, r⟩ st)
    (hl : SendLeft i [.sackOff, .bbsyOff] v.left l)
    (hr : SendRight n i [.sackOff, .bbsyOff] v.right r) :
    Served n ⟨v.arb, Function.update v.dev i
      { v.dev i with sackAsserted := false, bbsyAsserted := false, isMaster := false,
                     reqMaster := false, relMaster := false }, l, r⟩ .released := by
  -- only a device that owns the bus is master, and there is one
  obtain rfl : ph = .owned i := (h.master i).mp hmaster
  have hright (b : Bool) : SameOn (.bg, b) v.right r := hr.sameOn (by simp)
  refine ⟨hhandover, h.sack, by simp, fun b => (hright b).count.trans (h.grants b), fun b => ?_,
    fun j => ?_, fun j => ?_, by simp [Phase.holder], by simp [Phase.holder], ?_⟩
  · have hcount := Send.count hl (.sack, b)
    have hold := h.acks b
    dsimp only
    rw [hcount, hold]
    cases b <;> rfl
  · by_cases hj : j = i
    · subst hj
      simp [Phase.holder]
    · have hother := h.holder j
      simpa [hj, Phase.holder, Ne.symm hj] using hother
  · by_cases hj : j = i
    · subst hj
      simp
    · have hother := h.master j
      simpa [hj, Ne.symm hj] using hother
  · refine h.asked.mono (fun j => ?_) ?_ fun g => ((hright true).mem_iff g).mpr
    · by_cases hj : j = i
      · subst hj
        simp
      · simp [hj]
    · exact (Send.sameOn hl (by simp)).count.ge

/-- A device acknowledges the grant. -/
theorem Served.ackGrant (h : Served n v ph) {l r : Lane} (h1 : 1 ≤ i) (hn : i ≤ n)
    (hbr : (v.dev i).brIssued = true)
    (hhandover : ∃ st, Handover n ⟨v.arb, Function.update v.dev i
      { v.dev i with brIssued := false, sackAsserted := true }, l, r⟩ st)
    (hr : TakeRight i .bgOn v.right r) (hl : SendLeft i [.sackOn] v.left l) :
    Served n ⟨v.arb, Function.update v.dev i
      { v.dev i with brIssued := false, sackAsserted := true }, l, r⟩ (.acked i) := by
  have htake : (Lane.word v.right).count .bgOn = (Lane.word r).count .bgOn + 1 := hr.count
  have hgrants : (Lane.word v.right).count .bgOn = ph.grants true := h.grants true
  -- the grant taken was the only one, so nobody holds SACK yet
  obtain rfl : ph = .granted := Phase.eq_granted (by omega)
  have hoff : SameOn .bgOff v.right r := hr.sameOn (by decide)
  have hnone : (Lane.word r).count .bgOff = 0 := hoff.count.trans (h.grants false)
  refine ⟨hhandover, h.sack, fun _ => h.outstanding (.inl rfl), fun b => ?_, fun b => ?_,
    fun j => ?_, fun j => ?_, fun j hj => ?_, fun j _ g hg => ?_, .inl ?_⟩
  · cases b with
    | true =>
      change (Lane.word v.right).count .bgOn = 1 at hgrants
      change (Lane.word r).count .bgOn = 0
      omega
    | false => exact hnone
  · have hcount := Send.count hl (.sack, b)
    have hold := h.acks b
    dsimp only
    rw [hcount, hold]
    cases b <;> rfl
  · by_cases hj : j = i
    · subst hj
      simp [Phase.holder]
    · have hother := h.holder j
      simpa [hj, Phase.holder, Ne.symm hj] using hother
  · have hother := h.master j
    by_cases hj : j = i
    · subst hj
      simpa using hother
    · simpa [hj] using hother
  · obtain rfl : i = j := Option.some.inj hj
    exact ⟨h1, hn⟩
  · have hmem : Line.bgOff ∈ Lane.word r := List.mem_map.mpr ⟨_, hg, rfl⟩
    exact absurd hmem (List.count_eq_zero.mp hnone)
  · -- the device served is one that waited
    have hwait : waiting n (Function.update v.dev i
        { v.dev i with brIssued := false, sackAsserted := true }) + 1 = waiting n v.dev :=
      waiting_ack h1 hn hbr rfl
    have hreq : requests l = requests v.left := (Send.sameOn hl (by decide)).count
    have hasked : waiting n v.dev ≤ requests v.left + 1 := by
      rcases h.asked with hasked | ⟨hasked, -⟩ <;> omega
    change waiting n (Function.update v.dev i _) ≤ requests l
    omega

/-- The device that has acknowledged takes the bus. -/
theorem Served.ownBus (h : Served n v ph) {l r r' : Lane}
    (hsack : (v.dev i).sackAsserted = true)
    (hhandover : ∃ st, Handover n ⟨v.arb, Function.update v.dev i
      { v.dev i with bbsyAsserted := true, isMaster := true, reqMaster := false }, l, r'⟩ st)
    (hr : TakeRight i .bgOff v.right r) (hl : SendLeft i [.bbsyOn] v.left l)
    (hr' : SendRight n i [.bbsyOn] r r') :
    Served n ⟨v.arb, Function.update v.dev i
      { v.dev i with bbsyAsserted := true, isMaster := true, reqMaster := false }, l, r'⟩
      (.owned i) := by
  have htake : (Lane.word v.right).count .bgOff = (Lane.word r).count .bgOff + 1 := hr.count
  have hgrants : (Lane.word v.right).count .bgOff = ph.grants false := h.grants false
  have hpos : 0 < ph.grants false := by omega
  obtain ⟨k, rfl⟩ := Phase.eq_negated hpos
  -- the device that takes it is the one it is for
  obtain rfl : k = i := Option.some.inj ((h.holder i).mp hsack)
  change (Lane.word v.right).count .bgOff = 1 at hgrants
  have hon : SameOn .bgOn v.right r := hr.sameOn (by decide)
  have hright (b : Bool) : SameOn (.bg, b) r r' := hr'.sameOn (by simp)
  have hnone' : (Lane.word r).count .bgOff = 0 := by omega
  have hnone : (Lane.word r').count .bgOff = 0 := (hright false).count.trans hnone'
  refine ⟨hhandover, h.sack, by simp, fun b => ?_, fun b => ?_, fun j => ?_, fun j => ?_,
    h.inChain, fun j _ g hg => ?_, ?_⟩
  · cases b with
    | true => exact (hright true).count.trans (hon.count.trans (h.grants true))
    | false => exact hnone
  · exact (Send.sameOn hl (by simp)).count.trans (h.acks b)
  · have hold := h.holder j
    by_cases hj : j = k
    · subst hj
      simpa [Phase.holder] using hold
    · simpa [hj, Phase.holder] using hold
  · by_cases hj : j = k
    · subst hj
      simp
    · have hother := h.master j
      simpa [hj, Ne.symm hj] using hother
  · have hmem : Line.bgOff ∈ Lane.word r' := List.mem_map.mpr ⟨_, hg, rfl⟩
    exact absurd hmem (List.count_eq_zero.mp hnone)
  · refine h.asked.mono (fun j => ?_) (Send.sameOn hl (by decide)).count.ge fun g hg => ?_
    · by_cases hj : j = k
      · subst hj
        simp
      · simp [hj]
    · exact ((hright true).mem_iff g).mpr ((hon.mem_iff g).mpr hg)

/-- A grant passed on.  With nobody left to take it, it leaves the chain. -/
theorem Served.passGrant (h : Served n v ph) {b : Bool} {r : Lane} (hn : i ≤ n)
    (hbr : b = true → (v.dev i).brIssued = false)
    (hsack : b = false → (v.dev i).sackAsserted = false)
    (hhandover : ∃ st, Handover n ⟨v.arb, v.dev, v.left, r⟩ st)
    (hr : HopRight n i (.bg, b) v.right r) :
    ∃ ph', Served n ⟨v.arb, v.dev, v.left, r⟩ ph' := by
  have hmem : ((.bg, b) : Line) ∈ Lane.word v.right :=
    List.mem_map.mpr ⟨_, hopRight_mem hr, rfl⟩
  have hpos : 0 < ph.grants b := by
    rw [← h.grants b]
    exact List.count_pos_iff.mpr hmem
  cases b with
  | true =>
    obtain rfl := Phase.eq_granted hpos
    have hoff : SameOn .bgOff v.right r := hr.sameOn (by decide)
    have hone : (Lane.word v.right).count .bgOn = 1 := h.grants true
    by_cases hin : i < n
    · obtain ⟨hcount, hnext, hold, -⟩ := hr.next hin hone
      refine ⟨.granted, hhandover, h.sack, h.outstanding, fun b => ?_, h.acks, h.holder, h.master,
        h.inChain, by simp [Phase.holder], ?_⟩
      · cases b with
        | true => exact hcount
        | false => exact hoff.count.trans (h.grants false)
      · rcases h.asked with hasked | ⟨hasked, g, j, hg, hgj, hjn, hbrj⟩
        · exact .inl hasked
        · -- the device to be served is further to the right
          obtain rfl := hold g hg
          have hne : j ≠ g := by
            rintro rfl
            rw [hbr rfl] at hbrj
            cases hbrj
          exact .inr ⟨hasked, g + 1, j, hnext, by omega, hjn, hbrj⟩
    · rw [HopRight, if_neg hin] at hr
      have htake : (Lane.word v.right).count .bgOn = (Lane.word r).count .bgOn + 1 := hr.count
      have hone' : (Lane.word r).count .bgOn = 0 := by omega
      refine ⟨.idle, hhandover, h.sack, by simp, fun b => ?_, h.acks, h.holder,
        fun j => (h.master j).trans (by simp), by simp [Phase.holder], by simp [Phase.holder],
        .inl ?_⟩
      · cases b with
        | true => exact hone'
        | false => exact hoff.count.trans (h.grants false)
      · rcases h.asked with hasked | ⟨-, g, j, hg, hgj, hjn, hbrj⟩
        · exact hasked
        · -- the grant was at the last device, which does not wait
          obtain rfl := hr.eq_of_mem hone' hg
          obtain rfl : j = g := by omega
          rw [hbr rfl] at hbrj
          cases hbrj
  | false =>
    obtain ⟨k, rfl⟩ := Phase.eq_negated hpos
    have hon : SameOn .bgOn v.right r := hr.sameOn (by decide)
    have hone : (Lane.word v.right).count .bgOff = 1 := h.grants false
    obtain ⟨-, hkn⟩ := h.inChain k rfl
    -- the device it is for is still ahead, so the chain does not end here
    have hik : i ≤ k := h.ahead k rfl i (hopRight_mem hr)
    have hne : i ≠ k := by
      rintro rfl
      have hheld := (h.holder i).mpr rfl
      rw [hsack rfl] at hheld
      cases hheld
    have hin : i < n := by omega
    obtain ⟨hcount, -, -, hnew⟩ := hr.next hin hone
    refine ⟨.negated k, hhandover, h.sack, h.outstanding, fun b => ?_, h.acks, h.holder, h.master,
      h.inChain, fun j hj g hg => ?_, h.asked.mono (fun _ => rfl) le_rfl fun g hg => ?_⟩
    · cases b with
      | true => exact hon.count.trans (h.grants true)
      | false => exact hcount
    · obtain rfl : k = j := Option.some.inj hj
      rw [hnew g hg]
      omega
    · exact (hon.mem_iff g).mpr hg

/-- What must be known of the lanes when the arbiter takes a request. -/
def Ready (n : ℕ) (v : View) : Prop :=
  v.arb.sack = false ∧ .bgOn ∉ Lane.word v.right ∧ .sackOn ∉ Lane.word v.left ∨
    v.arb.sack = true ∧ waiting n v.dev < requests v.left

/-- The arbiter takes a request. -/
theorem Served.arbBr (h : Served n v ph) {m : PrReq} {l : Lane} (hl : v.left = (0, m.line) :: l)
    (hline : m.line = .br) (hready : Ready n v)
    (hhandover : ∃ st, Handover n ⟨(listenPriority v.arb m).1, v.dev, l,
      v.right ++ ((listenPriority v.arb m).2.toList.map fun x => (1, x))⟩ st) :
    ∃ ph', Served n ⟨(listenPriority v.arb m).1, v.dev, l,
      v.right ++ ((listenPriority v.arb m).2.toList.map fun x => (1, x))⟩ ph' := by
  have hsig : m.sig = .br := congrArg Prod.fst hline
  have hreq : requests v.left = requests l + 1 := by
    rw [requests, hl, hline]
    exact List.count_cons_self
  have hleft (b : Bool) : SameOn (.sack, b) v.left l := by
    simp [SameOn, hl, hline]
  rcases hready with ⟨hsack, hon, hack⟩ | ⟨hsack, hspare⟩
  · -- a grant, and the only one
    have hturn : listenPriority v.arb m
        = ({ v.arb with outstandingBg := true }, some (.bg, ASSERTED)) := by
      simp only [listenPriority, hsig, assertBusGrant, hsack, Bool.false_eq_true, if_false]
    -- no grant and no acknowledgement in flight, and SACK negated
    obtain rfl : ph = .idle := by
      have hph := h.sack
      have hgrants : (Lane.word v.right).count .bgOn = ph.grants true := h.grants true
      have hacks : (Lane.word v.left).count .sackOn = ph.acks true := h.acks true
      rw [List.count_eq_zero.mpr hon] at hgrants
      rw [List.count_eq_zero.mpr hack] at hacks
      rw [hsack] at hph
      cases ph with
      | idle => rfl
      | granted => exact absurd hgrants (by simp [Phase.grants])
      | acked i => exact absurd hacks (by simp [Phase.acks])
      | negated i | owned i | released => exact absurd hph (by simp [Phase.sack])
    rw [hturn] at hhandover ⊢
    refine ⟨.granted, hhandover, h.sack, fun _ => rfl, fun b => ?_,
      fun b => (hleft b).count.trans (h.acks b), h.holder,
      fun j => (h.master j).trans (by simp), by simp [Phase.holder], by simp [Phase.holder], ?_⟩
    · have hold := h.grants b
      simp only [Lane.word, Option.toList_some, List.map_append, List.count_append] at hold ⊢
      rw [hold]
      cases b <;> rfl
    · have hasked : waiting n v.dev ≤ requests v.left := by
        rcases h.asked with hasked | ⟨-, g, -, hg, -⟩
        · exact hasked
        · exact absurd (List.mem_map.mpr ⟨_, hg, rfl⟩) hon
      by_cases hwait : waiting n v.dev ≤ requests l
      · exact .inl hwait
      · obtain ⟨j, hj1, hjn, hbr⟩ := exists_waiting (by omega : 0 < waiting n v.dev)
        refine .inr ⟨?_, 1, j, by simp, hj1, hjn, hbr⟩
        change waiting n v.dev ≤ requests l + 1
        omega
  · -- dropped, but others are in flight
    have hturn : listenPriority v.arb m = (v.arb, none) := by
      simp only [listenPriority, hsig, assertBusGrant, hsack, if_true]
    rw [hturn] at hhandover ⊢
    refine ⟨ph, h.keep hhandover rfl rfl (fun _ => ⟨rfl, rfl⟩)
      (fun b => (hleft b).count) (fun b => ?_) (.inl ?_)⟩
    · simp [SameOn]
    · change waiting n v.dev ≤ requests l
      omega

/-- The arbiter takes the acknowledgement: the grant is negated. -/
theorem Served.arbSackOn (h : Served n v ph) {m : PrReq} {l : Lane}
    (hl : v.left = (0, m.line) :: l) (hline : m.line = .sackOn)
    (hhandover : ∃ st, Handover n ⟨(listenPriority v.arb m).1, v.dev, l,
      v.right ++ ((listenPriority v.arb m).2.toList.map fun x => (1, x))⟩ st) :
    ∃ ph', Served n ⟨(listenPriority v.arb m).1, v.dev, l,
      v.right ++ ((listenPriority v.arb m).2.toList.map fun x => (1, x))⟩ ph' := by
  obtain ⟨hsig, hass⟩ := Prod.mk.inj hline
  have hword : Lane.word v.left = .sackOn :: Lane.word l := by simp [Lane.word, hl, hline]
  have hacks : (Lane.word v.left).count .sackOn = ph.acks true := h.acks true
  rw [hword, List.count_cons_self] at hacks
  have hpos : 0 < ph.acks true := by omega
  obtain ⟨k, rfl⟩ := Phase.eq_acked hpos
  have hsack : v.arb.sack = false := h.sack
  -- the grant it answers is still outstanding
  have hout : v.arb.outstandingBg = true := h.outstanding (.inr ⟨k, rfl⟩)
  have hturn : listenPriority v.arb m
      = ({ v.arb with sack := true, outstandingBg := false }, some (.bg, NEGATED)) := by
    simp only [listenPriority, hsig, arbHandleSack, hsack, hass, hout, negateBusGrant,
      Bool.not_false, Bool.and_self, if_true]
  have hnone : (Lane.word v.right).count .bgOff = 0 := h.grants false
  rw [hturn] at hhandover ⊢
  refine ⟨.negated k, hhandover, rfl, by simp, fun b => ?_, fun b => ?_, h.holder,
    fun j => (h.master j).trans (by simp), h.inChain, fun j hj g hg => ?_, ?_⟩
  · have hold := h.grants b
    simp only [Lane.word, Option.toList_some, List.map_append, List.count_append] at hold ⊢
    rw [hold]
    cases b <;> rfl
  · cases b with
    | true =>
      change (Lane.word l).count .sackOn + 1 = 1 at hacks
      change (Lane.word l).count .sackOn = 0
      omega
    | false =>
      have hold : (Lane.word v.left).count .sackOff = 0 := h.acks false
      rw [hword, List.count_cons_of_ne (by decide)] at hold
      exact hold
  · -- the new negated grant, at the first device
    rcases List.mem_append.mp hg with hg | hg
    · have hmem : Line.bgOff ∈ Lane.word v.right := List.mem_map.mpr ⟨_, hg, rfl⟩
      exact absurd hmem (List.count_eq_zero.mp hnone)
    · obtain rfl : g = 1 := by simpa using hg
      exact (h.inChain j hj).1
  · refine h.asked.mono (fun _ => rfl) ?_ fun g hg => List.mem_append_left _ hg
    rw [requests, requests, hword, List.count_cons_of_ne (by decide)]

/-- The arbiter takes the negated SACK. -/
theorem Served.arbSackOff (h : Served n v ph) {m : PrReq} {l : Lane}
    (hl : v.left = (0, m.line) :: l) (hline : m.line = .sackOff)
    (hhandover : ∃ st, Handover n ⟨(listenPriority v.arb m).1, v.dev, l,
      v.right ++ ((listenPriority v.arb m).2.toList.map fun x => (1, x))⟩ st) :
    ∃ ph', Served n ⟨(listenPriority v.arb m).1, v.dev, l,
      v.right ++ ((listenPriority v.arb m).2.toList.map fun x => (1, x))⟩ ph' := by
  obtain ⟨hsig, hass⟩ := Prod.mk.inj hline
  have hword : Lane.word v.left = .sackOff :: Lane.word l := by simp [Lane.word, hl, hline]
  have hacks : (Lane.word v.left).count .sackOff = ph.acks false := h.acks false
  rw [hword, List.count_cons_self] at hacks
  have hpos : 0 < ph.acks false := by omega
  obtain rfl := Phase.eq_released hpos
  have hsack : v.arb.sack = true := h.sack
  have hturn : listenPriority v.arb m = ({ v.arb with sack := false }, none) := by
    simp only [listenPriority, hsig, arbHandleSack, hsack, hass, Bool.not_true,
      Bool.false_eq_true, if_false, Bool.not_false, Bool.and_self, if_true]
  rw [hturn] at hhandover ⊢
  simp only [Option.toList_none, List.map_nil, List.append_nil] at hhandover ⊢
  refine ⟨.idle, hhandover, rfl, by simp, h.grants, fun b => ?_, h.holder,
    fun j => (h.master j).trans (by simp), by simp [Phase.holder], by simp [Phase.holder], ?_⟩
  · cases b with
    | true =>
      have hold : (Lane.word v.left).count .sackOn = 0 := h.acks true
      rw [hword, List.count_cons_of_ne (by decide)] at hold
      exact hold
    | false =>
      change (Lane.word l).count .sackOff + 1 = 1 at hacks
      change (Lane.word l).count .sackOff = 0
      omega
  · refine h.asked.mono (fun _ => rfl) ?_ fun g hg => hg
    rw [requests, requests, hword, List.count_cons_of_ne (by decide)]

/-- The arbiter takes a BBSY. -/
theorem Served.arbBbsy (h : Served n v ph) {m : PrReq} {l : Lane}
    (hl : v.left = (0, m.line) :: l) (hsig : m.sig = .bbsy)
    (hhandover : ∃ st, Handover n ⟨(listenPriority v.arb m).1, v.dev, l,
      v.right ++ ((listenPriority v.arb m).2.toList.map fun x => (1, x))⟩ st) :
    ∃ ph', Served n ⟨(listenPriority v.arb m).1, v.dev, l,
      v.right ++ ((listenPriority v.arb m).2.toList.map fun x => (1, x))⟩ ph' := by
  have hturn : (listenPriority v.arb m).2 = none ∧
      (listenPriority v.arb m).1.sack = v.arb.sack ∧
      (listenPriority v.arb m).1.outstandingBg = v.arb.outstandingBg := by
    simp only [listenPriority, hsig, arbHandleBbsy]
    split_ifs <;> exact ⟨rfl, rfl, rfl⟩
  obtain ⟨hnone, hsack, hout⟩ := hturn
  rw [hnone] at hhandover ⊢
  -- BBSY apart, the lane is as it was
  have hne (x : Line) (hx : x.1 ≠ .bbsy) : SameOn x v.left l := by
    have hxm : m.line ≠ x := fun he => hx (he ▸ hsig)
    simp [SameOn, hl, hxm]
  refine ⟨ph, h.keep hhandover hsack hout (fun _ => ⟨rfl, rfl⟩)
    (fun b => (hne (.sack, b) (by simp)).count) (fun b => by simp [SameOn])
    (h.asked.mono (fun _ => rfl) ?_ fun g hg => ?_)⟩
  · exact (hne .br (by decide)).count.ge
  · simpa using hg

/-- What a device takes note of in passing does not matter here. -/
theorem update_see (dev : ℕ → Device) (i : ℕ) (x : Line) (j : ℕ) :
    (Function.update dev i ((dev i).see x) j).brIssued = (dev j).brIssued ∧
      (Function.update dev i ((dev i).see x) j).sackAsserted = (dev j).sackAsserted ∧
      (Function.update dev i ((dev i).see x) j).isMaster = (dev j).isMaster := by
  by_cases hj : j = i
  · subst hj
    rw [Function.update_self, Device.see]
    split <;> simp
  · simp [hj]

/-- Every move keeps the invariant. -/
theorem Served.move (h : Served n v ph) (hmove : Move n (Ready n v) v v') :
    ∃ ph', Served n v' ph' := by
  obtain ⟨st, hst⟩ := h.handover
  have hhandover : ∃ st', Handover n v' st' := hst.move hmove
  cases hmove with
  | flags i d hd =>
    have hdev (j : ℕ) : (Function.update v.dev i d j).brIssued = (v.dev j).brIssued ∧
        (Function.update v.dev i d j).sackAsserted = (v.dev j).sackAsserted ∧
        (Function.update v.dev i d j).isMaster = (v.dev j).isMaster := by
      by_cases hj : j = i
      · subst hj
        simp [hd.br, hd.sack, hd.master]
      · simp [hj]
    exact ⟨ph, h.keep hhandover rfl rfl (fun j => (hdev j).2) (fun _ => rfl) (fun _ => rfl)
      (h.asked.mono (fun j => (hdev j).1) le_rfl fun g hg => hg)⟩
  | request i l r h1 hn hbbsy hl hr => exact ⟨ph, h.request hhandover hl hr⟩
  | release i l r h1 hn hmaster hl hr => exact ⟨.released, h.release hmaster hhandover hl hr⟩
  | hopLeft i x l h1 hn hl =>
    refine ⟨ph, h.keep hhandover rfl rfl (fun j => (update_see v.dev i x j).2) (fun b => ?_)
      (fun _ => rfl) (h.asked.mono (fun j => (update_see v.dev i x j).1) ?_ fun g hg => hg)⟩
    · exact congrArg (List.count _) hl.word_eq
    · exact (congrArg (List.count _) hl.word_eq).ge
  | hopRight i x r h1 hn hx hr =>
    have hright (b : Bool) : SameOn (.bg, b) v.right r := hr.sameOn fun he => hx (he ▸ rfl)
    exact ⟨ph, h.keep hhandover rfl rfl (fun j => (update_see v.dev i x j).2) (fun _ => rfl) hright
      (h.asked.mono (fun j => (update_see v.dev i x j).1) le_rfl
        fun g => ((hright true).mem_iff g).mpr)⟩
  | passGrant i b r h1 hn hbr hsack hr => exact h.passGrant hn hbr hsack hhandover hr
  | ackGrant i l r h1 hn hbr hr hl => exact ⟨.acked i, h.ackGrant h1 hn hbr hhandover hr hl⟩
  | ownBus i l r r' h1 hn hsack hbbsy hr hl hr' =>
    exact ⟨.owned i, h.ownBus hsack hhandover hr hl hr'⟩
  | missBus i r h1 hn hsack hbbsy hr =>
    rw [hst.not_bbsy_of_grant h1 hn hr] at hbbsy
    cases hbbsy
  | arb m l hl hok =>
    have hline := hst.shape.line (x := m.line) (by simp [Lane.word, hl])
    rcases hline with hline | hline | hline | hline | hline
    · exact h.arbBr hl hline (hok (congrArg Prod.fst hline)) hhandover
    · exact h.arbSackOn hl hline hhandover
    · exact h.arbSackOff hl hline hhandover
    · exact h.arbBbsy hl (congrArg Prod.fst hline) hhandover
    · exact h.arbBbsy hl (congrArg Prod.fst hline) hhandover

end Moves

/-! ### Whole runs -/

section Runs

variable {n : ℕ}

theorem ready_of_noneAcquiring {s : System} (h : NoneAcquiring n s) : Ready n (s.view n) := by
  obtain ⟨hsack, hnone⟩ := h
  refine .inl ⟨hsack, fun hm => ?_, fun hm => ?_⟩
  · obtain ⟨⟨g, x⟩, he, rfl⟩ := List.mem_map.mp hm
    obtain ⟨hpath, hmem⟩ := Mailboxes.mem_stream.mp he
    obtain ⟨m, hm, hline⟩ := List.mem_map.mp hmem
    have hrange := List.mem_range'_1.mp (List.mem_reverse.mp hpath)
    exact (hnone g (by omega) m (List.mem_filter.mp hm).1).1 hline
  · obtain ⟨⟨g, x⟩, he, rfl⟩ := List.mem_map.mp hm
    obtain ⟨hpath, hmem⟩ := Mailboxes.mem_stream.mp he
    obtain ⟨m, hm, hline⟩ := List.mem_map.mp hmem
    have hrange := List.mem_range.mp hpath
    exact (hnone g (by omega) m (List.mem_filter.mp hm).1).2 hline

theorem served_step {s : System} {a : Act} (h : ∃ ph, Served n (s.view n) ph)
    (ha : a.Fifo ∧ Heeded n s a) : ∃ ph, Served n ((step n a s).view n) ph := by
  obtain ⟨ph, h⟩ := h
  obtain ⟨st, hst⟩ := h.handover
  refine h.move (step_move hst.regular ha.1 fun m rest harb hq hsig => ?_)
  rcases ha.2 harb m (by rw [hq]; rfl) hsig with hnone | hspare
  · exact ready_of_noneAcquiring hnone
  · exact .inr hspare

/-- **No bus request is forgotten** where the arbiter heeds every request it
    takes.  With no message in flight and no device master, the arbiter's SACK
    is negated and no device waits or holds SACK. -/
theorem no_request_forgotten {as : List Act} (has : ∀ a ∈ as, a.Fifo)
    (hheed : RunMeets (step n) (Heeded n) as initSystem)
    (hquiet : ∀ i ≤ n, (reach n as).queue i = [])
    (hmaster : ∀ i, 1 ≤ i → i ≤ n → ((reach n as).dev i).isMaster = false) :
    (reach n as).arb.sack = NEGATED ∧ ∀ i, 1 ≤ i → i ≤ n →
      ((reach n as).dev i).brIssued = false ∧ ((reach n as).dev i).sackAsserted = false := by
  obtain ⟨ph, h⟩ : ∃ ph, Served n ((reach n as).view n) ph :=
    runActs_invariant_of_meets (fun s a => served_step) as initSystem ⟨.idle, served_init n⟩
      ((RunMeets.of_forall has initSystem).and hheed)
  -- with both lanes empty every phase but two is out
  obtain ⟨hleft, hright⟩ := lanes_of_quiet hquiet
  have hgrants (b : Bool) : 0 = ph.grants b := by
    rw [← h.grants b, System.view, hright]
    rfl
  have hacks (b : Bool) : 0 = ph.acks b := by
    rw [← h.acks b, System.view, hleft]
    rfl
  obtain rfl : ph = .idle := by
    cases ph with
    | idle => rfl
    | granted => exact absurd (hgrants true) (by simp [Phase.grants])
    | acked i => exact absurd (hacks true) (by simp [Phase.acks])
    | negated i => exact absurd (hgrants false) (by simp [Phase.grants])
    | owned i =>
      obtain ⟨h1, hn⟩ := h.inChain i rfl
      have hi : ((reach n as).dev i).isMaster = true := (h.master i).mpr rfl
      rw [hmaster i h1 hn] at hi
      cases hi
    | released => exact absurd (hacks false) (by simp [Phase.acks])
  refine ⟨h.sack, fun i h1 hn => ⟨?_, ?_⟩⟩
  · -- nobody waits without a request in flight
    rw [← Bool.not_eq_true]
    intro hbr
    have hwait : 0 < waiting n (reach n as).dev := waiting_pos h1 hn hbr
    rcases h.asked with hasked | ⟨-, g, -, hg, -⟩
    · simp only [System.view, hleft, requests, Lane.word, List.map_nil, List.count_nil] at hasked
      omega
    · simp only [System.view, hright, List.not_mem_nil] at hg
  · rw [← Bool.not_eq_true]
    intro hheld
    exact absurd ((h.holder i).mp hheld) (by simp [Phase.holder])

/-- Device 1 asks for the bus, gets it and gives it back. -/
abbrev oneRequest : List Act :=
  [.setReq 1 true, .poll 1, .arb 0, .event 1 0, .arb 0, .event 1 0, .arb 0, .setRel 1 true, .poll 1,
    .arb 0, .arb 0]

theorem no_request_forgotten_one :
    (reach 1 oneRequest).arb.sack = NEGATED ∧ ∀ i, 1 ≤ i → i ≤ 1 →
      ((reach 1 oneRequest).dev i).brIssued = false ∧
        ((reach 1 oneRequest).dev i).sackAsserted = false :=
  no_request_forgotten (by decide) (by decide) (by decide) fun i h1 hn => by
    obtain rfl : i = 1 := le_antisymm hn h1
    rfl

/-- Device 2 asks for the bus while device 1 is about to get it. -/
abbrev twoRequests : List Act :=
  [.setReq 1 true, .setReq 2 true, .poll 1, .arb 0, .event 1 0, .poll 2, .arb 0, .event 1 0,
    .event 1 0, .arb 0, .arb 0, .event 2 0, .event 2 0, .setRel 1 true, .poll 1, .arb 0, .arb 0,
    .event 2 0, .event 2 0]

/-- Its BR finds the arbiter's SACK up and is dropped: device 2 waits for ever. -/
theorem dropped_request :
    (∀ a ∈ twoRequests, a.Fifo) ∧ (∀ i ≤ 2, (reach 2 twoRequests).queue i = []) ∧
      (∀ i ≤ 2, ((reach 2 twoRequests).dev i).isMaster = false) ∧
      ((reach 2 twoRequests).dev 2).brIssued = true := by
  decide

end Runs

end XMachine.Unibus
