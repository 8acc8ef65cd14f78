import Mathlib.Tactic.IntervalCases
import XMachine.Lib.Fairness
import XMachine.Unibus.Sockets

namespace XMachine.Unibus.Sockets

open XMachine.Lib

/-!
# Travel — one message along the chain

A device sends a line to both sides and every other device passes it on.  The
copies of one message are followed here among everything else that is queued at
the sockets: which node takes what next is open, and so are the flags of the
device that takes it.

The copy moving to the left is always at the neighbour of the last node that took
one, and so is the copy moving to the right (`Travelled`); what lies between the
two has taken the message once.
-/

/-- The datagrams queued at every path, the copies of the message that is
    followed marked; `heard` lists the nodes that took one. -/
structure Net where
  queue : CString → List (PrReq × Bool)
  heard : List ℕ

/-- What can happen next. -/
inductive Delivery
  /-- Device `i`, its flags being `d`, takes the `k`-th datagram queued at its path. -/
  | device (i k : ℕ) (d : Device)
  /-- The arbiter takes the `k`-th datagram queued at its path. -/
  | arbiter (k : ℕ)
  /-- Some node sends something else to the path `p`. -/
  | other (p : CString) (req : PrReq)

namespace Net

def push (t : Net) (p : CString) (e : PrReq × Bool) : Net :=
  { t with queue := Function.update t.queue p (t.queue p ++ [e]) }

/-- Queue datagrams, all of them marked or none. -/
def send (t : Net) (mark : Bool) : Outbox → Net
  | [] => t
  | (p, req) :: out => (t.push p (req, mark)).send mark out

def take (t : Net) (p : CString) (k : ℕ) : Net :=
  { t with queue := Function.update t.queue p ((t.queue p).eraseIdx k) }

def hear (t : Net) (i : ℕ) : Net := { t with heard := t.heard ++ [i] }

/-- The copies of the message queued at `p`. -/
def copies (t : Net) (p : CString) : List PrReq := ((t.queue p).filter Prod.snd).map Prod.fst

end Net

/-- One delivery in a chain of `n` devices.  A device that takes a copy passes
    it on with its handler; what it sends for any other datagram comes as
    `other`.  The arbiter passes nothing on. -/
def deliver (n : ℕ) (dev : ℕ → BusNames) : Delivery → Net → Net
  | .device i k d, t =>
    if 1 ≤ i ∧ i ≤ n then
      match (t.queue (nodePath dev i))[k]? with
      | none => t
      | some (_, false) => t.take (nodePath dev i) k
      | some (req, true) =>
        ((t.take (nodePath dev i) k).send true
          (processPrEvents (initPrState (dev i)) d req).2).hear i
    else t
  | .arbiter k, t =>
    match (t.queue (nodePath dev 0))[k]? with
    | none => t
    | some (_, false) => t.take (nodePath dev 0) k
    | some (_, true) => (t.take (nodePath dev 0) k).hear 0
  | .other p req, t => t.push p (req, false)

/-- The results of the four functions that send a line of the device's own. -/
def originations (pr : PrState) (d : Device) : List (Device × Outbox) :=
  [assertBr pr d, assertBbsy pr d, negateSack pr d, negateBbsy pr d]

/-! ### Copies -/

section Copies

variable {t : Net} {p p' : CString} {req : PrReq} {k : ℕ}

theorem copies_push_other : (t.push p (req, false)).copies p' = t.copies p' := by
  by_cases h : p' = p
  · subst h
    simp [Net.copies, Net.push]
  · simp [Net.copies, Net.push, h]

theorem copies_push_self : (t.push p (req, true)).copies p = t.copies p ++ [req] := by
  simp [Net.copies, Net.push]

theorem copies_push_of_ne {m : Bool} (h : p' ≠ p) :
    (t.push p (req, m)).copies p' = t.copies p' := by
  simp [Net.copies, Net.push, h]

theorem copies_take_of_ne (h : p' ≠ p) : (t.take p k).copies p' = t.copies p' := by
  simp [Net.copies, Net.take, h]

/-- The queue at `p` around its `k`-th entry. -/
theorem queue_split {e : PrReq × Bool} (h : (t.queue p)[k]? = some e) :
    ∃ u w, t.queue p = u ++ e :: w ∧ (t.take p k).queue p = u ++ w := by
  obtain ⟨hk, rfl⟩ := List.getElem?_eq_some_iff.mp h
  refine ⟨(t.queue p).take k, (t.queue p).drop (k + 1), ?_, ?_⟩
  · rw [← List.drop_eq_getElem_cons hk, List.take_append_drop]
  · rw [← List.eraseIdx_eq_take_drop_succ]
    exact Function.update_self _ _ _

theorem copies_take_other (h : (t.queue p)[k]? = some (req, false)) :
    (t.take p k).copies p' = t.copies p' := by
  by_cases hp : p' = p
  · subst hp
    obtain ⟨u, w, hq, hq'⟩ := queue_split h
    simp [Net.copies, hq, hq']
  · exact copies_take_of_ne hp

/-- The only copy queued at `p` is taken. -/
theorem copies_take_copy {req' : PrReq} (h : (t.queue p)[k]? = some (req, true))
    (hcopies : t.copies p = [req']) : req = req' ∧ (t.take p k).copies p = [] := by
  obtain ⟨u, w, hq, hq'⟩ := queue_split h
  rw [Net.copies, hq, List.filter_append, List.filter_cons_of_pos (by rfl), List.map_append,
    List.map_cons] at hcopies
  rw [Net.copies, hq', List.filter_append, List.map_append]
  rcases List.append_eq_cons_iff.mp hcopies with ⟨hu, hw⟩ | ⟨v, -, hv⟩
  · obtain ⟨hreq, hw⟩ := List.cons.inj hw
    exact ⟨hreq, by rw [hu, hw, List.append_nil]⟩
  · simp at hv

theorem mem_copies_of_getElem? (h : (t.queue p)[k]? = some (req, true)) : req ∈ t.copies p :=
  List.mem_map.mpr ⟨_, List.mem_filter.mpr ⟨List.mem_of_getElem? h, rfl⟩, rfl⟩

theorem heard_send (m : Bool) (out : Outbox) (t : Net) : (t.send m out).heard = t.heard := by
  induction out generalizing t with
  | nil => rfl
  | cons e out ih => exact ih (t.push e.1 (e.2, m))

/-- Nothing queued is a copy. -/
def Net.Quiet (t : Net) : Prop := ∀ p, ∀ e ∈ t.queue p, e.2 = false

theorem quiet_iff : t.Quiet ↔ ∀ p, t.copies p = [] := by
  simp only [Net.Quiet, Net.copies, List.map_eq_nil_iff, List.filter_eq_nil_iff, Bool.not_eq_true]

end Copies

/-! ### The invariant -/

section Message

variable {n k i j a c : ℕ} {dev : ℕ → BusNames} {sig : Signal} {b : Bool} {t : Net}

/-- The message as node `i` sends it. -/
def copy (dev : ℕ → BusNames) (sig : Signal) (b : Bool) (i : ℕ) : PrReq := real dev ⟨i, sig, b⟩

/-- The message of device `k` has been taken by the nodes from `a` to `c`. -/
structure Travelled (n : ℕ) (dev : ℕ → BusNames) (sig : Signal) (b : Bool) (k a c : ℕ) (t : Net) :
    Prop where
  left : a ≤ k
  right : k ≤ c
  last : c ≤ n
  leftCopy : 0 < a → t.copies (nodePath dev (a - 1)) = [copy dev sig b a]
  rightCopy : c < n → t.copies (nodePath dev (c + 1)) = [copy dev sig b c]
  noCopy : ∀ p, (0 < a → p ≠ nodePath dev (a - 1)) → (c < n → p ≠ nodePath dev (c + 1)) →
    t.copies p = []
  once : t.heard.Nodup
  heard : ∀ j, j ∈ t.heard ↔ a ≤ j ∧ j < k ∨ k < j ∧ j ≤ c
  hops : t.heard.length = c - a

/-- BR, SACK and BBSY are passed on whatever the flags of the device are. -/
theorem processPrEvents_pass (pr : PrState) (d : Device) {req : PrReq}
    (h : req.sig = .br ∨ req.sig = .sack ∨ req.sig = .bbsy) :
    (processPrEvents pr d req).2 = pass pr req := by
  rcases h with h | h | h <;> rw [processPrEvents, h] <;> rfl

/-- Only something else was queued or taken. -/
theorem Travelled.congr {t' : Net} (T : Travelled n dev sig b k a c t)
    (hcopies : ∀ p, t'.copies p = t.copies p) (hheard : t'.heard = t.heard) :
    Travelled n dev sig b k a c t' where
  left := T.left
  right := T.right
  last := T.last
  leftCopy h := (hcopies _).trans (T.leftCopy h)
  rightCopy h := (hcopies _).trans (T.rightCopy h)
  noCopy p hl hr := (hcopies p).trans (T.noCopy p hl hr)
  once := hheard ▸ T.once
  heard := hheard ▸ T.heard
  hops := hheard ▸ T.hops

/-- A copy is queued next to the nodes that have taken the message. -/
theorem Travelled.copy_at (T : Travelled n dev sig b k a c t) (C : Chained n dev) (hi : i ≤ n)
    {req : PrReq} (h : req ∈ t.copies (nodePath dev i)) :
    0 < a ∧ i = a - 1 ∨ c < n ∧ i = c + 1 := by
  have hle := T.left.trans (T.right.trans T.last)
  by_contra hne
  -- elsewhere in the chain there is no copy
  have hnil := T.noCopy (nodePath dev i)
    (fun ha hp => hne (.inl ⟨ha, (C.wired.nodePath_inj hi (by omega)).mp hp⟩))
    (fun hc hp => hne (.inr ⟨hc, (C.wired.nodePath_inj hi (by omega)).mp hp⟩))
  rw [hnil] at h
  cases h

/-- A node next to those that have taken the message takes it too. -/
theorem Travelled.hear_next (T : Travelled n dev sig b k a c t) {a' c' : ℕ} {t' : Net}
    (hheard : t'.heard = t.heard ++ [i])
    (hnext : 0 < a ∧ i = a - 1 ∧ a' = i ∧ c' = c ∨ i = c + 1 ∧ a' = a ∧ c' = i) :
    t'.heard.Nodup ∧ (∀ j, j ∈ t'.heard ↔ a' ≤ j ∧ j < k ∨ k < j ∧ j ≤ c') ∧
      t'.heard.length = c' - a' := by
  have hak := T.left
  have hkc := T.right
  rw [hheard]
  refine ⟨List.nodup_append.mpr ⟨T.once, List.nodup_singleton _, ?_⟩, fun j => ?_, ?_⟩
  · -- the nodes that have heard it before lie between `a` and `c`
    intro j hj j' hj'
    rw [List.mem_singleton.mp hj']
    have := (T.heard j).mp hj
    omega
  · rw [List.mem_append, List.mem_singleton, T.heard j]
    omega
  · rw [List.length_append, T.hops, List.length_singleton]
    omega

/-- The left neighbour has taken its copy and sends `out`. -/
theorem Travelled.hopLeft (T : Travelled n dev sig b k a c t) (C : Chained n dev) (ha : 0 < a)
    {m : ℕ} {req : PrReq} (htake : (t.queue (nodePath dev (a - 1)))[m]? = some (req, true))
    {t' : Net} (hheard : t'.heard = t.heard ++ [a - 1])
    (hsent : 0 < a - 1 → t'.copies (nodePath dev (a - 1 - 1))
      = (t.take (nodePath dev (a - 1)) m).copies (nodePath dev (a - 1 - 1)) ++
        [copy dev sig b (a - 1)])
    (hrest : ∀ p, (0 < a - 1 → p ≠ nodePath dev (a - 1 - 1)) →
      t'.copies p = (t.take (nodePath dev (a - 1)) m).copies p) :
    Travelled n dev sig b k (a - 1) c t' := by
  have hle := T.left.trans (T.right.trans T.last)
  have hak := T.left
  have hkc := T.right
  have hne : ∀ {j}, j ≤ n → j ≠ a - 1 → nodePath dev j ≠ nodePath dev (a - 1) := fun hj hja hp =>
    hja ((C.wired.nodePath_inj hj (by omega)).mp hp)
  have hold : ∀ p, p ≠ nodePath dev (a - 1) → (c < n → p ≠ nodePath dev (c + 1)) →
      (t.take (nodePath dev (a - 1)) m).copies p = [] := fun p hp hr =>
    (copies_take_of_ne hp).trans (T.noCopy p (fun _ => hp) hr)
  -- at the left end the copy just taken was the only one
  have hnil := (copies_take_copy htake (T.leftCopy ha)).2
  obtain ⟨honce, hwho, hhops⟩ := T.hear_next hheard (.inl ⟨ha, rfl, rfl, rfl⟩)
  refine ⟨by omega, T.right, T.last, fun ha' => ?_, fun hc => ?_, fun p hl hr => ?_, honce, hwho,
    hhops⟩
  · rw [hsent ha', hold _ (hne (by omega) (by omega)), List.nil_append]
    intro hc hp
    have := (C.wired.nodePath_inj (by omega) (by omega)).mp hp
    omega
  · rw [hrest, copies_take_of_ne (hne (by omega) (by omega))]
    · exact T.rightCopy hc
    · intro ha' hp
      have := (C.wired.nodePath_inj (by omega) (by omega)).mp hp
      omega
  · rw [hrest p hl]
    by_cases hp : p = nodePath dev (a - 1)
    · rw [hp]
      exact hnil
    · exact hold p hp hr

/-- The right neighbour has taken its copy and sends it on, if it has a neighbour. -/
theorem Travelled.hopRight (T : Travelled n dev sig b k a c t) (C : Chained n dev) (hc : c < n)
    {m : ℕ} {req : PrReq} (htake : (t.queue (nodePath dev (c + 1)))[m]? = some (req, true))
    {t' : Net} (hheard : t'.heard = t.heard ++ [c + 1])
    (hsent : c + 1 < n → t'.copies (nodePath dev (c + 1 + 1))
      = (t.take (nodePath dev (c + 1)) m).copies (nodePath dev (c + 1 + 1)) ++
        [copy dev sig b (c + 1)])
    (hrest : ∀ p, (c + 1 < n → p ≠ nodePath dev (c + 1 + 1)) →
      t'.copies p = (t.take (nodePath dev (c + 1)) m).copies p) :
    Travelled n dev sig b k a (c + 1) t' := by
  have hak := T.left
  have hkc := T.right
  have hne : ∀ {j}, j ≤ n → j ≠ c + 1 → nodePath dev j ≠ nodePath dev (c + 1) := fun hj hjc hp =>
    hjc ((C.wired.nodePath_inj hj (by omega)).mp hp)
  have hold : ∀ p, p ≠ nodePath dev (c + 1) → (0 < a → p ≠ nodePath dev (a - 1)) →
      (t.take (nodePath dev (c + 1)) m).copies p = [] := fun p hp hl =>
    (copies_take_of_ne hp).trans (T.noCopy p hl fun _ => hp)
  -- at the right end the copy just taken was the only one
  have hnil := (copies_take_copy htake (T.rightCopy hc)).2
  obtain ⟨honce, hwho, hhops⟩ := T.hear_next hheard (.inr ⟨rfl, rfl, rfl⟩)
  refine ⟨T.left, by omega, by omega, fun ha => ?_, fun hc' => ?_, fun p hl hr => ?_, honce, hwho,
    hhops⟩
  · rw [hrest, copies_take_of_ne (hne (by omega) (by omega))]
    · exact T.leftCopy ha
    · intro hc' hp
      have := (C.wired.nodePath_inj (by omega) (by omega)).mp hp
      omega
  · rw [hsent hc', hold _ (hne (by omega) (by omega)), List.nil_append]
    intro ha hp
    have := (C.wired.nodePath_inj (by omega) (by omega)).mp hp
    omega
  · rw [hrest p hr]
    by_cases hp : p = nodePath dev (c + 1)
    · rw [hp]
      exact hnil
    · exact hold p hp hl

/-- One delivery takes the message one node further, or nowhere. -/
theorem Travelled.deliver (T : Travelled n dev sig b k a c t) (C : Chained n dev)
    (hsig : sig = .br ∨ sig = .sack ∨ sig = .bbsy) (x : Delivery) :
    ∃ a' c', Travelled n dev sig b k a' c' (deliver n dev x t) := by
  have hak := T.left
  have hkc := T.right
  have hcn := T.last
  cases x with
  | other p req => exact ⟨a, c, T.congr (fun _ => copies_push_other) rfl⟩
  | arbiter m =>
    simp only [Sockets.deliver]
    split
    · exact ⟨a, c, T⟩
    · next hreq => exact ⟨a, c, T.congr (fun _ => copies_take_other hreq) rfl⟩
    · next req hreq =>
      rcases T.copy_at C (Nat.zero_le n) (mem_copies_of_getElem? hreq) with ⟨ha, ha'⟩ | ⟨-, hc'⟩
      · -- the copy has reached the end of the chain
        obtain rfl : a = 1 := by omega
        refine ⟨0, c, T.hopLeft C Nat.one_pos hreq rfl (fun h => absurd h (lt_irrefl 0)) ?_⟩
        exact fun p _ => rfl
      · omega
  | device i m d =>
    simp only [Sockets.deliver]
    split
    · next hi =>
      split
      · exact ⟨a, c, T⟩
      · next hreq => exact ⟨a, c, T.congr (fun _ => copies_take_other hreq) rfl⟩
      · next req hreq =>
        rcases T.copy_at C hi.2 (mem_copies_of_getElem? hreq) with ⟨ha, rfl⟩ | ⟨hc, rfl⟩
        · have hcopy := (copies_take_copy hreq (T.leftCopy ha)).1
          -- what came from the right goes on to the left
          have hsends : (processPrEvents (initPrState (dev (a - 1))) d req).2
              = [(nodePath dev (a - 1 - 1), copy dev sig b (a - 1))] := by
            rw [processPrEvents_pass _ _ (by rw [hcopy]; exact hsig), hcopy, copy,
              pass_chain C.wired hi.1 hi.2 _ (by show a ≤ n; omega),
              pass_left (by omega) (by show a ≠ a - 1 - 1; omega)]
            rfl
          refine ⟨a - 1, c, T.hopLeft C ha hreq ?_ (fun _ => ?_) fun p hp => ?_⟩
          · exact congrArg (· ++ [a - 1]) (heard_send _ _ _)
          · rw [hsends]
            exact copies_push_self
          · rw [hsends]
            exact copies_push_of_ne (hp (by omega))
        · have hcopy := (copies_take_copy hreq (T.rightCopy hc)).1
          -- what came from the left goes on to the right, or ends at the last device
          have hsends : (processPrEvents (initPrState (dev (c + 1))) d req).2
              = if c + 1 < n then [(nodePath dev (c + 1 + 1), copy dev sig b (c + 1))] else [] := by
            rw [processPrEvents_pass _ _ (by rw [hcopy]; exact hsig), hcopy, copy,
              pass_chain C.wired hi.1 hi.2 _ (by show c ≤ n; omega)]
            split
            · next hlt =>
              rw [pass_right hlt rfl]
              rfl
            · next hge =>
              rw [pass_last hge]
              rfl
          refine ⟨a, c + 1, T.hopRight C hc hreq ?_ (fun hlt => ?_) fun p hp => ?_⟩
          · exact congrArg (· ++ [c + 1]) (heard_send _ _ _)
          · rw [hsends, if_pos hlt]
            exact copies_push_self
          · rw [hsends]
            split
            · next hlt => exact copies_push_of_ne (hp hlt)
            · rfl
    · exact ⟨a, c, T⟩

/-- What the origin sends to its neighbours. -/
theorem copies_broadcast (C : Chained n dev) (h1 : 1 ≤ k) (hn : k ≤ n) (hnil : ∀ p, t.copies p = [])
    (p : CString) :
    (t.send true (broadcast (initPrState (dev k)) sig b)).copies p
      = if p = nodePath dev (k - 1) then [copy dev sig b k]
        else if k < n ∧ p = nodePath dev (k + 1) then [copy dev sig b k] else [] := by
  have hleft : ∀ p, (t.push (nodePath dev (k - 1)) (copy dev sig b k, true)).copies p
      = if p = nodePath dev (k - 1) then [copy dev sig b k] else [] := by
    intro p
    split
    · next hp => rw [hp, copies_push_self, hnil, List.nil_append]
    · next hp => rw [copies_push_of_ne hp, hnil]
  rw [broadcast_chain C.wired h1 hn, broadcast_wiring]
  by_cases hlt : k < n
  · have hne : nodePath dev (k + 1) ≠ nodePath dev (k - 1) := fun hp => by
      have := (C.wired.nodePath_inj (by omega) (by omega)).mp hp
      omega
    rw [if_pos hlt]
    show ((t.push (nodePath dev (k - 1)) (copy dev sig b k, true)).push (nodePath dev (k + 1))
      (copy dev sig b k, true)).copies p = _
    by_cases hp : p = nodePath dev (k + 1)
    · rw [hp, copies_push_self, hleft, if_neg hne, if_neg hne, if_pos ⟨hlt, rfl⟩,
        List.nil_append]
    · rw [copies_push_of_ne hp, hleft, if_neg (c := k < n ∧ _) fun h => hp h.2]
  · rw [if_neg hlt, if_neg (c := k < n ∧ _) fun h => hlt h.1]
    exact hleft p

/-- Device `k` has sent its line to both sides. -/
theorem travelled_send (C : Chained n dev) (h1 : 1 ≤ k) (hn : k ≤ n) (hq : t.Quiet)
    (hheard : t.heard = []) :
    Travelled n dev sig b k k k (t.send true (broadcast (initPrState (dev k)) sig b)) := by
  have hcopies : ∀ p, (t.send true (broadcast (initPrState (dev k)) sig b)).copies p = _ :=
    copies_broadcast C h1 hn (quiet_iff.mp hq)
  refine ⟨le_refl k, le_refl k, hn, fun _ => ?_, fun hlt => ?_, fun p hl hr => ?_, ?_, ?_, ?_⟩
  · rw [hcopies, if_pos rfl]
  · have hne : nodePath dev (k + 1) ≠ nodePath dev (k - 1) := fun hp => by
      have := (C.wired.nodePath_inj (by omega) (by omega)).mp hp
      omega
    rw [hcopies, if_neg hne, if_pos ⟨hlt, rfl⟩]
  · rw [hcopies, if_neg (hl (by omega)), if_neg fun h => hr h.1 h.2]
  · rw [heard_send, hheard]
    exact List.nodup_nil
  · intro j
    rw [heard_send, hheard]
    constructor
    · intro h
      cases h
    · omega
  · rw [heard_send, hheard, Nat.sub_self]
    rfl

end Message

/-! ### Whole runs -/

/-- What device `k` sends of its own is a line that every device passes on. -/
theorem originations_broadcast {pr : PrState} {d : Device} {r : Device × Outbox}
    (h : r ∈ originations pr d) (hsent : r.2 ≠ []) :
    ∃ sig b, (sig = .br ∨ sig = .sack ∨ sig = .bbsy) ∧ r.2 = broadcast pr sig b := by
  simp only [originations, List.mem_cons, List.not_mem_nil, or_false] at h
  rcases h with rfl | rfl | rfl | rfl
  · refine ⟨.br, ASSERTED, .inl rfl, ?_⟩
    unfold assertBr at hsent ⊢
    split at hsent
    · exact absurd rfl hsent
    · next h => rw [if_neg h]
  · refine ⟨.bbsy, ASSERTED, .inr (.inr rfl), ?_⟩
    unfold assertBbsy at hsent ⊢
    split at hsent
    · exact absurd rfl hsent
    · next h => rw [if_neg h]
  · refine ⟨.sack, NEGATED, .inr (.inl rfl), ?_⟩
    unfold negateSack at hsent ⊢
    split at hsent
    · exact absurd rfl hsent
    · next h => rw [if_neg h]
  · refine ⟨.bbsy, NEGATED, .inr (.inr rfl), ?_⟩
    unfold negateBbsy at hsent ⊢
    split at hsent
    · exact absurd rfl hsent
    · next h => rw [if_neg h]

/-- How far the message of device `k` has come in a chain of `n` devices. -/
structure TravelsOnce (n : ℕ) (dev : ℕ → BusNames) (k : ℕ) (t : Net) : Prop where
  /-- No node takes the message twice, and `k` never does. -/
  once : t.heard.Nodup
  others : ∀ j ∈ t.heard, j ≤ n ∧ j ≠ k
  /-- Every copy is queued at a node that has not taken the message. -/
  waiting : ∀ p, ∀ e ∈ t.queue p, e.2 = true →
    ∃ j, j ≤ n ∧ j ≠ k ∧ j ∉ t.heard ∧ p = nodePath dev j
  /-- No copy is queued exactly when all other nodes have taken the message. -/
  all : t.Quiet ↔ ∀ j, j ≤ n → j ≠ k → j ∈ t.heard
  /-- This is after `n` hops, and there are no more. -/
  stops : t.Quiet ↔ t.heard.length = n
  hops : t.heard.length ≤ n

theorem Travelled.travelsOnce {n k a c : ℕ} {dev : ℕ → BusNames} {sig : Signal} {b : Bool} {t : Net}
    (T : Travelled n dev sig b k a c t) : TravelsOnce n dev k t := by
  have hak := T.left
  have hkc := T.right
  have hcn := T.last
  have hquiet : t.Quiet ↔ a = 0 ∧ c = n := by
    rw [quiet_iff]
    constructor
    · intro h
      refine ⟨by_contra fun ha => ?_, by_contra fun hc => ?_⟩
      · have := T.leftCopy (by omega)
        rw [h] at this
        cases this
      · have := T.rightCopy (by omega)
        rw [h] at this
        cases this
    · rintro ⟨rfl, rfl⟩ p
      exact T.noCopy p (fun h => absurd h (lt_irrefl 0)) fun h => absurd h (lt_irrefl c)
  refine ⟨T.once, fun j hj => ?_, fun p e he hmark => ?_, ?_, ?_, ?_⟩
  · have := (T.heard j).mp hj
    omega
  · -- a copy is queued at one of two nodes only
    have hmem : e.1 ∈ t.copies p := List.mem_map.mpr ⟨e, List.mem_filter.mpr ⟨he, hmark⟩, rfl⟩
    by_contra hp
    have hnil := T.noCopy p
      (fun ha hpa => hp ⟨a - 1, by omega, by omega, fun hj => by
        have := (T.heard _).mp hj
        omega, hpa⟩)
      fun hc hpc => hp ⟨c + 1, by omega, by omega, fun hj => by
        have := (T.heard _).mp hj
        omega, hpc⟩
    rw [hnil] at hmem
    cases hmem
  · rw [hquiet]
    constructor
    · rintro ⟨rfl, rfl⟩ j hj hjk
      exact (T.heard j).mpr (by omega)
    · intro h
      refine ⟨by_contra fun ha => ?_, by_contra fun hc => ?_⟩
      · have := (T.heard _).mp (h 0 (by omega) (by omega))
        omega
      · have := (T.heard _).mp (h n (by omega) (by omega))
        omega
  · rw [hquiet, T.hops]
    omega
  · rw [T.hops]
    omega

/-! ### Reaching the ends -/

/-- The delivery is one of a copy. -/
def Takes (n : ℕ) (dev : ℕ → BusNames) : Delivery → Net → Prop
  | .device i k _, t =>
    1 ≤ i ∧ i ≤ n ∧ ∃ req, (t.queue (nodePath dev i))[k]? = some (req, true)
  | .arbiter k, t => ∃ req, (t.queue (nodePath dev 0))[k]? = some (req, true)
  | .other _ _, _ => False

theorem length_heard_hear (t : Net) (i : ℕ) : (t.hear i).heard.length = t.heard.length + 1 :=
  List.length_append

theorem length_heard_of_takes {n : ℕ} {dev : ℕ → BusNames} {x : Delivery} {t : Net}
    (hx : Takes n dev x t) : (deliver n dev x t).heard.length = t.heard.length + 1 := by
  cases x with
  | device i k d =>
    obtain ⟨h1, hn, req, hreq⟩ := hx
    rw [deliver, if_pos ⟨h1, hn⟩, hreq]
    dsimp only
    rw [length_heard_hear, heard_send]
    rfl
  | arbiter k =>
    obtain ⟨req, hreq⟩ := hx
    rw [deliver, hreq]
    exact length_heard_hear _ 0
  | other p req => exact absurd hx id

theorem length_heard_le (n : ℕ) (dev : ℕ → BusNames) (x : Delivery) (t : Net) :
    t.heard.length ≤ (deliver n dev x t).heard.length := by
  cases x with
  | device i k d =>
    rw [deliver]
    split
    · split
      · exact Nat.le_refl _
      · exact Nat.le_refl _
      · rw [length_heard_hear, heard_send]
        exact Nat.le_succ _
    · exact Nat.le_refl _
  | arbiter k =>
    rw [deliver]
    split
    · exact Nat.le_refl _
    · exact Nat.le_refl _
    · rw [length_heard_hear]
      exact Nat.le_succ _
  | other p req => exact Nat.le_refl _

/-- **A line travels the chain exactly once.**  After device `k` has sent a line
    of its own to both sides, whatever else is queued and in whatever order the
    deliveries come, every other node takes the message once, `k` does not, and
    nothing of it is left after `n` hops.  It comes that far if no copy is left
    lying for ever. -/
theorem line_travels_once {n k : ℕ} {dev : ℕ → BusNames} (C : Chained n dev) (h1 : 1 ≤ k)
    (hn : k ≤ n) {d : Device} {r : Device × Outbox}
    (horigin : r ∈ originations (initPrState (dev k)) d) (hsent : r.2 ≠ []) {t : Net}
    (hq : t.Quiet) (hheard : t.heard = []) :
    (∀ xs, TravelsOnce n dev k (runActs (deliver n dev) xs (t.send true r.2))) ∧
    ∀ sched, Progresses (deliver n dev) (Takes n dev) Net.Quiet sched (t.send true r.2) →
      ∃ u, (trace (deliver n dev) sched (t.send true r.2) u).Quiet := by
  obtain ⟨sig, b, hsig, hr⟩ := originations_broadcast horigin hsent
  have hstart : ∃ a c, Travelled n dev sig b k a c (t.send true r.2) :=
    ⟨k, k, hr ▸ travelled_send C h1 hn hq hheard⟩
  have hstep : ∀ t x, (∃ a c, Travelled n dev sig b k a c t) →
      ∃ a c, Travelled n dev sig b k a c (deliver n dev x t) :=
    fun _ x ⟨_, _, T⟩ => T.deliver C hsig x
  refine ⟨fun xs => ?_, fun sched hsched => ?_⟩
  · obtain ⟨a, c, T⟩ := runActs_invariant hstep xs _ hstart
    exact T.travelsOnce
  · -- every copy taken is one hop of the `n`
    refine eventually_of_progress (fun t => n - t.heard.length) hstep
      (fun t x _ => Nat.sub_le_sub_left (length_heard_le n dev x t) n)
      (fun t x hT hx => ?_) hstart hsched
    obtain ⟨a, c, T⟩ := hstep t x hT
    have hhops := T.travelsOnce.hops
    have hlen := length_heard_of_takes hx
    omega

/-- A chain of two devices. -/
def twoDevices : ℕ → BusNames
  | 1 => ⟨some NAME, ['m', 'e', 'm'], some ['d', 'i', 's', 'k']⟩
  | _ => ⟨some ['m', 'e', 'm'], ['d', 'i', 's', 'k'], none⟩

theorem twoDevices_chained : Chained 2 twoDevices where
  first := rfl
  last := rfl
  right i h1 hn := by
    obtain rfl : i = 1 := by omega
    rfl
  left i h1 hn := by
    obtain rfl : i = 1 := by omega
    rfl
  distinct i j hi hj h := by
    interval_cases i <;> interval_cases j <;> first | rfl | exact absurd h (by decide)
  short i hi := by
    interval_cases i <;> decide
  noNul i hi := by
    interval_cases i <;> decide

/-- A request of the first of two devices. -/
theorem line_travels_once_two :
    let t := Net.send ⟨fun _ => [], []⟩ true (assertBr (initPrState (twoDevices 1)) initDevice).2
    (∀ xs, TravelsOnce 2 twoDevices 1 (runActs (deliver 2 twoDevices) xs t)) ∧
    ∀ sched, Progresses (deliver 2 twoDevices) (Takes 2 twoDevices) Net.Quiet sched t →
      ∃ u, (trace (deliver 2 twoDevices) sched t u).Quiet :=
  line_travels_once twoDevices_chained (by decide) (by decide) List.mem_cons_self (by decide)
    (fun _ _ he => absurd he List.not_mem_nil) rfl

end XMachine.Unibus.Sockets
