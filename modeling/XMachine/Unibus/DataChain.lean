import Mathlib.Tactic.IntervalCases
import XMachine.Lib.CString
import XMachine.Lib.Fairness
import XMachine.Lib.Mailboxes
import XMachine.Unibus.DataBus

namespace XMachine.Unibus.DataChain

open XMachine.Lib XMachine.Cpu

/-!
# Data chain — one transfer over a chain of devices

Nodes `1` to `n`, each with the names of its neighbours, an address test and a
device that answers the requests posted to it.  Messages go to both neighbours;
a node takes what is addressed to it and passes nothing on, so a transfer
reaches the next node and no further: `transfer_iff`.

A neighbour whose name begins with `ba` is no neighbour for the data bus.
-/

/-- What the nodes of a chain are. -/
structure Nodes where
  name : ℕ → CString
  /-- `addr_internal_to_device`. -/
  isAddrInternal : ℕ → Option (Addr → Bool)
  /-- The value in the slave mailbox after the device has served a request. -/
  device : ℕ → Xfer → Word

/-- The data bus leaves out neighbours of this kind. -/
def isBa (name : CString) : Bool := strncmpEq 2 name ['b', 'a']

/-- The nodes that node `i` sends to, the left one first. -/
def neighbours (N : Nodes) (n i : ℕ) : List ℕ :=
  (if 1 < i ∧ isBa (N.name (i - 1)) = false then [i - 1] else []) ++
    if i < n ∧ isBa (N.name (i + 1)) = false then [i + 1] else []

/-- `send_msg`. -/
def sendMsg (N : Nodes) (n i : ℕ) (m : DataBusReq) : List (ℕ × DataBusReq) :=
  (neighbours N n i).map fun k => (k, m)

/-- The data-bus threads of all nodes, and the messages in flight.  `served`
    lists the nodes that served a request. -/
structure Chain where
  isMaster : ℕ → Bool
  master : ℕ → Xfer
  data : ℕ → DataState
  queue : Mailboxes DataBusReq
  served : List ℕ

/-- Node `i` takes the `k`-th message of its socket; `uninit` is what its stack holds. -/
structure Act where
  i : ℕ
  k : ℕ
  uninit : DataBusReq

/-- `check_bus` at one node, the device serving what is posted to it. -/
def checkBus (N : Nodes) (n : ℕ) (a : Act) (s : Chain) : Chain :=
  if 1 ≤ a.i ∧ a.i ≤ n then
    match (s.queue a.i)[a.k]? with
    | none => s
    | some event =>
      let s := { s with queue := s.queue.take a.i a.k }
      if event.msgType = .req ∧ examineAddress (N.isAddrInternal a.i) event then
        match slavePost event with
        | none => s
        | some post =>
          let slave := dataBusReply { post with value := N.device a.i post }
          let resp := (slaveAnswer a.uninit event.c slave).1
          { s with queue := s.queue.pushAll (sendMsg N n a.i resp), served := s.served ++ [a.i] }
      else if event.msgType = .resp ∧ s.isMaster a.i ∧ (s.data a.i).reqIssued then
        match handleResp event (s.master a.i) (s.data a.i) with
        | none => s
        | some (master, data) =>
          { s with master := Function.update s.master a.i master,
                   data := Function.update s.data a.i data }
      else s
  else s

/-- Node `i` is master and has the request `x` in its buffer; nothing is in flight. -/
def before (i : ℕ) (x : Xfer) : Chain where
  isMaster k := decide (k = i)
  master _ := initXfer
  data k := if k = i then ⟨x, false⟩ else initDataState
  queue _ := []
  served := []

/-- Node `i` has sent its request. -/
def start (N : Nodes) (n i : ℕ) (x : Xfer) (uninit : DataBusReq) : Chain :=
  let r := processOp uninit ((before i x).data i)
  { before i x with
    data := Function.update (before i x).data i r.1
    queue := (before i x).queue.pushAll ((r.2.map (sendMsg N n i)).getD []) }

/-- No message is in flight. -/
def Quiet (s : Chain) : Prop := ∀ k, s.queue k = []

/-- What node `j` answers to the request `x`. -/
def produced (N : Nodes) (j : ℕ) (x : Xfer) : Word :=
  if x.op = .rIn then N.device j ⟨.rBlockIn, x.addr, 0⟩ else 0

/-- The transfer of node `i` is over: node `j` served it, once, and `i` has its value. -/
structure Ended (N : Nodes) (i j : ℕ) (x : Xfer) (s : Chain) : Prop where
  served : s.served = [j]
  issued : (s.data i).reqIssued = false
  op : (s.master i).op = .rDone
  value : (s.master i).value = produced N j x

/-- Node `i` comes to its socket and finds a message there. -/
def Takes (n : ℕ) (a : Act) (s : Chain) : Prop :=
  1 ≤ a.i ∧ a.i ≤ n ∧ (s.queue a.i)[a.k]? ≠ none

/-- In every order of deliveries that leaves no message in flight for ever, the
    transfer comes to its end and stays there. -/
def TransferEnds (N : Nodes) (n i j : ℕ) (x : Xfer) (uninit : DataBusReq) : Prop :=
  ∀ sched, Progresses (checkBus N n) (Takes n) Quiet sched (start N n i x uninit) →
    ∃ t, ∀ u, t ≤ u → Ended N i j x (trace (checkBus N n) sched (start N n i x uninit) u)

/-! ### Neighbours -/

section Neighbours

variable {N : Nodes} {n i j k : ℕ}

theorem mem_neighbours : k ∈ neighbours N n i ↔
    (1 < i ∧ k = i - 1 ∨ i < n ∧ k = i + 1) ∧ isBa (N.name k) = false := by
  unfold neighbours
  constructor
  · intro h
    rcases List.mem_append.mp h with h | h <;> split at h
    · next hl =>
      rw [List.mem_singleton.mp h]
      exact ⟨.inl ⟨hl.1, rfl⟩, hl.2⟩
    · cases h
    · next hr =>
      rw [List.mem_singleton.mp h]
      exact ⟨.inr ⟨hr.1, rfl⟩, hr.2⟩
    · cases h
  · rintro ⟨⟨hl, rfl⟩ | ⟨hr, rfl⟩, hba⟩
    · refine List.mem_append_left _ ?_
      rw [if_pos ⟨hl, hba⟩]
      exact List.mem_singleton_self _
    · refine List.mem_append_right _ ?_
      rw [if_pos ⟨hr, hba⟩]
      exact List.mem_singleton_self _

theorem neighbours_range (hi : i ≤ n) (h : k ∈ neighbours N n i) : 1 ≤ k ∧ k ≤ n := by
  rcases (mem_neighbours.mp h).1 with ⟨h1, rfl⟩ | ⟨hn, rfl⟩ <;> omega

theorem nodup_neighbours (N : Nodes) (n i : ℕ) : (neighbours N n i).Nodup := by
  unfold neighbours
  refine List.nodup_append.mpr ⟨?_, ?_, ?_⟩
  · split
    · exact List.nodup_singleton _
    · exact List.nodup_nil
  · split
    · exact List.nodup_singleton _
    · exact List.nodup_nil
  · intro l hl r hr
    split at hl
    · split at hr
      · rw [List.mem_singleton.mp hl, List.mem_singleton.mp hr]
        omega
      · cases hr
    · cases hl

theorem not_mem_neighbours_self : i ∉ neighbours N n i := by
  intro h
  rcases (mem_neighbours.mp h).1 with ⟨h1, h⟩ | ⟨-, h⟩ <;> omega

theorem length_neighbours_le : (neighbours N n i).length ≤ 2 := by
  unfold neighbours
  split <;> split <;> simp

/-- What `send_msg` appends to each socket. -/
theorem queue_sendMsg (N : Nodes) (n i k : ℕ) (q : Mailboxes DataBusReq) (m : DataBusReq) :
    q.pushAll (sendMsg N n i m) k = q k ++ if k ∈ neighbours N n i then [m] else [] := by
  have hpush : ∀ (l : List ℕ) (q : Mailboxes DataBusReq), l.Nodup →
      q.pushAll (l.map fun k => (k, m)) k = q k ++ if k ∈ l then [m] else [] := by
    intro l
    induction l with
    | nil => simp [Mailboxes.pushAll]
    | cons p l ih =>
      intro q hl
      obtain ⟨hp, hl⟩ := List.nodup_cons.mp hl
      rw [List.map_cons, Mailboxes.pushAll, ih _ hl]
      by_cases hk : k = p
      · subst hk
        simp [Mailboxes.push, hp]
      · simp [Mailboxes.push, hk]
  exact hpush _ q (nodup_neighbours N n i)

end Neighbours

/-! ### One transfer -/

section Transfer

variable {N : Nodes} {n i j : ℕ} {x : Xfer} {m : DataBusReq} {s : Chain} {a : Act}

/-- A response of node `j` to the request `x`. -/
structure Answer (N : Nodes) (j : ℕ) (x : Xfer) (r : DataBusReq) : Prop where
  msgType : r.msgType = .resp
  c : r.c = .dati ∨ r.c = .dato ∨ r.c = .datob
  data : r.data = produced N j x

/-- The request `x` as it is sent: node `j` serves it. -/
structure Request (N : Nodes) (j : ℕ) (x : Xfer) (m : DataBusReq) : Prop where
  msgType : m.msgType = .req
  addr : m.addr = x.addr
  served : ∀ uninit, ∃ post, slavePost m = some post ∧ Answer N j x
    (slaveAnswer uninit m.c (dataBusReply { post with value := N.device j post })).1

theorem processOp_request (N : Nodes) (j : ℕ) (uninit : DataBusReq)
    (hop : x.op = .rIn ∨ x.op = .rOut ∨ x.op = .rOutb) :
    ∃ m, processOp uninit ⟨x, false⟩ = (⟨{ x with op := .rNone }, true⟩, some m) ∧
      Request N j x m := by
  rcases hop with hop | hop | hop
  · refine ⟨inWord uninit ⟨x, false⟩, by simp [processOp, hop], rfl, rfl, fun u => ?_⟩
    exact ⟨_, rfl, rfl, .inl rfl, (if_pos hop).symm⟩
  · refine ⟨outWord uninit ⟨x, false⟩, by simp [processOp, hop], rfl, rfl, fun u => ?_⟩
    exact ⟨_, rfl, rfl, .inr (.inl rfl), (if_neg (by simp [hop])).symm⟩
  · refine ⟨outByte uninit ⟨x, false⟩, by simp [processOp, hop], rfl, rfl, fun u => ?_⟩
    exact ⟨_, rfl, rfl, .inr (.inr rfl), (if_neg (by simp [hop])).symm⟩

/-- Node `j` and no other claims the address. -/
def Claimed (N : Nodes) (n j : ℕ) (addr : Addr) : Prop :=
  ∀ k, 1 ≤ k → k ≤ n →
    (examineAddress (N.isAddrInternal k) ⟨.req, .empty, addr, 0⟩ = true ↔ k = j)

theorem examineAddress_congr (f : Option (Addr → Bool)) {e e' : DataBusReq} (h : e.addr = e'.addr) :
    examineAddress f e = examineAddress f e' := by
  cases f with
  | none => rfl
  | some f => exact congrArg f h

/-- What is in flight during the transfer, and who is master. -/
structure InFlight (N : Nodes) (n i j : ℕ) (x : Xfer) (m : DataBusReq) (s : Chain) : Prop where
  master : ∀ k, s.isMaster k = true ↔ k = i
  req : ∀ k, ∀ e ∈ s.queue k, e.msgType = .req → e = m ∧ k ∈ neighbours N n i
  resp : ∀ k, ∀ e ∈ s.queue k, e.msgType = .resp →
    Answer N j x e ∧ k ∈ neighbours N n j ∧ j ∈ neighbours N n i

theorem InFlight.range (h : InFlight N n i j x m s) (hi : i ≤ n) (hj : j ≤ n) {k : ℕ}
    {e : DataBusReq} (he : e ∈ s.queue k) : 1 ≤ k ∧ k ≤ n := by
  cases hm : e.msgType with
  | req => exact neighbours_range hi (h.req k e he hm).2
  | resp => exact neighbours_range hj (h.resp k e he hm).2.1

/-- One delivery: nothing to take, a message dropped, the request served, or the
    response accepted. -/
inductive Delivery (N : Nodes) (n i j : ℕ) (x : Xfer) (m : DataBusReq) (a : Act) (s : Chain) :
    Chain → Prop
  | idle (h : 1 ≤ a.i → a.i ≤ n → (s.queue a.i)[a.k]? = none) : Delivery N n i j x m a s s
  | drop (e : DataBusReq) (he : (s.queue a.i)[a.k]? = some e) (hreq : e.msgType = .req → a.i ≠ j)
      (hresp : e.msgType = .resp → (s.data i).reqIssued = true → a.i ≠ i) :
      Delivery N n i j x m a s { s with queue := s.queue.take a.i a.k }
  | serve (r : DataBusReq) (hj : a.i = j) (he : (s.queue j)[a.k]? = some m)
      (hr : Answer N j x r) : Delivery N n i j x m a s
        { s with queue := (s.queue.take j a.k).pushAll (sendMsg N n j r),
                 served := s.served ++ [j] }
  | accept (e : DataBusReq) (hi : a.i = i) (he : (s.queue i)[a.k]? = some e)
      (hr : Answer N j x e) (hissued : (s.data i).reqIssued = true) : Delivery N n i j x m a s
        { s with queue := s.queue.take i a.k,
                 master := Function.update s.master i
                   { s.master i with op := .rDone, value := produced N j x },
                 data := Function.update s.data i { s.data i with reqIssued := false } }

theorem delivery_checkBus (hclaim : Claimed N n j x.addr) (hm : Request N j x m)
    (h : InFlight N n i j x m s) : Delivery N n i j x m a s (checkBus N n a s) := by
  unfold checkBus
  split
  · next hrange =>
    cases he : (s.queue a.i)[a.k]? with
    | none => exact .idle fun _ _ => he
    | some e =>
      have hmem : e ∈ s.queue a.i := List.mem_of_getElem? he
      dsimp only
      cases htype : e.msgType with
      | req =>
        obtain ⟨rfl, -⟩ := h.req _ e hmem htype
        -- a request is served where its address is claimed, and dropped elsewhere
        have hexamine : examineAddress (N.isAddrInternal a.i) e = true ↔ a.i = j := by
          rw [examineAddress_congr _ (show e.addr = (⟨.req, .empty, x.addr, 0⟩ : DataBusReq).addr
            from hm.addr)]
          exact hclaim a.i hrange.1 hrange.2
        by_cases hj : a.i = j
        · obtain ⟨post, hpost, hanswer⟩ := hm.served a.uninit
          rw [if_pos ⟨rfl, hexamine.mpr hj⟩, hpost]
          dsimp only
          rw [hj] at he ⊢
          exact .serve _ hj he hanswer
        · rw [if_neg (fun hc => hj (hexamine.mp hc.2)), if_neg (fun hc => by cases hc.1)]
          exact .drop e he (fun _ => hj) fun hr => by rw [htype] at hr; cases hr
      | resp =>
        obtain ⟨hanswer, -, -⟩ := h.resp _ e hmem htype
        rw [if_neg (fun hc => by cases hc.1)]
        split
        · next hc =>
          -- only the master takes a response, while its request is issued
          have hi : a.i = i := (h.master a.i).mp hc.2.1
          have hresp : handleResp e (s.master a.i) (s.data a.i)
              = some ({ s.master a.i with op := .rDone, value := e.data },
                  { s.data a.i with reqIssued := false }) := by
            rcases hanswer.c with hc | hc | hc <;> simp [handleResp, hc]
          rw [hresp, hanswer.data]
          dsimp only
          have hissued := hc.2.2
          rw [hi] at he hissued ⊢
          exact .accept e hi he hanswer hissued
        · next hc =>
          refine .drop e he (fun hr => by rw [htype] at hr; cases hr) fun _ hissued hi => hc ?_
          refine ⟨rfl, (h.master a.i).mpr hi, ?_⟩
          rw [hi]
          exact hissued
  · next hrange => exact .idle fun h1 hn => absurd ⟨h1, hn⟩ hrange

theorem mem_take {k c : ℕ} {q : Mailboxes DataBusReq} {p : ℕ} {e : DataBusReq}
    (h : e ∈ q.take k c p) : e ∈ q p := by
  by_cases hp : p = k
  · subst hp
    rw [Mailboxes.take, Function.update_self] at h
    exact List.mem_of_mem_eraseIdx h
  · rwa [Mailboxes.take, Function.update_of_ne hp] at h

theorem InFlight.delivery (h : InFlight N n i j x m s) (hm : Request N j x m) {s' : Chain}
    (hd : Delivery N n i j x m a s s') : InFlight N n i j x m s' := by
  cases hd with
  | idle _ => exact h
  | drop e _ _ _ =>
    exact ⟨h.master, fun k e he => h.req k e (mem_take he), fun k e he => h.resp k e (mem_take he)⟩
  | accept e _ _ _ _ =>
    exact ⟨h.master, fun k e he => h.req k e (mem_take he), fun k e he => h.resp k e (mem_take he)⟩
  | serve r hj he hr =>
    -- the request has come to `j`, so `j` is linked to the master
    have hlink := (h.req j m (List.mem_of_getElem? he) hm.msgType).2
    have hsplit : ∀ k, ∀ e ∈ (s.queue.take j a.k).pushAll (sendMsg N n j r) k,
        e ∈ s.queue k ∨ e = r ∧ k ∈ neighbours N n j := by
      intro k e he
      rw [queue_sendMsg] at he
      rcases List.mem_append.mp he with he | he
      · exact .inl (mem_take he)
      · split at he
        · next hk => exact .inr ⟨List.mem_singleton.mp he, hk⟩
        · cases he
    refine ⟨h.master, fun k e he htype => ?_, fun k e he htype => ?_⟩
    · rcases hsplit k e he with he | ⟨rfl, -⟩
      · exact h.req k e he htype
      · rw [hr.msgType] at htype
        cases htype
    · rcases hsplit k e he with he | ⟨rfl, hk⟩
      · exact h.resp k e he htype
      · exact ⟨hr, hk, hlink⟩

/-! ### Reaching the end -/

/-- Every message counts, a request as much as the responses to it and more. -/
def load (n : ℕ) (q : Mailboxes DataBusReq) : ℕ :=
  Mailboxes.weight n (fun _ e => if e.msgType = .req then 3 else 1) q

theorem load_delivery (hj : j ≤ n) (hm : Request N j x m) (ha : Takes n a s) {s' : Chain}
    (hd : Delivery N n i j x m a s s') : load n s'.queue < load n s.queue := by
  obtain ⟨h1, hn, hne⟩ := ha
  have htake : ∀ {k : ℕ} {e : DataBusReq}, k ≤ n → (s.queue k)[a.k]? = some e →
      load n (s.queue.take k a.k) + (if e.msgType = .req then 3 else 1) = load n s.queue :=
    fun hk he => Mailboxes.weight_take _ _ hk he
  cases hd with
  | idle h => exact absurd (h h1 hn) hne
  | drop e he _ _ =>
    have := htake hn he
    dsimp only
    split at this <;> omega
  | accept e hi he _ _ =>
    have := htake (hi ▸ hn) he
    dsimp only
    split at this <;> omega
  | serve r _ he hr =>
    have htk := htake hj he
    rw [if_pos hm.msgType] at htk
    have hpush : load n ((s.queue.take j a.k).pushAll (sendMsg N n j r))
        = load n (s.queue.take j a.k) + (neighbours N n j).length := by
      refine (Mailboxes.weight_pushAll _ _ _ fun p hp => ?_).trans ?_
      · obtain ⟨k, hk, rfl⟩ := List.mem_map.mp hp
        exact (neighbours_range hj hk).2
      · simp [sendMsg, Function.comp_def, hr.msgType, load]
    have := length_neighbours_le (N := N) (n := n) (i := j)
    dsimp only
    omega

theorem checkBus_of_not_takes (ha : ¬ Takes n a s) : checkBus N n a s = s := by
  unfold checkBus
  split
  · next hrange =>
    have hnone : (s.queue a.i)[a.k]? = none :=
      by_contra fun hne => ha ⟨hrange.1, hrange.2, hne⟩
    rw [hnone]
  · rfl

theorem exists_takes (hi : i ≤ n) (hj : j ≤ n) (h : InFlight N n i j x m s) (hne : ¬ Quiet s) :
    ∃ a, Takes n a s := by
  obtain ⟨k, hk⟩ := not_forall.mp hne
  obtain ⟨e, l, hq⟩ := List.exists_cons_of_ne_nil hk
  have hrange := h.range hi hj (show e ∈ s.queue k by rw [hq]; exact List.mem_cons_self)
  exact ⟨⟨k, 0, e⟩, hrange.1, hrange.2, by simp [hq]⟩

/-- Wherever messages are taken while there are any, none is left. -/
theorem eventually_quiet (hj : j ≤ n) (hclaim : Claimed N n j x.addr) (hm : Request N j x m)
    (h : InFlight N n i j x m s) {sched : ℕ → Act}
    (hsched : Progresses (checkBus N n) (Takes n) Quiet sched s) :
    ∃ t, Quiet (trace (checkBus N n) sched s t) := by
  have hd : ∀ s a, InFlight N n i j x m s → Delivery N n i j x m a s (checkBus N n a s) :=
    fun _ _ h => delivery_checkBus hclaim hm h
  refine eventually_of_progress (I := InFlight N n i j x m) (fun s => load n s.queue)
    (fun s a h => h.delivery hm (hd s a h)) (fun s a h => ?_)
    (fun s a h ha => load_delivery hj hm ha (hd s a h)) h hsched
  by_cases ha : Takes n a s
  · exact Nat.le_of_lt (load_delivery hj hm ha (hd s a h))
  · rw [checkBus_of_not_takes ha]

/-! ### Next to each other, or not -/

/-- Where the transfer has got to, the two nodes being neighbours. -/
inductive Progress (N : Nodes) (i j : ℕ) (x : Xfer) (m : DataBusReq) (s : Chain) : Prop
  | requested (hj : s.queue j = [m]) (hi : s.queue i = []) (hserved : s.served = [])
      (hissued : (s.data i).reqIssued = true)
  | served (r : DataBusReq) (hj : s.queue j = []) (hi : s.queue i = [r])
      (hserved : s.served = [j]) (hissued : (s.data i).reqIssued = true)
  | ended (hj : s.queue j = []) (hi : s.queue i = []) (h : Ended N i j x s)

theorem Progress.delivery (hp : Progress N i j x m s) (hij : i ≠ j)
    (hlink : i ∈ neighbours N n j) (hm : Request N j x m) (h : InFlight N n i j x m s) {s' : Chain}
    (hd : Delivery N n i j x m a s s') : Progress N i j x m s' := by
  have hother : ∀ {k c p}, p ≠ k → s.queue.take k c p = s.queue p := fun hne =>
    Function.update_of_ne hne _ _
  cases hd with
  | idle _ => exact hp
  | drop e he hreq hresp =>
    -- what is dropped was at neither node, or there was nothing to take
    have hnej : a.i ≠ j := by
      intro haj
      rw [haj] at he
      cases hp with
      | requested hj _ _ _ =>
        have hmem := List.mem_of_getElem? he
        rw [hj, List.mem_singleton] at hmem
        exact hreq (hmem ▸ hm.msgType) haj
      | served r hj _ _ _ =>
        rw [hj] at he
        cases he
      | ended hj _ _ =>
        rw [hj] at he
        cases he
    have hnei : a.i ≠ i := by
      intro hai
      rw [hai] at he
      cases hp with
      | requested _ hi _ _ =>
        rw [hi] at he
        cases he
      | served r _ hi _ hissued =>
        cases htype : e.msgType with
        | req =>
          exact not_mem_neighbours_self (h.req i e (List.mem_of_getElem? he) htype).2
        | resp => exact hresp htype hissued hai
      | ended _ hi _ =>
        rw [hi] at he
        cases he
    cases hp with
    | requested hj hi hserved hissued =>
      exact .requested ((hother hnej.symm).trans hj) ((hother hnei.symm).trans hi) hserved hissued
    | served r hj hi hserved hissued =>
      exact .served r ((hother hnej.symm).trans hj) ((hother hnei.symm).trans hi) hserved hissued
    | ended hj hi hend =>
      exact .ended ((hother hnej.symm).trans hj) ((hother hnei.symm).trans hi)
        ⟨hend.served, hend.issued, hend.op, hend.value⟩
  | serve r _ he hr =>
    cases hp with
    | requested hj hi hserved hissued =>
      -- the request is alone in the queue of `j`
      have hk : a.k = 0 := by
        rw [hj] at he
        by_contra hne
        rw [List.getElem?_eq_none (by simp; omega)] at he
        cases he
      refine .served r ?_ ?_ (by rw [hserved]; rfl) hissued
      · dsimp only
        rw [queue_sendMsg, if_neg not_mem_neighbours_self, List.append_nil, Mailboxes.take,
          Function.update_self, hj, hk]
        rfl
      · dsimp only
        rw [queue_sendMsg, if_pos hlink, hother hij, hi, List.nil_append]
    | served r' hj _ _ _ =>
      rw [hj] at he
      cases he
    | ended hj _ _ =>
      rw [hj] at he
      cases he
  | accept e _ he hr hissued =>
    cases hp with
    | requested _ hi _ _ =>
      rw [hi] at he
      cases he
    | served r hj hi hserved _ =>
      -- the response is alone in the queue of the master
      have hk : a.k = 0 := by
        rw [hi] at he
        by_contra hne
        rw [List.getElem?_eq_none (by simp; omega)] at he
        cases he
      refine .ended ((hother hij.symm).trans hj) ?_ ⟨hserved, ?_, ?_, ?_⟩
      · dsimp only
        rw [Mailboxes.take, Function.update_self, hi, hk]
        rfl
      all_goals
        dsimp only
        rw [Function.update_self]
    | ended _ hi _ =>
      rw [hi] at he
      cases he

/-- The state after the request was sent. -/
theorem start_spec (N : Nodes) (n i j : ℕ) (uninit : DataBusReq)
    (hop : x.op = .rIn ∨ x.op = .rOut ∨ x.op = .rOutb) :
    ∃ m, Request N j x m ∧ InFlight N n i j x m (start N n i x uninit) ∧
      ((start N n i x uninit).data i).reqIssued = true ∧
      (start N n i x uninit).served = [] ∧ ∀ k, (start N n i x uninit).queue k
        = if k ∈ neighbours N n i then [m] else [] := by
  obtain ⟨m, hsend, hm⟩ := processOp_request N j uninit hop
  have hdata : (before i x).data i = ⟨x, false⟩ := if_pos rfl
  have hqueue : ∀ k, (start N n i x uninit).queue k = if k ∈ neighbours N n i then [m] else [] := by
    intro k
    simp only [start, hdata, hsend]
    exact (queue_sendMsg N n i k _ m).trans (List.nil_append _)
  refine ⟨m, hm, ⟨fun k => decide_eq_true_iff, fun k e he htype => ?_, fun k e he htype => ?_⟩,
    ?_, rfl, hqueue⟩
  · rw [hqueue] at he
    split at he
    · next hk => exact ⟨List.mem_singleton.mp he, hk⟩
    · cases he
  · rw [hqueue] at he
    split at he
    · rw [List.mem_singleton.mp he, hm.msgType] at htype
      cases htype
    · cases he
  · simp only [start, hdata, hsend]
    rw [Function.update_self]

/-- Between nodes that are not linked both ways the master waits for ever. -/
theorem never_ends (hclaim : Claimed N n j x.addr) (hm : Request N j x m)
    (hlink : ¬ (j ∈ neighbours N n i ∧ i ∈ neighbours N n j)) (h : InFlight N n i j x m s)
    (hissued : (s.data i).reqIssued = true) (sched : ℕ → Act) (t : ℕ) :
    ((trace (checkBus N n) sched s t).data i).reqIssued = true := by
  have hinv : InFlight N n i j x m (trace (checkBus N n) sched s t) ∧
      ((trace (checkBus N n) sched s t).data i).reqIssued = true := by
    refine trace_invariant (I := fun s => InFlight N n i j x m s ∧
      (s.data i).reqIssued = true) (fun s a hs => ?_) sched ⟨h, hissued⟩ t
    have hd : Delivery N n i j x m a s (checkBus N n a s) := delivery_checkBus hclaim hm hs.1
    refine ⟨hs.1.delivery hm hd, ?_⟩
    have hissued := hs.2
    generalize checkBus N n a s = s' at hd
    cases hd with
    | idle _ => exact hissued
    | drop _ _ _ _ => exact hissued
    | serve _ _ _ _ => exact hissued
    | accept e _ he hr _ =>
      obtain ⟨-, hi, hj⟩ := hs.1.resp i e (List.mem_of_getElem? he) hr.msgType
      -- a response at the master would mean a link both ways
      exact absurd ⟨hj, hi⟩ hlink
  exact hinv.2

theorem ends (hclaim : Claimed N n j x.addr) (hm : Request N j x m) (hij : i ≠ j)
    (hlink : i ∈ neighbours N n j) (h : InFlight N n i j x m s) (hp : Progress N i j x m s)
    (sched : ℕ → Act) (t : ℕ) : Progress N i j x m (trace (checkBus N n) sched s t) := by
  have hinv : InFlight N n i j x m (trace (checkBus N n) sched s t) ∧
      Progress N i j x m (trace (checkBus N n) sched s t) := by
    refine trace_invariant (I := fun s => InFlight N n i j x m s ∧ Progress N i j x m s)
      (fun s a hs => ?_) sched ⟨h, hp⟩ t
    have hd : Delivery N n i j x m a s (checkBus N n a s) := delivery_checkBus hclaim hm hs.1
    exact ⟨hs.1.delivery hm hd, hs.2.delivery hij hlink hm hs.1 hd⟩
  exact hinv.2

/-- Linked both ways: next to each other, with names the data bus does not leave out. -/
theorem linked_iff (hi1 : 1 ≤ i) (hin : i ≤ n) (hj1 : 1 ≤ j) (hjn : j ≤ n) :
    j ∈ neighbours N n i ∧ i ∈ neighbours N n j ↔
      (j = i + 1 ∨ i = j + 1) ∧ isBa (N.name i) = false ∧ isBa (N.name j) = false := by
  rw [mem_neighbours, mem_neighbours]
  constructor
  · rintro ⟨⟨hij, hbj⟩, -, hbi⟩
    exact ⟨by omega, hbi, hbj⟩
  · rintro ⟨hij, hbi, hbj⟩
    exact ⟨⟨by omega, hbj⟩, by omega, hbi⟩

/-- Where the two are not linked both ways, no order of deliveries helps. -/
theorem not_transferEnds (hin : i ≤ n) (hjn : j ≤ n)
    (hop : x.op = .rIn ∨ x.op = .rOut ∨ x.op = .rOutb) (hclaim : Claimed N n j x.addr)
    (hlink : ¬ (j ∈ neighbours N n i ∧ i ∈ neighbours N n j)) (uninit : DataBusReq) :
    ¬ TransferEnds N n i j x uninit := by
  intro h
  obtain ⟨m, hm, hflight, hissued, -, -⟩ := start_spec N n i j uninit hop
  obtain ⟨sched, hsched⟩ :
      ∃ sched, Progresses (checkBus N n) (Takes n) Quiet sched (start N n i x uninit) :=
    exists_progresses (I := InFlight N n i j x m) ⟨i, 0, uninit⟩
      (fun _ a h => h.delivery hm (a := a) (delivery_checkBus hclaim hm h))
      (fun _ h hne => exists_takes hin hjn h hne) hflight
  obtain ⟨t, ht⟩ := h sched hsched
  have hend := (ht t (Nat.le_refl t)).issued
  rw [never_ends hclaim hm hlink hflight hissued sched t] at hend
  cases hend

/-- **How far a transfer reaches.**  In every order of deliveries the transfer of
    master `i` with the node `j` that claims the address comes to its end,
    exactly when the two are next to each other in the chain and the data bus
    leaves out neither of them. -/
theorem transfer_iff (hi1 : 1 ≤ i) (hin : i ≤ n) (hj1 : 1 ≤ j) (hjn : j ≤ n) (hij : i ≠ j)
    (hop : x.op = .rIn ∨ x.op = .rOut ∨ x.op = .rOutb) (hclaim : Claimed N n j x.addr)
    (uninit : DataBusReq) :
    TransferEnds N n i j x uninit ↔
      (j = i + 1 ∨ i = j + 1) ∧ isBa (N.name i) = false ∧ isBa (N.name j) = false := by
  rw [← linked_iff hi1 hin hj1 hjn]
  constructor
  · intro h
    by_contra hlink
    exact not_transferEnds hin hjn hop hclaim hlink uninit h
  · rintro ⟨hj, hi⟩ sched hsched
    obtain ⟨m, hm, hflight, hissued, hserved, hqueue⟩ := start_spec N n i j uninit hop
    have hstart : Progress N i j x m (start N n i x uninit) := by
      refine .requested ?_ ?_ hserved hissued
      · rw [hqueue, if_pos hj]
      · rw [hqueue, if_neg not_mem_neighbours_self]
    obtain ⟨t, hquiet⟩ := eventually_quiet hjn hclaim hm hflight hsched
    -- with nothing in flight nothing happens any more
    have hstay : ∀ d, Quiet (trace (checkBus N n) sched (start N n i x uninit) (t + d)) := by
      intro d
      induction d with
      | zero => exact hquiet
      | succ d ih =>
        rw [← Nat.add_assoc, trace, checkBus_of_not_takes fun ha => ha.2.2 (by rw [ih]; rfl)]
        exact ih
    refine ⟨t, fun u hu => ?_⟩
    obtain ⟨d, rfl⟩ := Nat.exists_eq_add_of_le hu
    have hquiet := hstay d
    cases ends hclaim hm hij hi hflight hstart sched (t + d) with
    | requested hq _ _ _ =>
      rw [hquiet j] at hq
      cases hq
    | served r _ hq _ _ =>
      rw [hquiet i] at hq
      cases hq
    | ended _ _ hend => exact hend

end Transfer

/-- The CPU, the memory and the disk, each claiming its addresses. -/
def machine (device : ℕ → Xfer → Word) : Nodes where
  name i :=
    if i = 1 then ['c', 'p', 'u']
    else if i = 2 then ['m', 'e', 'm']
    else ['d', 'i', 's', 'k']
  isAddrInternal i :=
    if i = 1 then none
    else if i = 2 then some fun addr => addr.toNat ≤ 65535
    else some fun addr => addr == 0o777170 || addr == 0o777172
  device := device

theorem claimed_mem (device : ℕ → Xfer → Word) : Claimed (machine device) 3 2 0o1000 := by
  intro k h1 h3
  interval_cases k <;> simp [machine, examineAddress]

theorem claimed_disk (device : ℕ → Xfer → Word) : Claimed (machine device) 3 3 0o777170 := by
  intro k h1 h3
  interval_cases k <;> simp [machine, examineAddress]

/-- The CPU and the memory behind it. -/
theorem transfer_iff_mem :
    TransferEnds (machine fun _ _ => 7) 3 1 2 ⟨.rIn, 0o1000, 0⟩ ⟨.req, .empty, 0, 0⟩ ↔
      ((2 : ℕ) = 1 + 1 ∨ (1 : ℕ) = 2 + 1) ∧ isBa ((machine fun _ _ => 7).name 1) = false ∧
        isBa ((machine fun _ _ => 7).name 2) = false :=
  transfer_iff (by decide) (by decide) (by decide) (by decide) (by decide) (.inl rfl)
    (claimed_mem _) _

/-- The disk is behind the memory and is never reached from the CPU. -/
theorem disk_not_reached :
    ¬ TransferEnds (machine fun _ _ => 7) 3 1 3 ⟨.rIn, 0o777170, 0⟩ ⟨.req, .empty, 0, 0⟩ :=
  not_transferEnds (by decide) (by decide) (.inl rfl) (claimed_disk _) (by decide) _

end XMachine.Unibus.DataChain
