import XMachine.Unibus.Completion

namespace XMachine.Unibus.Posting

open XMachine.Lib XMachine.Cpu XMachine.Mem XMachine.Unibus.Completion
open XMachine.Unibus.MasterSlave (Act Node.stores memServe)

/-!
# Posting — a post store by store

`read_data_in` and its siblings store `op`, then `addr`, then `value` into the
master mailbox, under `master_xfer_mutex`; `data_bus_mgr` copies and clears it
under `state_mutex`.  Neither keeps the other out.

* `Sys`, `step` — master and slave, with one store or one copied field a step;
* `whole` — the same with the post as one section, at its first store;
* `step_whole` — a step that copies what the call stores is a step of the
  system with whole posts, or none;
* `completion_sound` — the transfers reported done, in the runs of such steps.
-/

/-! ### The system -/

/-- A store into the master mailbox, after the one of `op`. -/
inductive Store
  | addr (addr : Addr)
  | value (value : Word)
  deriving DecidableEq, Repr

def Store.put (master : Xfer) : Store → Xfer
  | .addr a => { master with addr := a }
  | .value v => { master with value := v }

/-- What the call stores first. -/
def firstOp : Call → DataOp
  | .readDataIn _ => .rIn
  | .writeDataOut _ _ => .rOut
  | .writeDataOutB _ _ => .rOutb

/-- The stores that follow, in their order. -/
def stores : Call → List Store
  | .readDataIn addr => [.addr addr]
  | .writeDataOut addr data => [.addr addr, .value data]
  | .writeDataOutB addr data => [.addr addr, .value (data.setWidth 16)]

/-- What `data_bus_mgr` does next with the mailbox. -/
inductive CopyPc
  | addr | value
  /-- The last statement clears `op`. -/
  | clear
  deriving DecidableEq, Repr

/-- `data_bus_mgr` is in its `switch`.  No other thread sees its buffer, so what
    is copied may be kept here until the end. -/
structure Copying where
  buffer : Xfer
  next : CopyPc
  deriving DecidableEq, Repr

structure Sys (σ : Type) where
  nodes : MasterSlave.Sys σ
  /-- The stores of the post that are still to be made. -/
  pending : List Store
  copying : Option Copying

/-- The cases of the `switch` that copy `value`. -/
def hasValue : DataOp → Bool
  | .rOut | .rOutb => true
  | _ => false

/-- A statement of the `switch`: the node and the copy after it. -/
def copyStep (c : Copying) (nd : Node) : Node × Option Copying :=
  match c.next with
  | .addr =>
    (nd, some ⟨{ c.buffer with addr := nd.master.addr },
      if hasValue c.buffer.op then .value else .clear⟩)
  | .value => (nd, some ⟨{ c.buffer with value := nd.master.value }, .clear⟩)
  | .clear =>
    ({ nd with
        master := { nd.master with op := .rNone }
        data := { nd.data with buffer := c.buffer }
        pc := .process nd.isMaster }, none)

section Step

variable {σ : Type}

/-- The nodes with another one for the master's. -/
def withNode (nd : Node) (s : MasterSlave.Sys σ) : MasterSlave.Sys σ :=
  { s with master := { s.master with node := nd } }

def withMaster (master : Xfer) (s : MasterSlave.Sys σ) : MasterSlave.Sys σ :=
  withNode { s.master.node with master := master } s

variable (serve : σ → Xfer → σ × Option Xfer) (f : Addr → Bool)

/-- The main thread makes a store that is left, or the first one of a post. -/
def mainStep (next : Option Call) (t : Sys σ) : Sys σ :=
  match t.pending with
  | store :: pending =>
    { t with
        nodes := withMaster (store.put t.nodes.master.node.master) t.nodes
        pending := pending }
  | [] =>
    let nodes := MasterSlave.step serve f (.masterMain next) t.nodes
    match t.nodes.master.caller, next with
    | .idle, some call =>
      { t with
          nodes := withMaster { t.nodes.master.node.master with op := firstOp call } nodes
          pending := stores call }
    | _, _ => { t with nodes := nodes }

/-- The data-bus thread copies the request it has found, or waits in
    `handle_resp` for the mutex of the post, or goes on. -/
def dataStep (uninit : DataBusReq) (t : Sys σ) : Sys σ :=
  match t.copying with
  | some c =>
    let r := copyStep c t.nodes.master.node
    { t with nodes := withNode r.1 t.nodes, copying := r.2 }
  | none =>
    let nd := t.nodes.master.node
    if nd.pc = .head ∧ nd.master.op.isRequest = true then
      { t with copying := some ⟨{ nd.data.buffer with op := nd.master.op }, .addr⟩ }
    else if Node.stores nd = true ∧ t.pending ≠ [] then t
    else { t with nodes := MasterSlave.step serve f (.masterData uninit) t.nodes }

/-- The priority bus waits for `state_mutex`. -/
def step (a : Act) (t : Sys σ) : Sys σ :=
  match a with
  | .masterMain next => mainStep serve f next t
  | .masterData uninit => dataStep serve f uninit t
  | .setMaster b =>
    if t.copying.isSome then t
    else { t with nodes := MasterSlave.step serve f (.setMaster b) t.nodes }
  | .setSlave _ | .slaveMain _ | .slaveData _ | .spurious =>
    { t with nodes := MasterSlave.step serve f a t.nodes }

def start (isMaster : Bool) (dev : σ) : Sys σ := ⟨MasterSlave.start isMaster dev, [], none⟩

end Step

/-! ### The post as one section -/

/-- The mailbox once the stores are made. -/
def settle (master : Xfer) (pending : List Store) : Xfer := pending.foldl Store.put master

theorem settle_op (master : Xfer) (pending : List Store) :
    (settle master pending).op = master.op := by
  induction pending generalizing master with
  | nil => rfl
  | cons store pending ih => cases store <;> exact ih _

/-- The stores that are left do not touch `op`. -/
theorem settle_setOp (master : Xfer) (op : DataOp) (pending : List Store) :
    settle { master with op := op } pending = { settle master pending with op := op } := by
  induction pending generalizing master with
  | nil => rfl
  | cons store pending ih =>
    cases store with
    | addr a => exact ih { master with addr := a }
    | value v => exact ih { master with value := v }

/-- The stores of the call make its post. -/
theorem settle_stores (call : Call) (master : Xfer) :
    settle { master with op := firstOp call } (stores call) = call.post master := by
  cases call <;> rfl

/-- Only at the head of its loop and in `handle_resp` does the thread see the mailbox. -/
theorem advance_setMaster {nd : Node} (hhead : nd.pc ≠ .head) (hstore : Node.stores nd = false)
    (f : Option (Addr → Bool)) (uninit : DataBusReq) (arrives : Option DataBusReq)
    (master : Xfer) :
    ({ nd with master := master }.advance f uninit arrives) =
      ⟨{ (nd.advance f uninit arrives).node with master := master },
        (nd.advance f uninit arrives).sent, (nd.advance f uninit arrives).signal⟩ := by
  obtain ⟨isMaster, master', slave, data, pc⟩ := nd
  cases pc with
  | head => exact absurd rfl hhead
  | store event => cases hstore
  | process b => cases b <;> rfl
  | check b =>
    unfold Node.advance
    dsimp only
    cases arrives with
    | none => rfl
    | some event =>
      dsimp only
      split_ifs <;> rfl
  | post event =>
    unfold Node.advance
    dsimp only
    cases slavePost event <;> rfl
  | wakeMaster _ | wakeSlave _ | beginWait _ | waiting _ | answer _ => rfl

section Whole

variable {σ : Type} {t : Sys σ}

/-- The stores that are left are made. -/
def whole (t : Sys σ) : MasterSlave.Sys σ :=
  withMaster (settle t.nodes.master.node.master t.pending) t.nodes

theorem whole_of_nil (h : t.pending = []) : whole t = t.nodes := by
  rw [whole, h]
  rfl

variable (serve : σ → Xfer → σ × Option Xfer) (f : Addr → Bool)

/-- The threads of the slave and the priority bus do not see the master mailbox. -/
theorem step_withMaster {a : Act} (hmain : ∀ next, a ≠ .masterMain next)
    (hdata : ∀ uninit, a ≠ .masterData uninit) (master : Xfer) (s : MasterSlave.Sys σ) :
    MasterSlave.step serve f a (withMaster master s)
      = withMaster master (MasterSlave.step serve f a s) := by
  cases a with
  | masterMain next => exact absurd rfl (hmain next)
  | masterData uninit => exact absurd rfl (hdata uninit)
  | setMaster _ | setSlave _ | slaveMain _ | slaveData _ | spurious => rfl

/-- Nor does the data-bus thread of the master, away from the two places. -/
theorem step_masterData_withMaster {s : MasterSlave.Sys σ} (hhead : s.master.node.pc ≠ .head)
    (hstore : Node.stores s.master.node = false) (uninit : DataBusReq) (master : Xfer) :
    MasterSlave.step serve f (.masterData uninit) (withMaster master s)
      = withMaster master (MasterSlave.step serve f (.masterData uninit) s) := by
  have hadvance := advance_setMaster hhead hstore none uninit
    (s.toMaster.head?.map MasterSlave.Response.msg) master
  simp only [MasterSlave.step, withMaster, withNode, CallerSide.data, hadvance]
  rfl

/-- At the head of its loop it only looks at the mailbox. -/
theorem step_masterData_head {s : MasterSlave.Sys σ} (hpc : s.master.node.pc = .head)
    (uninit : DataBusReq) :
    MasterSlave.step serve f (.masterData uninit) s = withNode { s.master.node with
      master := (takeOp s.master.node.master s.master.node.data).1
      data := (takeOp s.master.node.master s.master.node.data).2
      pc := .process s.master.node.isMaster } s := by
  simp [MasterSlave.step, CallerSide.data, Node.advance, hpc, MasterSlave.leave,
    BusMemory.Node.receives, withNode]

/-- Without a request, what it does is the same for the two mailboxes. -/
theorem takeOp_settle {master : Xfer} (h : master.op.isRequest = false) (d : DataState)
    (pending : List Store) :
    takeOp (settle master pending) d
      = (settle (takeOp master d).1 pending, (takeOp master d).2) := by
  unfold takeOp
  rw [settle_op]
  cases hop : master.op with
  | rIn | rInb | rOut | rOutb =>
    rw [hop] at h
    cases h
  | rDone | rNone => rfl
  | rBlockIn | rBlockInb | rBlockOut | rBlockOutb =>
    exact Prod.ext (settle_setOp _ _ _).symm rfl

end Whole

/-! ### The condition -/

/-- The field that is copied next is the same in both. -/
def CopyPc.Same (x y : Xfer) : CopyPc → Prop
  | .addr => x.addr = y.addr
  | .value => x.value = y.value
  | .clear => True

section Condition

variable {σ : Type} (t : Sys σ)

/-- A field that is copied holds what the call stores there, already or still. -/
def Agrees : Act → Prop
  | .masterData _ => ∀ c ∈ t.copying,
      c.next.Same t.nodes.master.node.master (settle t.nodes.master.node.master t.pending)
  | _ => True

/-- The slave answers with `R_DONE`, the device serves what it was sent, and what
    is sent is what was posted. -/
def Meets (a : Act) : Prop := Completion.Meets t.nodes a ∧ Agrees t a

instance (x y : Xfer) (pc : CopyPc) : Decidable (pc.Same x y) :=
  match pc with
  | .addr | .value => inferInstanceAs (Decidable (_ = _))
  | .clear => instDecidableTrue

instance (a : Act) : Decidable (Agrees t a) :=
  match a with
  | .masterData _ => inferInstanceAs (Decidable (∀ c ∈ t.copying, _))
  | .setMaster _ | .setSlave _ | .masterMain _ | .slaveMain _ | .slaveData _ | .spurious =>
    instDecidableTrue

instance (a : Act) : Decidable (Meets t a) := inferInstanceAs (Decidable (_ ∧ _))

end Condition

/-! ### The simulation -/

/-- What has been copied is what the mailbox holds once the stores are made. -/
def Copied (nd : Node) (c : Copying) : Prop :=
  match c.next with
  | .addr => c.buffer = { nd.data.buffer with op := nd.master.op }
  | .value => hasValue nd.master.op = true ∧
      c.buffer = ⟨nd.master.op, nd.master.addr, nd.data.buffer.value⟩
  | .clear => c.buffer = (takeOp nd.master nd.data).2.buffer

/-- The thread copies the request in the mailbox. -/
structure Tracks (nd : Node) (c : Copying) : Prop where
  head : nd.pc = .head
  request : nd.master.op.isRequest = true
  copied : Copied nd c

/-- A request is copied with its value where it has one. -/
theorem takeOp_request {master : Xfer} (h : master.op.isRequest = true) (d : DataState) :
    takeOp master d = ({ master with op := .rNone }, { d with buffer := ⟨master.op, master.addr,
      if hasValue master.op = true then master.value else d.buffer.value⟩ }) := by
  obtain ⟨op, addr, value⟩ := master
  cases op <;> first | rfl | cases h

section Tracks

variable {nd : Node} {c : Copying}

/-- After `addr` comes `value`, where the request has one. -/
theorem Tracks.addr (h : Tracks nd c) (hnext : c.next = .addr) :
    Tracks nd ⟨{ c.buffer with addr := nd.master.addr },
      if hasValue c.buffer.op then .value else .clear⟩ := by
  have hcopied := h.copied
  rw [Copied, hnext] at hcopied
  refine ⟨h.head, h.request, ?_⟩
  rw [hcopied]
  by_cases hvalue : hasValue nd.master.op = true
  · rw [if_pos hvalue]
    exact ⟨hvalue, rfl⟩
  · rw [if_neg hvalue, Copied, takeOp_request h.request, if_neg hvalue]

theorem Tracks.value (h : Tracks nd c) (hnext : c.next = .value) :
    Tracks nd ⟨{ c.buffer with value := nd.master.value }, .clear⟩ := by
  have hcopied := h.copied
  rw [Copied, hnext] at hcopied
  obtain ⟨hvalue, hbuffer⟩ := hcopied
  refine ⟨h.head, h.request, ?_⟩
  rw [hbuffer, Copied, takeOp_request h.request, if_pos hvalue]

end Tracks

section Step

variable {σ : Type} {t : Sys σ} (serve : σ → Xfer → σ × Option Xfer) (f : Addr → Bool)

/-- The step is one of the system with whole posts, or none of its steps. -/
def Matches (t t' : Sys σ) : Prop :=
  whole t' = whole t ∨
    ∃ a, Completion.Meets (whole t) a ∧ whole t' = MasterSlave.step serve f a (whole t)

/-- With whole posts the invariant holds, and the copy under way is one of the request. -/
structure Consistent (t : Sys σ) : Prop where
  inv : Inv (whole t)
  copy : ∀ c ∈ t.copying, Tracks (whole t).master.node c

theorem consistent_start (isMaster : Bool) (dev : σ) : Consistent (start isMaster dev) where
  inv := inv_start isMaster dev
  copy _ hc := absurd hc nofun

/-- While its request is in the mailbox the caller waits. -/
theorem master_of_request {s : MasterSlave.Sys σ} (h : Inv s)
    (hreq : s.master.node.master.op.isRequest = true) (next : Option Call) :
    (MasterSlave.step serve f (.masterMain next) s).master.node = s.master.node ∧
      s.master.caller ≠ .idle := by
  obtain ⟨call, x, g, h, b, hm, -⟩ := h
  have hcaller : s.master.caller = .posted call ∨ s.master.caller = .waiting call := by
    have hmailbox := hm.master
    cases g with
    | posted => exact hm.caller
    | idle | taken | out | storing _ =>
      rw [show s.master.node.master.op = .rNone from hmailbox] at hreq
      cases hreq
    | stored | done =>
      rw [hmailbox.1] at hreq
      cases hreq
  rcases hcaller with hc | hc <;> simp [MasterSlave.step, CallerSide.main, hc]

/-- The main thread has made the stores of its post. -/
theorem whole_mainStep (next : Option Call) (hp : t.pending = []) :
    whole (mainStep serve f next t) = MasterSlave.step serve f (.masterMain next) t.nodes := by
  unfold mainStep
  rw [hp]
  dsimp only
  split
  · next call hidle =>
    rw [whole]
    dsimp only [withMaster, withNode]
    rw [settle_stores]
    simp [MasterSlave.step, CallerSide.main, hidle]
  · exact whole_of_nil rfl

theorem mainStep_copying (next : Option Call) :
    (mainStep serve f next t).copying = t.copying := by
  unfold mainStep
  split
  · rfl
  · dsimp only
    split <;> rfl

theorem Consistent.main (h : Consistent t) (next : Option Call) :
    Matches serve f t (mainStep serve f next t) ∧
      ∀ c ∈ (mainStep serve f next t).copying,
        Tracks (whole (mainStep serve f next t)).master.node c := by
  rw [mainStep_copying]
  cases hp : t.pending with
  | cons store pending =>
    -- A store that is left has been made in the whole post.
    have hstay : whole (mainStep serve f next t) = whole t := by
      rw [mainStep, hp, whole, whole, hp]
      rfl
    rw [hstay]
    exact ⟨.inl hstay, h.copy⟩
  | nil =>
    have hgoes := whole_mainStep serve f next hp
    rw [← whole_of_nil hp] at hgoes
    refine ⟨.inr ⟨.masterMain next, ⟨trivial, trivial⟩, hgoes⟩, fun c hc => ?_⟩
    rw [hgoes, (master_of_request serve f h.inv (h.copy c hc).request next).1]
    exact h.copy c hc

/-- The data-bus thread is not in its `switch`, and finds nothing to copy. -/
theorem whole_masterData (uninit : DataBusReq)
    (hhead : t.nodes.master.node.pc = .head → t.nodes.master.node.master.op.isRequest = false)
    (hstore : Node.stores t.nodes.master.node = true → t.pending = []) :
    whole { t with nodes := MasterSlave.step serve f (.masterData uninit) t.nodes }
      = MasterSlave.step serve f (.masterData uninit) (whole t) := by
  by_cases hs : Node.stores t.nodes.master.node = true
  · -- No store is left.
    rw [whole_of_nil (hstore hs)]
    exact whole_of_nil (hstore hs)
  by_cases hh : t.nodes.master.node.pc = .head
  · have htake := takeOp_settle (hhead hh) t.nodes.master.node.data t.pending
    have hwhole := step_masterData_head serve f (s := whole t) hh uninit
    rw [hwhole, step_masterData_head serve f hh]
    simp only [whole, withMaster, withNode, htake]
  · have hmaster : (MasterSlave.step serve f (.masterData uninit) t.nodes).master.node.master
        = t.nodes.master.node.master :=
      congrArg (·.node.master) (advance_setMaster hh (Bool.not_eq_true _ ▸ hs) none uninit
        (t.nodes.toMaster.head?.map MasterSlave.Response.msg) t.nodes.master.node.master)
    rw [whole, whole, step_masterData_withMaster serve f hh (Bool.not_eq_true _ ▸ hs), hmaster]

/-- A statement of the `switch` takes nothing but what the call has stored there,
    and the last one takes the request. -/
theorem Consistent.data_copy (h : Consistent t) (uninit : DataBusReq) {c : Copying}
    (hc : t.copying = some c)
    (hsame : c.next.Same t.nodes.master.node.master (whole t).master.node.master) :
    Matches serve f t (dataStep serve f uninit t) ∧
      ∀ c' ∈ (dataStep serve f uninit t).copying,
        Tracks (whole (dataStep serve f uninit t)).master.node c' := by
  have htracks := h.copy c hc
  cases hnext : c.next with
  | addr =>
    rw [hnext] at hsame
    have hstep : dataStep serve f uninit t = ⟨t.nodes, t.pending,
        some ⟨{ c.buffer with addr := t.nodes.master.node.master.addr },
          if hasValue c.buffer.op then .value else .clear⟩⟩ := by
      simp only [dataStep, hc, copyStep, hnext, withNode]
    rw [hstep]
    refine ⟨.inl rfl, fun c' hc' => ?_⟩
    obtain rfl := Option.some.inj hc'
    rw [show t.nodes.master.node.master.addr = (whole t).master.node.master.addr from hsame]
    exact htracks.addr hnext
  | value =>
    rw [hnext] at hsame
    have hstep : dataStep serve f uninit t = ⟨t.nodes, t.pending,
        some ⟨{ c.buffer with value := t.nodes.master.node.master.value }, .clear⟩⟩ := by
      simp only [dataStep, hc, copyStep, hnext, withNode]
    rw [hstep]
    refine ⟨.inl rfl, fun c' hc' => ?_⟩
    obtain rfl := Option.some.inj hc'
    rw [show t.nodes.master.node.master.value = (whole t).master.node.master.value from hsame]
    exact htracks.value hnext
  | clear =>
    have hcopied := htracks.copied
    rw [Copied, hnext] at hcopied
    have hreq : (settle t.nodes.master.node.master t.pending).op.isRequest = true :=
      htracks.request
    have htake := takeOp_request hreq t.nodes.master.node.data
    have hstep : dataStep serve f uninit t = { t with
        nodes := withNode { t.nodes.master.node with
          master := { t.nodes.master.node.master with op := .rNone }
          data := { t.nodes.master.node.data with buffer := c.buffer }
          pc := .process t.nodes.master.node.isMaster } t.nodes
        copying := none } := by
      simp only [dataStep, hc, copyStep, hnext]
    have hgoes : whole (dataStep serve f uninit t)
        = MasterSlave.step serve f (.masterData uninit) (whole t) := by
      rw [hstep, hcopied, step_masterData_head serve f htracks.head]
      simp only [whole, withMaster, withNode, htake, settle_setOp]
    refine ⟨.inr ⟨.masterData uninit, ⟨trivial, trivial⟩, hgoes⟩, ?_⟩
    rw [hstep]
    exact fun _ hc' => absurd hc' nofun

/-- The copy begins with `op`, which has been stored. -/
theorem dataStep_find (uninit : DataBusReq) (hc : t.copying = none)
    (hpc : t.nodes.master.node.pc = .head)
    (hreq : t.nodes.master.node.master.op.isRequest = true) :
    Matches serve f t (dataStep serve f uninit t) ∧
      ∀ c ∈ (dataStep serve f uninit t).copying,
        Tracks (whole (dataStep serve f uninit t)).master.node c := by
  have hstep : dataStep serve f uninit t = ⟨t.nodes, t.pending,
      some ⟨{ t.nodes.master.node.data.buffer with op := t.nodes.master.node.master.op },
        .addr⟩⟩ := by
    simp only [dataStep, hc, if_pos (And.intro hpc hreq)]
  have hop : (whole t).master.node.master.op = t.nodes.master.node.master.op :=
    settle_op _ t.pending
  rw [hstep]
  refine ⟨.inl rfl, fun c hc' => ?_⟩
  obtain rfl := Option.some.inj hc'
  refine ⟨hpc, ?_, ?_⟩
  · exact (congrArg DataOp.isRequest hop).trans hreq
  · exact congrArg (fun op => { t.nodes.master.node.data.buffer with op := op }) hop.symm

theorem Consistent.data (h : Consistent t) (uninit : DataBusReq)
    (hagrees : Agrees t (.masterData uninit)) :
    Matches serve f t (dataStep serve f uninit t) ∧
      ∀ c ∈ (dataStep serve f uninit t).copying,
        Tracks (whole (dataStep serve f uninit t)).master.node c := by
  cases hc : t.copying with
  | some c => exact h.data_copy serve f uninit hc (hagrees c hc)
  | none =>
    by_cases hfinds : t.nodes.master.node.pc = .head ∧
        t.nodes.master.node.master.op.isRequest = true
    · exact dataStep_find serve f uninit hc hfinds.1 hfinds.2
    by_cases hblocked : Node.stores t.nodes.master.node = true ∧ t.pending ≠ []
    · -- The thread waits for the mutex.
      have hstep : dataStep serve f uninit t = t := by
        simp only [dataStep, hc, if_neg hfinds, if_pos hblocked]
      rw [hstep]
      exact ⟨.inl rfl, h.copy⟩
    · have hstep : dataStep serve f uninit t = { t with
          nodes := MasterSlave.step serve f (.masterData uninit) t.nodes } := by
        simp only [dataStep, hc, if_neg hfinds, if_neg hblocked]
      have hhead (hpc : t.nodes.master.node.pc = .head) :
          t.nodes.master.node.master.op.isRequest = false := by
        by_contra hreq
        exact hfinds ⟨hpc, by simpa using hreq⟩
      have hstore (hs : Node.stores t.nodes.master.node = true) : t.pending = [] := by
        by_contra hp
        exact hblocked ⟨hs, hp⟩
      rw [hstep]
      refine ⟨.inr ⟨.masterData uninit, ⟨trivial, trivial⟩,
        whole_masterData serve f uninit hhead hstore⟩, fun c hc' => ?_⟩
      exact absurd (hc.symm.trans hc') nofun

/-- The other threads do not see the mailbox, and the priority bus waits for the copy. -/
theorem Consistent.other (h : Consistent t) {a : Act} (hmain : ∀ next, a ≠ .masterMain next)
    (hdata : ∀ uninit, a ≠ .masterData uninit) (hmeets : Completion.Meets t.nodes a) :
    Matches serve f t (step serve f a t) ∧
      ∀ c ∈ (step serve f a t).copying, Tracks (whole (step serve f a t)).master.node c := by
  have hmeets' : Completion.Meets (whole t) a := by
    cases a with
    | masterMain next => exact absurd rfl (hmain next)
    | masterData uninit => exact absurd rfl (hdata uninit)
    | setMaster _ | setSlave _ | slaveMain _ | slaveData _ | spurious => exact hmeets
  have hgoes (s : MasterSlave.Sys σ) (hs : s = MasterSlave.step serve f a t.nodes)
      (hmaster : s.master.node.master = t.nodes.master.node.master) :
      Matches serve f t { t with nodes := s } := by
    refine .inr ⟨a, hmeets', ?_⟩
    rw [whole, whole, step_withMaster serve f hmain hdata, ← hs, hmaster]
  cases a with
  | masterMain next => exact absurd rfl (hmain next)
  | masterData uninit => exact absurd rfl (hdata uninit)
  | setMaster b =>
    rw [step]
    split
    · exact ⟨.inl rfl, h.copy⟩
    · next hc =>
      refine ⟨hgoes _ rfl rfl, fun c hc' => ?_⟩
      exact absurd (Option.isSome_of_mem hc') hc
  | setSlave _ | slaveMain _ | slaveData _ | spurious => exact ⟨hgoes _ rfl rfl, h.copy⟩

theorem step_whole (h : Consistent t) {a : Act} (hmeets : Meets t a) :
    Matches serve f t (step serve f a t) ∧
      ∀ c ∈ (step serve f a t).copying, Tracks (whole (step serve f a t)).master.node c := by
  cases a with
  | masterMain next => exact h.main serve f next
  | masterData uninit => exact h.data serve f uninit hmeets.2
  | setMaster _ | setSlave _ | slaveMain _ | slaveData _ | spurious =>
    exact h.other serve f nofun nofun hmeets.1

theorem Consistent.step (h : Consistent t) {a : Act} (hmeets : Meets t a) :
    Consistent (step serve f a t) := by
  obtain ⟨hmatches, hcopy⟩ := step_whole serve f h hmeets
  refine ⟨?_, hcopy⟩
  rcases hmatches with hstay | ⟨b, hb, hgoes⟩
  · rw [hstay]
    exact h.inv
  · rw [hgoes]
    exact inv_step serve f _ b h.inv hb

end Step

/-! ### Runs -/

section Runs

variable {σ : Type} (serve : σ → Xfer → σ × Option Xfer) (f : Addr → Bool) (isMaster : Bool)
  (dev : σ) (as : List Act)

/-- **Whole posts.**  A run that copies what its calls store is a run of the
    system in which a post is one section. -/
theorem exists_run_whole (hmeets : RunMeets (step serve f) Meets as (start isMaster dev)) :
    ∃ bs, RunMeets (MasterSlave.step serve f) Completion.Meets bs
        (MasterSlave.start isMaster dev) ∧
      whole (runActs (step serve f) as (start isMaster dev))
        = runActs (MasterSlave.step serve f) bs (MasterSlave.start isMaster dev) :=
  exists_runActs_of_stutter (fun _ _ h hm => h.step serve f hm)
    (fun _ _ h hm => (step_whole serve f h hm).1) as _ (consistent_start isMaster dev) hmeets

/-- **A transfer is reported done only when the slave did it**, in the runs
    whose slave answers with `R_DONE`, whose device serves what it was sent and
    whose master sends what it was asked to. -/
theorem completion_sound (hmeets : RunMeets (step serve f) Meets as (start isMaster dev)) :
    Sound (runActs (step serve f) as (start isMaster dev)).nodes := by
  obtain ⟨bs, hbs, hwhole⟩ := exists_run_whole serve f isMaster dev as hmeets
  have hsound := sound_of_runMeets hbs
  rw [← hwhole] at hsound
  -- Replies, reports and responses are not in the mailbox.
  exact ⟨hsound.replies, hsound.accepted⟩

end Runs

/-- What the stack holds. -/
def noise : DataBusReq := ⟨.req, .empty, 0, 0⟩

def emptyMem : MemDev := ⟨0, 0, fun _ => 0⟩

/-- The request goes from the socket to the slave mailbox, `mem` is woken and the
    data-bus thread waits. -/
def slaveAsked : List Act := List.replicate 6 (.slaveData noise)

/-- The response is sent, taken and collected. -/
def callEnds : List Act :=
  [.slaveData noise, .masterData noise, .masterData noise, .masterData noise, .masterMain none]

/-- 5 is written to 01000.  The wait in `slave_wait` ends too soon, but `mem` has
    replied when the slave looks. -/
def writeServed : List Act :=
  [.slaveMain initXfer, .masterMain (some (.writeDataOut 0o1000 5))]
    ++ List.replicate 3 (.masterMain none) ++ List.replicate 5 (.masterData noise) ++ slaveAsked
    ++ [.spurious, .slaveMain ⟨.rBlockOut, 0o1000, 5⟩, .slaveMain initXfer] ++ callEnds
    ++ [.slaveMain initXfer]

/-- A read of the word at 01000, until `mem` is asked for it. -/
def readAsked : List Act :=
  [.slaveMain initXfer, .masterMain (some (.readDataIn 0o1000))]
    ++ List.replicate 2 (.masterMain none) ++ List.replicate 4 (.masterData noise) ++ slaveAsked

/-- `mem` serves the request, replies and signals. -/
def readServed : List Act :=
  readAsked ++ [.slaveMain ⟨.rBlockIn, 0o1000, 0⟩, .slaveMain initXfer, .slaveMain initXfer]
    ++ callEnds

/-- The wait ends too soon, and the slave looks at once. -/
def readUnserved : List Act := readAsked ++ [.spurious] ++ callEnds

/-- The mailbox is copied between the stores of `op` and `addr`. -/
def readTorn : List Act :=
  [.slaveMain initXfer, .masterMain (some (.readDataIn 0o1000))]
    ++ List.replicate 4 (.masterData noise) ++ List.replicate 2 (.masterMain none) ++ slaveAsked
    ++ [.slaveMain ⟨.rBlockIn, 0, 0⟩, .slaveMain initXfer, .slaveMain initXfer] ++ callEnds

/-- A word is written and read back. -/
theorem completion_sound_write_read :
    (runActs (step memServe isLocalAddr) (writeServed ++ readServed)
        (start true emptyMem)).nodes.reports
      = [⟨1, .writeDataOut 0o1000 5, none⟩, ⟨2, .readDataIn 0o1000, some 5⟩] ∧
    Sound (runActs (step memServe isLocalAddr) (writeServed ++ readServed)
      (start true emptyMem)).nodes :=
  ⟨by decide, completion_sound memServe isLocalAddr true emptyMem (writeServed ++ readServed)
    (by decide)⟩

/-- A read that is reported done without a reply, though it was sent as posted. -/
theorem completion_unsound : ¬ ∀ as : List Act,
    RunMeets (step memServe isLocalAddr)
        (fun t a => Checked t.nodes a ∧ Agrees t a) as (start true emptyMem) →
      Sound (runActs (step memServe isLocalAddr) as (start true emptyMem)).nodes := by
  intro h
  -- One report, and no reply it could be matched with.
  obtain ⟨done, late, hreplies, hmatch⟩ := (h readUnserved (by decide)).replies
  have hnone : (runActs (step memServe isLocalAddr) readUnserved
      (start true emptyMem)).nodes.replies = [] := by decide
  have hone : (runActs (step memServe isLocalAddr) readUnserved
      (start true emptyMem)).nodes.reports.length = 1 := by decide
  rw [hnone] at hreplies
  obtain ⟨rfl, -⟩ := List.append_eq_nil_iff.mp hreplies.symm
  rw [hmatch.length_eq] at hone
  cases hone

/-- A read of 01000 that is answered with the word at 0, though no wait ends too soon. -/
theorem completion_unsound_torn : ¬ ∀ as : List Act,
    RunMeets (step memServe isLocalAddr) (fun t => Completion.Meets t.nodes) as
        (start true emptyMem) →
      Sound (runActs (step memServe isLocalAddr) as (start true emptyMem)).nodes := by
  intro h
  obtain ⟨done, late, hreplies, hmatch⟩ := (h readTorn (by decide)).replies
  have hreport : (runActs (step memServe isLocalAddr) readTorn
      (start true emptyMem)).nodes.reports = [⟨1, .readDataIn 0o1000, some 0⟩] := by decide
  have hreply : (runActs (step memServe isLocalAddr) readTorn
      (start true emptyMem)).nodes.replies
        = [⟨1, ⟨.rBlockIn, 0, 0⟩, ⟨.rBlockIn, 0, 0⟩⟩] := by decide
  rw [hreport] at hmatch
  rw [hreply] at hreplies
  -- The one reply is not to the word that was asked for.
  cases hmatch with
  | cons hfulfils _ =>
    obtain rfl := (List.cons.inj hreplies).1
    exact absurd hfulfils.seen (by decide)

end XMachine.Unibus.Posting
