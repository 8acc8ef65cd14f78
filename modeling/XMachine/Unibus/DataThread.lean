import XMachine.Unibus.DataBus

namespace XMachine.Unibus

open XMachine.Cpu

/-!
# Data thread — `data_bus_mgr` and the main thread of its device

The threads of a node, cut into atomic steps: a mutex-protected section, and
what the thread does next on data of its own.  The post of a request and its
taking are under different mutexes; each is one step here, and `Posting` takes
them apart.

* `Node.advance` — one step of `data_bus_mgr`;
* `CallerSide` — a node whose main thread calls `read_data_in` and its siblings;
* `ServerSide` — a node whose main thread is the `execute` loop of `mem`.

A `pthread_cond_signal` wakes the thread that waits.  One that comes just before
the wait it is meant for is lost, unless `keeps` says that it is kept.
-/

/-! ### The data-bus thread -/

/-- Where the data-bus thread stands. -/
inductive DataPc
  /-- At the head of its loop. -/
  | head
  /-- Before `process_op`, with the `is_master` it read at the head. -/
  | process (isMaster : Bool)
  /-- Before `check_bus`. -/
  | check (isMaster : Bool)
  /-- In `handle_resp`, before it writes the master mailbox. -/
  | store (event : DataBusReq)
  /-- In `handle_resp`, before the signal on `cond_master_data`. -/
  | wakeMaster (data : DataState)
  /-- In `handle_req`, before it writes the slave mailbox. -/
  | post (event : DataBusReq)
  /-- In `slave_wait`, before the signal on `cond_perma_slave`. -/
  | wakeSlave (event : DataBusReq)
  /-- In `slave_wait`, before the wait on `cond_slave_data`. -/
  | beginWait (event : DataBusReq)
  /-- Waiting on `cond_slave_data`. -/
  | waiting (event : DataBusReq)
  /-- Back from `slave_wait`. -/
  | answer (event : DataBusReq)
  deriving DecidableEq, Repr

/-- A node's `bus_state` and its data-bus thread. -/
structure Node where
  isMaster : Bool
  master : Xfer
  slave : Xfer
  data : DataState
  pc : DataPc
  deriving DecidableEq, Repr

/-- After `init_bus` and the connecting of the bus. -/
def initNode (isMaster : Bool) : Node where
  isMaster := isMaster
  master := initXfer
  slave := initXfer
  data := initDataState
  pc := .head

/-- The conditions that the data-bus thread signals. -/
inductive Cond
  | masterData | permaSlave
  deriving DecidableEq, Repr

/-- What one step of the data-bus thread leaves, sends and signals. -/
structure Turn where
  node : Node
  sent : Option DataBusReq
  signal : Option Cond

/-- One step of the data-bus thread; `arrives` is what `recv` would return, and
    `uninit` what the stack holds. -/
def Node.advance (isAddrInternal : Option (Addr → Bool)) (uninit : DataBusReq)
    (arrives : Option DataBusReq) (nd : Node) : Turn :=
  match nd.pc with
  | .head =>
    let taken := takeOp nd.master nd.data
    ⟨{ nd with master := taken.1, data := taken.2, pc := .process nd.isMaster }, none, none⟩
  | .process isMaster =>
    if isMaster then
      let r := processOp uninit nd.data
      ⟨{ nd with data := r.1, pc := .check isMaster }, r.2, none⟩
    else ⟨{ nd with pc := .check isMaster }, none, none⟩
  | .check isMaster =>
    match arrives with
    | none => ⟨{ nd with pc := .head }, none, none⟩
    | some event =>
      if event.msgType = .req ∧ examineAddress isAddrInternal event then
        ⟨{ nd with pc := .post event }, none, none⟩
      else if event.msgType = .resp ∧ isMaster ∧ nd.data.reqIssued then
        ⟨{ nd with pc := .store event }, none, none⟩
      else ⟨{ nd with pc := .head }, none, none⟩
  | .store event =>
    match handleResp event nd.master nd.data with
    | none => ⟨{ nd with pc := .head }, none, none⟩
    | some (master, data) => ⟨{ nd with master := master, pc := .wakeMaster data }, none, none⟩
  | .wakeMaster data => ⟨{ nd with data := data, pc := .head }, none, some .masterData⟩
  | .post event =>
    match slavePost event with
    | none => ⟨{ nd with pc := .head }, none, none⟩
    | some slave => ⟨{ nd with slave := slave, pc := .wakeSlave event }, none, none⟩
  | .wakeSlave event => ⟨{ nd with pc := .beginWait event }, none, some .permaSlave⟩
  | .beginWait event => ⟨{ nd with pc := .waiting event }, none, none⟩
  | .waiting _ => ⟨nd, none, none⟩
  | .answer event =>
    let r := slaveAnswer uninit event.c nd.slave
    ⟨{ nd with slave := r.2, pc := .head }, some r.1, none⟩

/-- The condition that the next step signals. -/
def Node.signals (nd : Node) : Option Cond :=
  match nd.pc with
  | .wakeMaster _ => some .masterData
  | .wakeSlave _ => some .permaSlave
  | _ => none

/-- Between the two halves of `slave_wait`, or waiting in the second. -/
def Node.inSlaveWait (nd : Node) : Bool :=
  match nd.pc with
  | .beginWait _ | .waiting _ => true
  | _ => false

/-- Waiting on `cond_slave_data`. -/
def Node.waitsSlave (nd : Node) : Bool :=
  match nd.pc with
  | .waiting _ => true
  | _ => false

theorem Node.pc_of_signals_masterData {nd : Node} (h : nd.signals = some .masterData) :
    ∃ data, nd.pc = .wakeMaster data := by
  obtain ⟨isMaster, master, slave, data, pc⟩ := nd
  cases pc <;> first | exact ⟨_, rfl⟩ | cases h

theorem Node.pc_of_signals_permaSlave {nd : Node} (h : nd.signals = some .permaSlave) :
    ∃ event, nd.pc = .wakeSlave event := by
  obtain ⟨isMaster, master, slave, data, pc⟩ := nd
  cases pc <;> first | exact ⟨_, rfl⟩ | cases h

theorem Node.pc_of_waitsSlave {nd : Node} (h : nd.waitsSlave = true) :
    ∃ event, nd.pc = .waiting event := by
  obtain ⟨isMaster, master, slave, data, pc⟩ := nd
  cases pc <;> first | exact ⟨_, rfl⟩ | cases h

theorem Node.signals_of_inSlaveWait {nd : Node} (h : nd.inSlaveWait = true) :
    nd.signals = none := by
  obtain ⟨isMaster, master, slave, data, pc⟩ := nd
  cases pc <;> first | rfl | cases h

/-- The signal on `cond_slave_data`. -/
def Node.signalSlave (keeps : Bool) (nd : Node) : Node :=
  match nd.pc with
  | .waiting event => { nd with pc := .answer event }
  | .beginWait event => if keeps then { nd with pc := .answer event } else nd
  | _ => nd

/-! ### A main thread that makes calls -/

/-- Where a thread that makes calls stands. -/
inductive CallerPc
  | idle
  /-- The request is posted. -/
  | posted (call : Call)
  /-- Waiting on `cond_master_data`. -/
  | waiting (call : Call)
  | woken (call : Call)
  deriving DecidableEq, Repr

/-- The request is posted and the result is not yet there. -/
def CallerPc.isPending : CallerPc → Bool
  | .posted _ | .waiting _ => true
  | .idle | .woken _ => false

/-- Waiting on `cond_master_data`. -/
def CallerPc.isWaiting : CallerPc → Bool
  | .waiting _ => true
  | _ => false

/-- The signal on `cond_master_data`. -/
def CallerPc.signal (keeps : Bool) : CallerPc → CallerPc
  | .waiting call => .woken call
  | .posted call => if keeps then .woken call else .posted call
  | pc => pc

/-- A node without an address test, such as `cpu`, and its main thread. -/
structure CallerSide where
  node : Node
  caller : CallerPc
  deriving DecidableEq, Repr

namespace CallerSide

/-- A step of the data-bus thread, and the message it sends. -/
def data (keeps : Bool) (uninit : DataBusReq) (arrives : Option DataBusReq) (s : CallerSide) :
    CallerSide × Option DataBusReq :=
  let t := s.node.advance none uninit arrives
  (⟨t.node, if t.signal = some .masterData then s.caller.signal keeps else s.caller⟩, t.sent)

/-- A step of the main thread, which makes the call `next` when it has none,
    and the result of the call it ends. -/
def main (next : Option Call) (s : CallerSide) : CallerSide × Option (Option Word) :=
  match s.caller with
  | .idle =>
    match next with
    | none => (s, none)
    | some call => (⟨{ s.node with master := call.post s.node.master }, .posted call⟩, none)
  | .posted call => ({ s with caller := .waiting call }, none)
  | .waiting _ => (s, none)
  | .woken call =>
    let r := call.collect s.node.master
    (⟨{ s.node with master := r.1 }, .idle⟩, some r.2)

end CallerSide

/-! ### Where a request can be -/

/-- A request that has been posted is in the mailbox, in the buffer or on the
    bus, and in one of these places only. -/
structure Owed (nd : Node) : Prop where
  master : nd.master.op.isRequest = true →
    nd.data.buffer.op = .rNone ∧ nd.data.reqIssued = false
  buffer : nd.data.buffer.op ≠ .rNone → nd.data.reqIssued = false
  store : ∀ event, nd.pc = .store event → nd.data.reqIssued = true
  wake : ∀ data, nd.pc = .wakeMaster data →
    nd.data.reqIssued = true ∧ data = { nd.data with reqIssued := false }

/-- No request is anywhere. -/
structure Settled (nd : Node) : Prop where
  master : nd.master.op.isRequest = false
  buffer : nd.data.buffer.op = .rNone
  issued : nd.data.reqIssued = false
  store : ∀ event, nd.pc ≠ .store event
  wake : ∀ data, nd.pc ≠ .wakeMaster data

theorem Settled.owed {nd : Node} (h : Settled nd) : Owed nd where
  master hm := absurd hm (by rw [h.master]; decide)
  buffer hb := absurd h.buffer hb
  store event he := absurd he (h.store event)
  wake data hd := absurd hd (h.wake data)

section Requests

variable {nd : Node} (f : Option (Addr → Bool)) (uninit : DataBusReq)
  (arrives : Option DataBusReq)

theorem takeOp_of_request {master : Xfer} (d : DataState) (h : master.op.isRequest = true) :
    (takeOp master d).1.op = .rNone ∧ (takeOp master d).2.buffer.op = master.op ∧
      (takeOp master d).2.reqIssued = d.reqIssued := by
  cases hop : master.op <;> simp_all [takeOp, DataOp.isRequest]

theorem takeOp_of_not_request {master : Xfer} (d : DataState)
    (h : master.op.isRequest = false) :
    (takeOp master d).1.op.isRequest = false ∧ (takeOp master d).2 = d := by
  cases hop : master.op <;> simp_all [takeOp, DataOp.isRequest]

theorem processOp_buffer (d : DataState) : (processOp uninit d).1.buffer.op = .rNone := by
  cases hop : d.buffer.op <;> simp [processOp, hop]

theorem processOp_empty {d : DataState} (h : d.buffer.op = .rNone) :
    (processOp uninit d).1.reqIssued = d.reqIssued := by
  simp [processOp, h]

/-- A request on the bus is not in the buffer. -/
theorem Owed.buffer_of_issued (h : Owed nd) (hi : nd.data.reqIssued = true) :
    nd.data.buffer.op = .rNone := by
  by_contra hne
  exact absurd (h.buffer hne) (by rw [hi]; decide)

/-- Only the place in `handle_resp` matters. -/
theorem Owed.move (h : Owed nd) (slave : Xfer) {pc : DataPc} (hw : ∀ data, pc ≠ .wakeMaster data)
    (hs : ∀ event, pc = .store event → nd.data.reqIssued = true) :
    Owed { nd with slave := slave, pc := pc } where
  master := h.master
  buffer := h.buffer
  store := hs
  wake data hd := absurd hd (hw data)

/-- The data-bus thread moves a request from place to place. -/
theorem Owed.advance (h : Owed nd) : Owed (nd.advance f uninit arrives).node := by
  unfold Node.advance
  split
  · -- head
    cases hm : nd.master.op.isRequest with
    | true =>
      obtain ⟨hop, hbuf, hreq⟩ := takeOp_of_request nd.data hm
      have hissued := (h.master hm).2
      constructor <;> simp [hop, hreq, hissued, DataOp.isRequest]
    | false =>
      obtain ⟨hop, hdata⟩ := takeOp_of_not_request nd.data hm
      constructor <;> simp [hop, hdata]
      exact h.buffer
  · -- process
    split
    · have hbuf := processOp_buffer uninit nd.data
      constructor <;> simp [hbuf]
      intro hm
      rw [processOp_empty uninit (h.master hm).1, (h.master hm).2]
    · exact h.move nd.slave nofun nofun
  · -- check
    split
    · exact h.move nd.slave nofun nofun
    · split_ifs with hreq hresp
      · exact h.move nd.slave nofun nofun
      · exact h.move nd.slave nofun fun _ _ => hresp.2.2
      · exact h.move nd.slave nofun nofun
  · -- store
    next event hpc =>
    have hissued := h.store event hpc
    have hnone := h.buffer_of_issued hissued
    split
    · exact h.move nd.slave nofun nofun
    · next master data hresp =>
      unfold handleResp at hresp
      split at hresp <;> cases hresp <;> constructor <;>
        simp [DataOp.isRequest, hissued, hnone]
  · -- wakeMaster
    next data hpc =>
    obtain ⟨hissued, rfl⟩ := h.wake data hpc
    constructor <;> simp [h.buffer_of_issued hissued]
  · -- post
    split
    · exact h.move nd.slave nofun nofun
    · exact h.move _ nofun nofun
  · exact h.move nd.slave nofun nofun
  · exact h.move nd.slave nofun nofun
  · exact h
  · exact h.move _ nofun nofun

/-- Nothing comes of nothing: without a request no response is taken. -/
theorem Settled.advance (h : Settled nd) : Settled (nd.advance f uninit arrives).node := by
  obtain ⟨hm, hb, hi, hs, hw⟩ := h
  unfold Node.advance
  split
  · -- head
    obtain ⟨hop, hdata⟩ := takeOp_of_not_request nd.data hm
    constructor <;> simp [hop, hdata, hb, hi]
  · -- process
    split
    · constructor <;> simp [hm, processOp_buffer, processOp_empty uninit hb, hi]
    · constructor <;> simp [hm, hb, hi]
  · -- check
    split
    · constructor <;> simp [hm, hb, hi]
    · rw [hi]
      split_ifs <;> constructor <;> simp_all
  · next event hpc => exact absurd hpc (hs event)
  · next data hpc => exact absurd hpc (hw data)
  · split <;> constructor <;> simp [hm, hb, hi]
  · constructor <;> simp [hm, hb, hi]
  · constructor <;> simp [hm, hb, hi]
  · exact ⟨hm, hb, hi, hs, hw⟩
  · constructor <;> simp [hm, hb, hi]

/-- Once `handle_resp` has ended, no request is left. -/
theorem Owed.settled_of_signal (h : Owed nd) (hw : nd.signals = some .masterData) :
    Settled (nd.advance f uninit arrives).node := by
  obtain ⟨data, hpc⟩ := Node.pc_of_signals_masterData hw
  obtain ⟨hissued, rfl⟩ := h.wake data hpc
  have hnone := h.buffer_of_issued hissued
  have hmaster : nd.master.op.isRequest = false := by
    by_contra hm
    exact absurd (h.master (by simpa using hm)).2 (by rw [hissued]; decide)
  unfold Node.advance
  rw [hpc]
  constructor <;> simp [hmaster, hnone]

theorem advance_signal : (nd.advance f uninit arrives).signal = nd.signals := by
  obtain ⟨isMaster, master, slave, data, pc⟩ := nd
  cases pc <;> dsimp only [Node.advance, Node.signals] <;> (repeat' split) <;> rfl

/-- `check_bus` decides where the thread goes, and changes nothing else. -/
theorem advance_check {isMaster : Bool} (h : nd.pc = .check isMaster) :
    ∃ pc, (nd.advance f uninit arrives).node = { nd with pc := pc } ∧
      (pc = .head ∨ (∃ event, pc = .post event) ∨ ∃ event, pc = .store event) := by
  unfold Node.advance
  rw [h]
  dsimp only
  split
  · exact ⟨.head, rfl, .inl rfl⟩
  · next event =>
    split_ifs
    · exact ⟨.post event, rfl, .inr (.inl ⟨event, rfl⟩)⟩
    · exact ⟨.store event, rfl, .inr (.inr ⟨event, rfl⟩)⟩
    · exact ⟨.head, rfl, .inl rfl⟩

/-- A request accepted is posted, or dropped if there is nothing to do. -/
theorem advance_post {event : DataBusReq} (h : nd.pc = .post event) :
    (nd.advance f uninit arrives).node = { nd with pc := .head } ∨
      ∃ slave, slave.op.isBlock = true ∧ (nd.advance f uninit arrives).node
        = { nd with slave := slave, pc := .wakeSlave event } := by
  unfold Node.advance slavePost
  rw [h]
  dsimp only
  cases event.c
  case dati | dato | datob => exact .inr ⟨_, rfl, rfl⟩
  case datip | empty => exact .inl rfl

end Requests

/-! ### A main thread that serves requests -/

/-- Where the `execute` loop stands. -/
inductive ServerPc
  | loop
  /-- Waiting on `cond_perma_slave`. -/
  | waiting
  | woken
  /-- The request is performed; `slave_req` is what is answered. -/
  | performed (req : Xfer)
  /-- The reply is in the slave mailbox, the signal is not yet given. -/
  | replied
  deriving DecidableEq, Repr

/-- Between the wake-up and the signal of the reply. -/
def ServerPc.isBusy : ServerPc → Bool
  | .woken | .performed _ | .replied => true
  | .loop | .waiting => false

/-- The signal on `cond_perma_slave`. -/
def ServerPc.signal (keeps : Bool) : ServerPc → ServerPc
  | .waiting => .woken
  | .loop => if keeps then .woken else .loop
  | pc => pc

/-- A node, its main thread and the device behind it. -/
structure ServerSide (σ : Type) where
  node : Node
  server : ServerPc
  dev : σ

namespace ServerSide

variable {σ : Type}

/-- A step of the data-bus thread, and the message it sends. -/
def data (keeps : Bool) (isAddrInternal : Option (Addr → Bool)) (uninit : DataBusReq)
    (arrives : Option DataBusReq) (s : ServerSide σ) : ServerSide σ × Option DataBusReq :=
  let t := s.node.advance isAddrInternal uninit arrives
  ({ s with
      node := t.node
      server := if t.signal = some .permaSlave then s.server.signal keeps else s.server }, t.sent)

/-- A step of the main thread; `perform` is what the device does with a request. -/
def main (keeps : Bool) (perform : σ → Xfer → σ × Xfer) (s : ServerSide σ) : ServerSide σ :=
  match s.server with
  | .loop => { s with server := .waiting }
  | .waiting => s
  | .woken =>
    let req := dataBusCheck s.node.slave
    match req.op with
    | .rBlockIn | .rBlockOut | .rBlockOutb =>
      let r := perform s.dev req
      { s with dev := r.1, server := .performed r.2 }
    | _ => { s with server := .loop }
  | .performed req =>
    { s with node := { s.node with slave := dataBusReply req }, server := .replied }
  | .replied => { s with node := s.node.signalSlave keeps, server := .loop }

end ServerSide

end XMachine.Unibus
