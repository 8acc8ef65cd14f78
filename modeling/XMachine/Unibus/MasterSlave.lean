import XMachine.Unibus.BusMemory

namespace XMachine.Unibus.MasterSlave

open XMachine.Lib XMachine.Cpu XMachine.Mem XMachine.Unibus.BusMemory

/-!
# Master and slave — one call after the other, with unreliable waits

A master, the slave that owns the address and the two sockets between them,
with the waits as POSIX has them: a signal given before the wait begins is lost,
and the wait of `slave_wait` may return without one.  The device behind the
slave is a parameter.

* `Sys`, `step` — the two nodes, with a record of what the device replied and of
  what the calls reported;
* `MasterAt`, `SlaveAt` — where a call stands on each node, and what a step of
  its threads makes of it.
-/

/-! ### The system -/

/-- `assert_t`. -/
inductive Assert
  | asserted | negated
  deriving DecidableEq, Repr

/-- A response on its way, with the `ssyn` that nobody looks at. -/
structure Response where
  msg : DataBusReq
  ssyn : Assert
  deriving DecidableEq, Repr

/-- The `ssyn` of `slaveAnswer`. -/
def slaveSsyn (slave : Xfer) : Assert := if slave.op = .rDone then .asserted else .negated

/-- A `data_bus_reply`: the request served, how many calls the master had made
    when the device took it, and the result posted. -/
structure Reply where
  number : ℕ
  seen : Xfer
  result : Xfer
  deriving DecidableEq, Repr

/-- A call that saw `R_DONE`: which one it was, and what it returned. -/
structure Report where
  number : ℕ
  call : Call
  value : Option Word
  deriving DecidableEq, Repr

structure Sys (σ : Type) where
  master : CallerSide
  slave : ServerSide σ
  /-- The datagrams on their way to the slave, the oldest first. -/
  toSlave : List DataBusReq
  /-- The datagrams on their way to the master, the oldest first. -/
  toMaster : List Response
  /-- How many calls the master has made. -/
  made : ℕ
  /-- The request the device took last, and how many calls had been made then. -/
  taken : ℕ × Xfer
  replies : List Reply
  reports : List Report
  /-- The `ssyn` of the responses `handle_resp` was called with. -/
  accepted : List Assert

def start {σ : Type} (isMaster : Bool) (dev : σ) : Sys σ where
  master := ⟨initNode isMaster, .idle⟩
  slave := ⟨initNode false, .loop, dev⟩
  toSlave := []
  toMaster := []
  made := 0
  taken := (0, initXfer)
  replies := []
  reports := []
  accepted := []

inductive Act
  /-- The priority bus gives the master the bus, or takes it away. -/
  | setMaster (b : Bool)
  /-- The same for the slave. -/
  | setSlave (b : Bool)
  /-- A step of the master's main thread, which makes the call `next` if it has none. -/
  | masterMain (next : Option Call)
  | masterData (uninit : DataBusReq)
  /-- A step of the device's main thread; `req` is what `slave_req` holds. -/
  | slaveMain (req : Xfer)
  | slaveData (uninit : DataBusReq)
  /-- The wait of `slave_wait` returns without a signal. -/
  | spurious
  deriving DecidableEq, Repr

/-- What is left of a socket after the step of a node. -/
def leave {α : Type} (nd : Node) (queue : List α) : List α :=
  if Node.receives nd then queue.tail else queue

/-- The thread is about to run `handle_resp`. -/
def Node.stores (nd : Node) : Bool :=
  match nd.pc with
  | .store _ => true
  | _ => false

/-- Back from `slave_wait`. -/
def Node.answers (nd : Node) : Bool :=
  match nd.pc with
  | .answer _ => true
  | _ => false

section Step

variable {σ : Type} (serve : σ → Xfer → σ × Option Xfer)

/-- A step of a device's main thread.  `serve` is its switch over `slave_req`,
    with what is handed to `data_bus_reply` where that is called. -/
def serverMain (req : Xfer) (s : ServerSide σ) : ServerSide σ :=
  match s.server with
  | .loop => { s with server := .waiting }
  | .waiting => s
  | .woken =>
    match serve s.dev req with
    | (dev, some result) => { s with dev := dev, server := .performed result }
    | (dev, none) => { s with dev := dev, server := .loop }
  | .performed result =>
    { s with node := { s.node with slave := dataBusReply result }, server := .replied }
  | .replied => { s with node := s.node.signalSlave false, server := .loop }

/-- The reply the step posts. -/
def replied (s : Sys σ) : List Reply :=
  match s.slave.server with
  | .performed result => [⟨s.taken.1, s.taken.2, result⟩]
  | _ => []

/-- The report of the call the step ends, if it sees `R_DONE`. -/
def reported (s : Sys σ) : List Report :=
  match s.master.caller with
  | .woken call =>
    if s.master.node.master.op = .rDone then
      [⟨s.made, call, (call.collect s.master.node.master).2⟩]
    else []
  | _ => []

def step (isAddrInternal : Addr → Bool) (a : Act) (s : Sys σ) : Sys σ :=
  match a with
  | .setMaster b =>
    { s with master := { s.master with node := { s.master.node with isMaster := b } } }
  | .setSlave b => { s with slave := { s.slave with node := { s.slave.node with isMaster := b } } }
  | .masterMain next =>
    { s with
        master := (s.master.main next).1
        made := if s.master.caller = .idle ∧ next.isSome then s.made + 1 else s.made
        reports := s.reports ++ reported s }
  | .masterData uninit =>
    let r := s.master.data false uninit (s.toMaster.head?.map Response.msg)
    { s with
        master := r.1
        toMaster := leave s.master.node s.toMaster
        toSlave := s.toSlave ++ r.2.toList
        accepted := s.accepted ++ if Node.receives s.master.node ∧ Node.stores r.1.node then
          (s.toMaster.head?.map Response.ssyn).toList else [] }
  | .slaveMain req =>
    { s with
        slave := serverMain serve req s.slave
        taken := if s.slave.server = .woken then (s.made, req) else s.taken
        replies := s.replies ++ replied s }
  | .slaveData uninit =>
    let r := s.slave.data false (some isAddrInternal) uninit s.toSlave.head?
    { s with
        slave := r.1
        toSlave := leave s.slave.node s.toSlave
        toMaster := s.toMaster ++ (r.2.map (⟨·, slaveSsyn s.slave.node.slave⟩)).toList }
  | .spurious => { s with slave := { s.slave with node := s.slave.node.signalSlave false } }

end Step

/-- The loop body of `mem`. -/
def memServe (dev : MemDev) (req : Xfer) : MemDev × Option Xfer :=
  if req.op.isBlock then ((perform dev req).1, some (perform dev req).2) else (dev, none)

/-- `mem` serves the request that `data_bus_check` finds. -/
theorem serverMain_mem (s : ServerSide MemDev) :
    serverMain memServe (dataBusCheck s.node.slave) s = s.main false perform := by
  obtain ⟨node, server, dev⟩ := s
  cases server with
  | woken =>
    simp only [serverMain, ServerSide.main, memServe]
    cases hop : (dataBusCheck node.slave).op <;> rfl
  | loop | waiting | performed _ | replied => rfl

/-- What a call returns when the device has posted `value`. -/
def returned (call : Call) (value : Word) : Option Word :=
  match call with
  | .readDataIn _ => some value
  | .writeDataOut _ _ | .writeDataOutB _ _ => none

/-! ### Stages on the master -/

/-- Where the data-bus thread stands, at a stage of the call. -/
def MasterPc (nd : Node) : CpuStage → Prop
  | .storing m => nd.pc = .store m
  | .stored => nd.pc = .wakeMaster { nd.data with reqIssued := false }
  | .idle | .posted | .taken | .out | .done => ∃ b, Rounds b nd.pc

/-- Where the main thread stands.  It may have missed the signal. -/
def MasterCaller (call : Call) (pc : CallerPc) : CpuStage → Prop
  | .idle => pc = .idle
  | .posted | .taken | .out | .storing _ | .stored => pc = .posted call ∨ pc = .waiting call
  | .done => pc = .posted call ∨ pc = .waiting call ∨ pc = .woken call

/-- The call stands at the stage; `v` is what it will return. -/
structure MasterAt (call : Call) (v : Option Word) (g : CpuStage) (s : CallerSide) : Prop where
  pc : MasterPc s.node g
  caller : MasterCaller call s.caller g
  master : g.Mailbox call v s.node.master
  buffer : g.Buffer call s.node.data.buffer
  issued : s.node.data.reqIssued = g.issued

section Rounds

variable {nd : Node} (f : Option (Addr → Bool)) (uninit : DataBusReq)

/-- What arrives is seen by `recv` alone. -/
theorem advance_of_not_receives (h : Node.receives nd = false) (arrives : Option DataBusReq) :
    nd.advance f uninit arrives = nd.advance f uninit none := by
  obtain ⟨isMaster, master, slave, data, pc⟩ := nd
  cases pc <;> first | rfl | cases h

theorem receives_of_rounds {b : Bool} (h : Rounds b nd.pc) (hr : Node.receives nd = true) :
    nd.pc = .check b := by
  rcases h with h | h | h
  · rw [Node.receives, h] at hr
    cases hr
  · rw [Node.receives, h] at hr
    cases hr
  · exact h

/-- With nothing to take, to send or to receive the thread only goes on. -/
theorem advance_round {b : Bool} (h : Rounds b nd.pc) (hbuffer : nd.data.buffer.op = .rNone)
    (hmaster : nd.pc = .head → nd.master.op = .rNone ∨ nd.master.op = .rDone) :
    ∃ pc b', Rounds b' pc ∧
      nd.advance f uninit none = ⟨{ nd with pc := pc }, none, none⟩ := by
  unfold Node.advance
  rcases h with h | h | h
  · -- Nothing to take: the mailbox is empty or holds a response.
    have htake : takeOp nd.master nd.data = (nd.master, nd.data) := by
      unfold takeOp
      rcases hmaster h with hop | hop <;> rw [hop]
    refine ⟨.process nd.isMaster, nd.isMaster, .inr (.inl rfl), ?_⟩
    rw [h]
    simp only [htake]
  · refine ⟨.check b, b, .inr (.inr rfl), ?_⟩
    rw [h]
    simp only [processOp_of_none uninit hbuffer]
    split <;> rfl
  · refine ⟨.head, b, .inl rfl, ?_⟩
    rw [h]

end Rounds

section Master

variable {call : Call} {v : Option Word} {s : CallerSide} (uninit : DataBusReq)

/-- Before the request and after the response the thread goes round its loop. -/
theorem MasterAt.data_rest {g : CpuStage} (h : MasterAt call v g s)
    (hg : g = .idle ∨ g = .out ∨ g = .done) :
    (s.data false uninit none).2 = none ∧ MasterAt call v g (s.data false uninit none).1 := by
  obtain ⟨⟨b, hr⟩, hb, hm⟩ : (∃ b, Rounds b s.node.pc) ∧ s.node.data.buffer.op = .rNone ∧
      (s.node.master.op = .rNone ∨ s.node.master.op = .rDone) := by
    rcases hg with rfl | rfl | rfl
    · exact ⟨h.pc, h.buffer, .inl h.master⟩
    · exact ⟨h.pc, h.buffer, .inl h.master⟩
    · exact ⟨h.pc, h.buffer, .inr h.master.1⟩
  obtain ⟨pc, b', hr', hadvance⟩ := advance_round none uninit hr hb fun _ => hm
  have hstep : s.data false uninit none = (⟨{ s.node with pc := pc }, s.caller⟩, none) := by
    simp only [CallerSide.data, hadvance, reduceCtorEq, if_false]
  rw [hstep]
  refine ⟨rfl, ?_, h.caller, h.master, h.buffer, h.issued⟩
  rcases hg with rfl | rfl | rfl <;> exact ⟨b', hr'⟩

/-- A posted request stays in the mailbox or is taken. -/
theorem MasterAt.data_posted (h : MasterAt call v .posted s) :
    (s.data false uninit none).2 = none ∧
      (MasterAt call v .posted (s.data false uninit none).1 ∨
        MasterAt call v .taken (s.data false uninit none).1) := by
  obtain ⟨⟨b, hr⟩, hcaller, hpost, hbuffer, hissued⟩ := h
  by_cases hhead : s.node.pc = .head
  · -- At the head of the loop it goes from the mailbox to the buffer.
    have hstep : s.data false uninit none = (⟨{ s.node with
        master := { s.node.master with op := .rNone }
        data := { s.node.data with buffer := call.post s.node.data.buffer }
        pc := .process s.node.isMaster }, s.caller⟩, none) := by
      simp only [CallerSide.data, Node.advance, hhead, takeOp_posted s.node.data hpost,
        reduceCtorEq, if_false]
    rw [hstep]
    exact ⟨rfl, .inr ⟨⟨_, .inr (.inl rfl)⟩, hcaller, rfl, post_post call _, hissued⟩⟩
  · obtain ⟨pc, b', hr', hadvance⟩ := advance_round none uninit hr hbuffer fun hh => absurd hh hhead
    have hstep : s.data false uninit none = (⟨{ s.node with pc := pc }, s.caller⟩, none) := by
      simp only [CallerSide.data, hadvance, reduceCtorEq, if_false]
    rw [hstep]
    exact ⟨rfl, .inl ⟨⟨b', hr'⟩, hcaller, hpost, hbuffer, hissued⟩⟩

/-- A request taken stays in the buffer or is sent. -/
theorem MasterAt.data_taken (h : MasterAt call v .taken s) :
    (s.data false uninit none).2 = none ∧ MasterAt call v .taken (s.data false uninit none).1 ∨
      ∃ m, (s.data false uninit none).2 = some m ∧ Asks call m ∧
        MasterAt call v .out (s.data false uninit none).1 := by
  obtain ⟨⟨b, hr⟩, hcaller, hmaster, hpost, hissued⟩ := h
  have hmaster : s.node.master.op = .rNone := hmaster
  rcases hr with hpc | hpc | hpc
  · have htake : takeOp s.node.master s.node.data = (s.node.master, s.node.data) := by
      rw [takeOp, hmaster]
    have hstep : s.data false uninit none
        = (⟨{ s.node with pc := .process s.node.isMaster }, s.caller⟩, none) := by
      simp only [CallerSide.data, Node.advance, hpc, htake, reduceCtorEq, if_false]
    rw [hstep]
    exact .inl ⟨rfl, ⟨_, .inr (.inl rfl)⟩, hcaller, hmaster, hpost, hissued⟩
  · cases b with
    | true =>
      -- The master sends it.
      obtain ⟨m, hsend, hasks⟩ := processOp_taken uninit hpost
      have hstep : s.data false uninit none = (⟨{ s.node with
          data := ⟨{ s.node.data.buffer with op := .rNone }, true⟩
          pc := .check true }, s.caller⟩, some m) := by
        simp only [CallerSide.data, Node.advance, hpc, hsend, if_true, reduceCtorEq, if_false]
      rw [hstep]
      exact .inr ⟨m, rfl, hasks, ⟨true, .inr (.inr rfl)⟩, hcaller, hmaster, rfl, rfl⟩
    | false =>
      have hstep : s.data false uninit none
          = (⟨{ s.node with pc := .check false }, s.caller⟩, none) := by
        simp [CallerSide.data, Node.advance, hpc]
      rw [hstep]
      exact .inl ⟨rfl, ⟨false, .inr (.inr rfl)⟩, hcaller, hmaster, hpost, hissued⟩
  · have hstep : s.data false uninit none = (⟨{ s.node with pc := .head }, s.caller⟩, none) := by
      simp only [CallerSide.data, Node.advance, hpc, reduceCtorEq, if_false]
    rw [hstep]
    exact .inl ⟨rfl, ⟨b, .inl rfl⟩, hcaller, hmaster, hpost, hissued⟩

/-- The response is taken from the socket, or dropped by a node that was not master. -/
theorem MasterAt.data_receive (h : MasterAt call v .out s) {m : DataBusReq}
    (hm : Answers call v m) (hreceives : Node.receives s.node = true) :
    (s.data false uninit (some m)).2 = none ∧
      (MasterAt call v (.storing m) (s.data false uninit (some m)).1 ∨
        MasterAt call v .out (s.data false uninit (some m)).1) := by
  obtain ⟨⟨b, hr⟩, hcaller, hmaster, hbuffer, hissued⟩ := h
  have hpc := receives_of_rounds hr hreceives
  have hissued : s.node.data.reqIssued = true := hissued
  -- Only a node that was master at the head of the loop stores a response.
  cases b with
  | true =>
    have hstep : s.data false uninit (some m)
        = (⟨{ s.node with pc := .store m }, s.caller⟩, none) := by
      simp [CallerSide.data, Node.advance, hpc, hm.msgType, hissued]
    rw [hstep]
    exact ⟨rfl, .inl ⟨rfl, hcaller, hmaster, hbuffer, hissued⟩⟩
  | false =>
    have hstep : s.data false uninit (some m)
        = (⟨{ s.node with pc := .head }, s.caller⟩, none) := by
      simp [CallerSide.data, Node.advance, hpc, hm.msgType]
    rw [hstep]
    exact ⟨rfl, .inr ⟨⟨true, .inl rfl⟩, hcaller, hmaster, hbuffer, hissued⟩⟩

/-- The response is put into the mailbox. -/
theorem MasterAt.data_storing {m : DataBusReq} (h : MasterAt call v (.storing m) s)
    (hm : Answers call v m) :
    (s.data false uninit none).2 = none ∧ MasterAt call v .stored (s.data false uninit none).1 := by
  obtain ⟨hpc, hcaller, hmaster, hbuffer, hissued⟩ := h
  have hpc : s.node.pc = .store m := hpc
  have hstep : s.data false uninit none = (⟨{ s.node with
      master := { s.node.master with op := .rDone, value := m.data }
      pc := .wakeMaster { s.node.data with reqIssued := false } }, s.caller⟩, none) := by
    simp only [CallerSide.data, Node.advance, hpc, handleResp_answers hm, reduceCtorEq, if_false]
  rw [hstep]
  exact ⟨rfl, rfl, hcaller, ⟨rfl, hm.value⟩, hbuffer, hissued⟩

/-- The signal ends the wait, if it has begun. -/
theorem MasterAt.data_stored (h : MasterAt call v .stored s) :
    (s.data false uninit none).2 = none ∧ MasterAt call v .done (s.data false uninit none).1 := by
  obtain ⟨hpc, hcaller, hmaster, hbuffer, hissued⟩ := h
  have hpc : s.node.pc = .wakeMaster { s.node.data with reqIssued := false } := hpc
  have hstep : s.data false uninit none = (⟨{ s.node with
      data := { s.node.data with reqIssued := false }
      pc := .head }, s.caller.signal false⟩, none) := by
    simp only [CallerSide.data, Node.advance, hpc, if_true]
  rw [hstep]
  refine ⟨rfl, ⟨true, .inl rfl⟩, ?_, hmaster, hbuffer, rfl⟩
  rcases hcaller with hc | hc
  · exact .inl (by rw [hc]; rfl)
  · exact .inr (.inr (by rw [hc]; rfl))

/-- While the call is on its way the main thread only begins its wait. -/
theorem MasterAt.main_pending {g : CpuStage} (h : MasterAt call v g s) (hi : g ≠ .idle)
    (hw : s.caller ≠ .woken call) (next : Option Call) :
    MasterAt call v g (s.main next).1 ∧ (s.caller = .posted call ∨ s.caller = .waiting call) := by
  have hcaller : s.caller = .posted call ∨ s.caller = .waiting call := by
    cases g with
    | idle => exact absurd rfl hi
    | done => exact h.caller.imp_right fun hc => hc.resolve_right hw
    | posted | taken | out | storing _ | stored => exact h.caller
  -- A caller that has missed the signal waits, also after the response.
  have hwaits : MasterCaller call (.waiting call) g := by
    cases g with
    | idle => exact absurd rfl hi
    | done => exact .inr (.inl rfl)
    | posted | taken | out | storing _ | stored => exact .inr rfl
  refine ⟨?_, hcaller⟩
  rcases hcaller with hc | hc
  · have hstep : s.main next = ({ s with caller := .waiting call }, none) := by
      simp only [CallerSide.main, hc]
    rw [hstep]
    exact ⟨h.pc, hwaits, h.master, h.buffer, h.issued⟩
  · have hstep : s.main next = (s, none) := by simp only [CallerSide.main, hc]
    rw [hstep]
    exact h

/-- Without a call of its own the main thread makes the next one. -/
theorem MasterAt.main_post {next : Call} {v' : Option Word} (h : MasterAt call v .idle s) :
    MasterAt next v' .posted (s.main (some next)).1 := by
  have hc : s.caller = .idle := h.caller
  have hstep : (s.main (some next)).1
      = ⟨{ s.node with master := next.post s.node.master }, .posted next⟩ := by
    simp only [CallerSide.main, hc]
  rw [hstep]
  exact ⟨h.pc, .inl rfl, post_post next _, h.buffer, h.issued⟩

/-- The result is collected: it is what the response has left in the mailbox. -/
theorem MasterAt.main_done {x : Word} (h : MasterAt call (returned call x) .done s)
    (hc : s.caller = .woken call) (next : Option Call) :
    MasterAt call (returned call x) .idle (s.main next).1 ∧
      s.node.master.op = .rDone ∧ (call.collect s.node.master).2 = returned call x := by
  obtain ⟨hop, hvalue⟩ := h.master
  have hstep : (s.main next).1
      = ⟨{ s.node with master := (call.collect s.node.master).1 }, .idle⟩ := by
    simp only [CallerSide.main, hc]
  refine ⟨?_, hop, ?_⟩
  · rw [hstep]
    exact ⟨h.pc, rfl, rfl, h.buffer, h.issued⟩
  · cases call with
    | readDataIn addr => exact congrArg some (hvalue _ rfl)
    | writeDataOut addr data => rfl
    | writeDataOutB addr data => rfl

end Master

/-! ### Stages on the slave -/

inductive SlaveStage
  | free
  /-- The request is taken from the socket. -/
  | accepted (m : DataBusReq)
  /-- In the slave mailbox. -/
  | posted (m : DataBusReq)
  /-- In `slave_wait` or back from it, before the reply. -/
  | asked (m : DataBusReq)
  /-- The same, after the reply. -/
  | replied (m : DataBusReq)
  deriving DecidableEq

namespace SlaveStage

/-- The request at the slave. -/
def request : SlaveStage → Option DataBusReq
  | .accepted m | .posted m | .asked m | .replied m => some m
  | .free => none

/-- The device has posted its result. -/
def isReplied : SlaveStage → Bool
  | .replied _ => true
  | .free | .accepted _ | .posted _ | .asked _ => false

/-- Where the data-bus thread stands. -/
def Pc (pc : DataPc) : SlaveStage → Prop
  | .free => ∃ b, Rounds b pc
  | .accepted m => pc = .post m
  | .posted m => pc = .wakeSlave m
  | .asked m | .replied m => pc = .beginWait m ∨ pc = .waiting m ∨ pc = .answer m

/-- What is in the slave mailbox. -/
def Mailbox (call : Call) (x : Word) (slave : Xfer) : SlaveStage → Prop
  | .posted _ | .asked _ => slave = slaveRequest call
  | .replied _ => slave.op = .rDone ∧ slave.value = x
  | .free | .accepted _ => True

/-- The device serves nothing, though it may not have given its last signal. -/
def Unasked (pc : ServerPc) : Prop := pc = .loop ∨ pc = .waiting ∨ pc = .replied

/-- Where the device's main thread stands. -/
def Server (call : Call) (made : ℕ) (taken : ℕ × Xfer) (pc : ServerPc) : SlaveStage → Prop
  | .asked _ => Unasked pc ∨ pc = .woken ∨
      ∃ result, pc = .performed result ∧ taken = (made, slaveRequest call)
  | .free | .accepted _ | .posted _ | .replied _ => Unasked pc

end SlaveStage

/-- The slave makes no calls of its own. -/
structure Quiet (nd : Node) : Prop where
  master : nd.master.op = .rNone
  buffer : nd.data.buffer.op = .rNone
  issued : nd.data.reqIssued = false

/-- Only the slave mailbox, the place of the thread or the mastership may differ. -/
theorem Quiet.congr {nd nd' : Node} (h : Quiet nd) (hmaster : nd'.master = nd.master)
    (hdata : nd'.data = nd.data) : Quiet nd' where
  master := hmaster ▸ h.master
  buffer := hdata ▸ h.buffer
  issued := hdata ▸ h.issued

/-- The call stands at the stage; `x` is the result the device posts. -/
structure SlaveAt {σ : Type} (call : Call) (x : Word) (h : SlaveStage) (made : ℕ)
    (taken : ℕ × Xfer) (s : ServerSide σ) : Prop where
  quiet : Quiet s.node
  pc : h.Pc s.node.pc
  mailbox : h.Mailbox call x s.node.slave
  server : h.Server call made taken s.server

section Slave

variable {σ : Type} {call : Call} {x : Word} {made : ℕ} {taken : ℕ × Xfer} {s : ServerSide σ}
  (f : Option (Addr → Bool)) (uninit : DataBusReq)

theorem SlaveAt.data_free (h : SlaveAt call x .free made taken s) :
    (s.data false f uninit none).2 = none ∧
      SlaveAt call x .free made taken (s.data false f uninit none).1 := by
  obtain ⟨b, hr⟩ := h.pc
  obtain ⟨pc, b', hr', hadvance⟩ := advance_round f uninit hr h.quiet.buffer
    fun _ => .inl h.quiet.master
  have hstep : s.data false f uninit none
      = ({ s with node := { s.node with pc := pc } }, none) := by
    simp only [ServerSide.data, hadvance, reduceCtorEq, if_false]
  rw [hstep]
  exact ⟨rfl, h.quiet.congr rfl rfl, ⟨b', hr'⟩, trivial, h.server⟩

/-- A request is taken from the socket, or dropped if the address is not the device's. -/
theorem SlaveAt.data_receive (h : SlaveAt call x .free made taken s) {m : DataBusReq}
    (hm : Asks call m) (hreceives : Node.receives s.node = true) :
    (s.data false f uninit (some m)).2 = none ∧
      (SlaveAt call x (.accepted m) made taken (s.data false f uninit (some m)).1 ∨
        SlaveAt call x .free made taken (s.data false f uninit (some m)).1) := by
  obtain ⟨b, hr⟩ := h.pc
  have hpc := receives_of_rounds hr hreceives
  by_cases haddr : examineAddress f m = true
  · have hstep : s.data false f uninit (some m)
        = ({ s with node := { s.node with pc := .post m } }, none) := by
      simp [ServerSide.data, Node.advance, hpc, hm.msgType, haddr]
    rw [hstep]
    exact ⟨rfl, .inl ⟨h.quiet.congr rfl rfl, rfl, trivial, h.server⟩⟩
  · have hstep : s.data false f uninit (some m)
        = ({ s with node := { s.node with pc := .head } }, none) := by
      simp [ServerSide.data, Node.advance, hpc, hm.msgType, haddr]
    rw [hstep]
    exact ⟨rfl, .inr ⟨h.quiet.congr rfl rfl, ⟨true, .inl rfl⟩, trivial, h.server⟩⟩

/-- The request is put into the slave mailbox. -/
theorem SlaveAt.data_accepted {m : DataBusReq} (h : SlaveAt call x (.accepted m) made taken s)
    (hm : Asks call m) :
    (s.data false f uninit none).2 = none ∧
      SlaveAt call x (.posted m) made taken (s.data false f uninit none).1 := by
  have hpc : s.node.pc = .post m := h.pc
  have hstep : s.data false f uninit none = ({ s with
      node := { s.node with slave := slaveRequest call, pc := .wakeSlave m } }, none) := by
    simp only [ServerSide.data, Node.advance, hpc, hm.post, reduceCtorEq, if_false]
  rw [hstep]
  exact ⟨rfl, h.quiet.congr rfl rfl, rfl, rfl, h.server⟩

/-- The device is woken, if it waits. -/
theorem SlaveAt.data_posted {m : DataBusReq} (h : SlaveAt call x (.posted m) made taken s) :
    (s.data false f uninit none).2 = none ∧
      SlaveAt call x (.asked m) made taken (s.data false f uninit none).1 := by
  have hpc : s.node.pc = .wakeSlave m := h.pc
  have hstep : s.data false f uninit none = ({ s with
      node := { s.node with pc := .beginWait m }, server := s.server.signal false }, none) := by
    simp only [ServerSide.data, Node.advance, hpc, if_true]
  rw [hstep]
  refine ⟨rfl, h.quiet.congr rfl rfl, .inl rfl, h.mailbox, ?_⟩
  -- A signal that the device does not wait for is lost.
  rcases h.server with hs | hs | hs
  · exact .inl (.inl (by rw [hs]; rfl))
  · exact .inr (.inl (by rw [hs]; rfl))
  · exact .inl (.inr (.inr (by rw [hs]; rfl)))

/-- In `slave_wait` the data-bus thread only begins its wait. -/
theorem SlaveAt.data_wait {h : SlaveStage} {m : DataBusReq} (hs : SlaveAt call x h made taken s)
    (hh : h = .asked m ∨ h = .replied m)
    (hpc : s.node.pc = .beginWait m ∨ s.node.pc = .waiting m) :
    (s.data false f uninit none).2 = none ∧
      SlaveAt call x h made taken (s.data false f uninit none).1 := by
  have hadvance : s.node.advance f uninit none
      = ⟨{ s.node with pc := .waiting m }, none, none⟩ := by
    obtain ⟨⟨isMaster, master, slave, data, pc⟩, server, dev⟩ := s
    rcases hpc with hpc | hpc <;> (simp only at hpc; subst hpc; rfl)
  have hstep : s.data false f uninit none
      = ({ s with node := { s.node with pc := .waiting m } }, none) := by
    simp only [ServerSide.data, hadvance, reduceCtorEq, if_false]
  rw [hstep]
  refine ⟨rfl, hs.quiet.congr rfl rfl, ?_, hs.mailbox, hs.server⟩
  rcases hh with rfl | rfl <;> exact .inr (.inl rfl)

/-- The result is taken from the slave mailbox and sent, with `ssyn` asserted. -/
theorem SlaveAt.data_answer {m : DataBusReq} (h : SlaveAt call x (.replied m) made taken s)
    (hpc : s.node.pc = .answer m) (hm : Asks call m) :
    ∃ r, (s.data false f uninit none).2 = some r ∧ Answers call (returned call x) r ∧
      slaveSsyn s.node.slave = .asserted ∧
      SlaveAt call x .free made taken (s.data false f uninit none).1 := by
  obtain ⟨hop, hvalue⟩ := h.mailbox
  have hanswer : ∃ r, slaveAnswer uninit m.c s.node.slave = (r, initXfer) ∧
      Answers call (returned call x) r := by
    unfold slaveAnswer
    rw [if_pos hop, hm.signal]
    cases call with
    | readDataIn addr => exact ⟨_, rfl, rfl, rfl, fun w hw => hvalue.trans (Option.some.inj hw)⟩
    | writeDataOut addr data => exact ⟨_, rfl, rfl, rfl, nofun⟩
    | writeDataOutB addr data => exact ⟨_, rfl, rfl, rfl, nofun⟩
  obtain ⟨r, hanswer, hr⟩ := hanswer
  have hstep : s.data false f uninit none
      = ({ s with node := { s.node with slave := initXfer, pc := .head } }, some r) := by
    simp only [ServerSide.data, Node.advance, hpc, hanswer, reduceCtorEq, if_false]
  rw [hstep]
  exact ⟨r, rfl, hr, if_pos hop, h.quiet.congr rfl rfl, ⟨true, .inl rfl⟩, trivial, h.server⟩

/-- A wait that ends stays in its stage; otherwise the signal goes nowhere. -/
theorem SlaveAt.signal {h : SlaveStage} (hs : SlaveAt call x h made taken s) {server : ServerPc}
    (hserver : h.Server call made taken server) :
    SlaveAt call x h made taken
      { s with node := s.node.signalSlave false, server := server } := by
  by_cases hwait : s.node.waitsSlave = true
  · obtain ⟨event, hpc⟩ := Node.pc_of_waitsSlave hwait
    have hnode : s.node.signalSlave false = { s.node with pc := .answer event } := by
      rw [Node.signalSlave, hpc]
    have hat := hs.pc
    rw [hpc] at hat
    rw [hnode]
    refine ⟨hs.quiet.congr rfl rfl, ?_, hs.mailbox, hserver⟩
    -- A thread that waits has the request of its stage.
    cases h with
    | free =>
      obtain ⟨b, hr⟩ := hat
      rcases hr with hr | hr | hr <;> cases hr
    | accepted m => cases hat
    | posted m => cases hat
    | asked m | replied m =>
      rcases hat with hat | hat | hat
      · cases hat
      · exact .inr (.inr (congrArg DataPc.answer (DataPc.waiting.inj hat)))
      · cases hat
  · have hnode : s.node.signalSlave false = s.node := by
      obtain ⟨⟨isMaster, master, slave, data, pc⟩, server, dev⟩ := s
      cases pc <;> first | rfl | exact absurd rfl hwait
    rw [hnode]
    exact ⟨hs.quiet, hs.pc, hs.mailbox, hserver⟩

/-- A step of the device: it posts the result of the request, or the stage stays. -/
theorem SlaveAt.main {h : SlaveStage} (hs : SlaveAt call x h made taken s)
    (serve : σ → Xfer → σ × Option Xfer) (req : Xfer)
    (hreq : s.server = .woken → req = s.node.slave) :
    ((∀ result, s.server ≠ .performed result) ∧
      SlaveAt call x h made (if s.server = .woken then (made, req) else taken)
        (serverMain serve req s)) ∨
    ∃ m result, h = .asked m ∧ s.server = .performed result ∧
      taken = (made, slaveRequest call) ∧
      SlaveAt call result.value (.replied m) made taken (serverMain serve req s) := by
  have hserver := hs.server
  have hunasked {pc : ServerPc} (hpc : SlaveStage.Unasked pc) : h.Server call made taken pc := by
    cases h <;> first | exact hpc | exact .inl hpc
  cases hc : s.server with
  | loop =>
    refine .inl ⟨nofun, ?_⟩
    rw [if_neg nofun, serverMain, hc]
    exact ⟨hs.quiet, hs.pc, hs.mailbox, hunasked (.inr (.inl rfl))⟩
  | waiting =>
    refine .inl ⟨nofun, ?_⟩
    rw [if_neg nofun, serverMain, hc]
    exact hs
  | replied =>
    refine .inl ⟨nofun, ?_⟩
    rw [if_neg nofun, serverMain, hc]
    exact hs.signal (hunasked (.inl rfl))
  | woken =>
    rw [hc] at hserver
    -- A device that is awake has been asked.
    obtain ⟨m, rfl⟩ : ∃ m, h = .asked m := by
      cases h with
      | asked m => exact ⟨m, rfl⟩
      | free | accepted _ | posted _ | replied _ =>
        rcases hserver with he | he | he <;> cases he
    have hslave : s.node.slave = slaveRequest call := hs.mailbox
    refine .inl ⟨nofun, ?_⟩
    rw [if_pos rfl, serverMain, hc, hreq hc, hslave]
    dsimp only
    split
    · next dev result _ =>
      exact ⟨hs.quiet, hs.pc, hs.mailbox, .inr (.inr ⟨result, rfl, rfl⟩)⟩
    · exact ⟨hs.quiet, hs.pc, hs.mailbox, .inl (.inl rfl)⟩
  | performed result =>
    rw [hc] at hserver
    have hfree : ¬ SlaveStage.Unasked (.performed result) := by
      rintro (he | he | he) <;> cases he
    cases h with
    | asked m =>
      -- What the device has performed is the request it took.
      obtain ⟨-, -, htaken⟩ := (hserver.resolve_left hfree).resolve_left nofun
      refine .inr ⟨m, result, rfl, rfl, htaken, ?_⟩
      rw [serverMain, hc]
      exact ⟨hs.quiet.congr rfl rfl, hs.pc, ⟨rfl, rfl⟩, .inr (.inr rfl)⟩
    | free | accepted _ | posted _ | replied _ => exact absurd hserver hfree

end Slave

end XMachine.Unibus.MasterSlave
