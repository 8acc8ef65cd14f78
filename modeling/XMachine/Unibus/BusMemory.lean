import XMachine.Lib.Fairness
import XMachine.Mem.Requests
import XMachine.Unibus.DataThread

namespace XMachine.Unibus.BusMemory

open XMachine.Lib XMachine.Cpu XMachine.Mem

/-!
# Bus memory — cpu and mem joined by the data bus

The nodes `cpu` and `mem`, each with its main thread and its data-bus thread,
and the two sockets between them.  The cpu makes one call after the other;
signals are kept until the wait they are meant for.

* `CpuAt`, `MemAt` — where a call stands on each node, stage by stage;
* `InCall`, `Between` — the stages of the two nodes and of the sockets that go
  together, in a call and between two;
* `bus_is_memory` — the values the reads return are those of an ideal store,
  and under a fair schedule every call ends.
-/

/-! ### The system -/

structure Sys where
  cpu : CallerSide
  mem : ServerSide MemDev
  /-- The datagrams on their way to `mem`, the oldest first. -/
  toMem : List DataBusReq
  /-- The datagrams on their way to `cpu`, the oldest first. -/
  toCpu : List DataBusReq
  /-- The calls that the cpu has still to make. -/
  todo : List Call
  /-- What the calls that have ended returned. -/
  results : List (Option Word)
  /-- How often `handle_resp` has taken a response and cleared `req_issued`. -/
  accepted : ℕ

inductive Thread
  | cpuMain | cpuData | memMain | memData
  deriving DecidableEq, Repr

/-- A thread takes its next step; `uninit` is what its stack holds. -/
structure Act where
  thread : Thread
  uninit : DataBusReq

def start (calls : List Call) (dev : MemDev) : Sys where
  cpu := ⟨initNode true, .idle⟩
  mem := ⟨initNode false, .loop, dev⟩
  toMem := []
  toCpu := []
  todo := calls
  results := []
  accepted := 0

/-- The thread is about to call `recv`. -/
def Node.receives (nd : Node) : Bool :=
  match nd.pc with
  | .check _ => true
  | _ => false

/-- What is left of a socket after the step of a node. -/
def leave (nd : Node) (queue : List DataBusReq) : List DataBusReq :=
  if Node.receives nd then queue.tail else queue

def step (a : Act) (s : Sys) : Sys :=
  match a.thread with
  | .cpuMain =>
    let r := s.cpu.main s.todo.head?
    { s with
        cpu := r.1
        todo := if s.cpu.caller = .idle then s.todo.tail else s.todo
        results := s.results ++ r.2.toList }
  | .cpuData =>
    let r := s.cpu.data true a.uninit s.toCpu.head?
    { s with
        cpu := r.1
        toCpu := leave s.cpu.node s.toCpu
        toMem := s.toMem ++ r.2.toList
        accepted := if s.cpu.node.signals = some .masterData then s.accepted + 1 else s.accepted }
  | .memMain => { s with mem := s.mem.main true perform }
  | .memData =>
    let r := s.mem.data true (some isLocalAddr) a.uninit s.toMem.head?
    { s with
        mem := r.1
        toMem := leave s.mem.node s.toMem
        toCpu := s.toCpu ++ r.2.toList }

/-! ### What calls mean -/

/-- A call on an ideal store: the store after it, and what it returns. -/
def onStore (st : ByteStore Addr) (call : Call) : ByteStore Addr × Option Word :=
  match call with
  | .readDataIn addr => (st, some (st.readWord addr))
  | .writeDataOut addr data => (st.writeWord addr data, none)
  | .writeDataOutB addr data => (st.writeByte addr data, none)

/-- What calls return, made one after the other. -/
def sequential (st : ByteStore Addr) : List Call → List (Option Word)
  | [] => []
  | call :: calls => (onStore st call).2 :: sequential (onStore st call).1 calls

/-- The signal of the call's messages. -/
def signalOf : Call → DataBusSignal
  | .readDataIn _ => .dati
  | .writeDataOut _ _ => .dato
  | .writeDataOutB _ _ => .datob

/-- The request in `mem`'s slave mailbox. -/
def slaveRequest : Call → Xfer
  | .readDataIn addr => ⟨.rBlockIn, addr, 0⟩
  | .writeDataOut addr data => ⟨.rBlockOut, addr, data⟩
  | .writeDataOutB addr data => ⟨.rBlockOutb, addr, data.setWidth 16⟩

/-- The message asks for the call. -/
structure Asks (call : Call) (m : DataBusReq) : Prop where
  msgType : m.msgType = .req
  addr : m.addr = call.addr
  post : slavePost m = some (slaveRequest call)
  signal : m.c = signalOf call

/-- The message answers the call, with value `v` if there is one. -/
structure Answers (call : Call) (v : Option Word) (m : DataBusReq) : Prop where
  msgType : m.msgType = .resp
  signal : m.c = signalOf call
  value : ∀ w, v = some w → m.data = w

/-! ### Stages of a call on the cpu -/

inductive CpuStage
  | idle
  /-- In the master mailbox. -/
  | posted
  /-- In the data-bus thread's buffer. -/
  | taken
  /-- Sent; no response yet. -/
  | out
  /-- The response is taken, the mailbox not yet written. -/
  | storing (m : DataBusReq)
  /-- The mailbox is written, the signal not yet given. -/
  | stored
  | done
  deriving DecidableEq

/-- The data-bus thread goes round its loop. -/
def Rounds (isMaster : Bool) (pc : DataPc) : Prop :=
  pc = .head ∨ pc = .process isMaster ∨ pc = .check isMaster

namespace CpuStage

variable (call : Call) (v : Option Word)

/-- Where the data-bus thread stands. -/
def Pc (nd : Node) : CpuStage → Prop
  | .taken => nd.pc = .process true
  | .storing m => nd.pc = .store m
  | .stored => nd.pc = .wakeMaster { nd.data with reqIssued := false }
  | .idle | .posted | .out | .done => Rounds true nd.pc

/-- Where the main thread stands. -/
def Caller (pc : CallerPc) : CpuStage → Prop
  | .idle => pc = .idle
  | .done => pc = .woken call
  | .posted | .taken | .out | .storing _ | .stored => pc = .posted call ∨ pc = .waiting call

/-- What is in the master mailbox. -/
def Mailbox (x : Xfer) : CpuStage → Prop
  | .posted => call.post x = x
  | .done | .stored => x.op = .rDone ∧ ∀ w, v = some w → x.value = w
  | .idle | .taken | .out | .storing _ => x.op = .rNone

/-- What is in the data-bus thread's buffer. -/
def Buffer (x : Xfer) : CpuStage → Prop
  | .taken => call.post x = x
  | .idle | .posted | .out | .storing _ | .stored | .done => x.op = .rNone

def issued : CpuStage → Bool
  | .out | .storing _ | .stored => true
  | .idle | .posted | .taken | .done => false

end CpuStage

/-- The call stands at the stage; `v` is what it will return. -/
structure CpuAt (call : Call) (v : Option Word) (g : CpuStage) (s : CallerSide) : Prop where
  isMaster : s.node.isMaster = true
  pc : g.Pc s.node
  caller : g.Caller call s.caller
  master : g.Mailbox call v s.node.master
  buffer : g.Buffer call s.node.data.buffer
  issued : s.node.data.reqIssued = g.issued

/-! ### Round the loop -/

/-- Where the loop goes on when nothing comes. -/
def nextPc (isMaster : Bool) : DataPc → DataPc
  | .head => .process isMaster
  | .process isMaster' => .check isMaster'
  | _ => .head

/-- Steps of the loop until its head. -/
def toHead : DataPc → ℕ
  | .process _ => 2
  | .check _ => 1
  | _ => 0

/-- Steps of the loop until `recv`. -/
def toCheck : DataPc → ℕ
  | .head => 2
  | .process _ => 1
  | _ => 0

section Rounds

variable {nd : Node} {isMaster : Bool}

theorem Rounds.next {pc : DataPc} (h : Rounds isMaster pc) :
    Rounds isMaster (nextPc isMaster pc) := by
  rcases h with rfl | rfl | rfl
  · exact .inr (.inl rfl)
  · exact .inr (.inr rfl)
  · exact .inl rfl

/-- In its loop the thread gives no signal. -/
theorem Rounds.signals (h : Rounds isMaster nd.pc) : nd.signals = none := by
  unfold Node.signals
  rcases h with h | h | h <;> rw [h]

/-- At the head or on its way round, a step brings the thread nearer to `recv`. -/
theorem Rounds.toCheck_lt {pc : DataPc} (h : Rounds isMaster pc) (hpc : pc ≠ .check isMaster) :
    toCheck (nextPc isMaster pc) < toCheck pc := by
  rcases h with rfl | rfl | rfl
  · exact Nat.lt_succ_self 1
  · exact Nat.zero_lt_one
  · exact absurd rfl hpc

theorem Rounds.toHead_lt {pc : DataPc} (h : Rounds isMaster pc) (hpc : pc ≠ .head) :
    toHead (nextPc isMaster pc) < toHead pc := by
  rcases h with rfl | rfl | rfl
  · exact absurd rfl hpc
  · exact Nat.lt_succ_self 1
  · exact Nat.zero_lt_one

theorem processOp_of_none (uninit : DataBusReq) {d : DataState} (h : d.buffer.op = .rNone) :
    processOp uninit d = (d, none) := by
  obtain ⟨⟨op, addr, value⟩, reqIssued⟩ := d
  obtain rfl : op = .rNone := h
  rfl

/-- With nothing to send and nothing received the thread only goes on. -/
theorem advance_of_rounds (f : Option (Addr → Bool)) (uninit : DataBusReq)
    {arrives : Option DataBusReq} (h : Rounds nd.isMaster nd.pc)
    (hbuffer : nd.data.buffer.op = .rNone)
    (hmaster : nd.pc = .head → nd.master.op = .rNone ∨ nd.master.op = .rDone)
    (harrives : nd.pc = .check nd.isMaster → arrives = none) :
    nd.advance f uninit arrives = ⟨{ nd with pc := nextPc nd.isMaster nd.pc }, none, none⟩ := by
  unfold Node.advance
  rcases h with h | h | h
  · have htake : takeOp nd.master nd.data = (nd.master, nd.data) := by
      unfold takeOp
      rcases hmaster h with hop | hop <;> rw [hop]
    rw [h]
    simp only [htake, nextPc]
  · rw [h]
    simp only [processOp_of_none uninit hbuffer, nextPc]
    split <;> rfl
  · rw [harrives h, h]
    rfl

end Rounds

/-! ### Steps of the cpu -/

section Cpu

variable {call : Call} {v : Option Word} {s : CallerSide} (uninit : DataBusReq)

/-- A step that takes the data-bus thread round its loop. -/
theorem data_of_rounds {arrives : Option DataBusReq} (hr : Rounds s.node.isMaster s.node.pc)
    (hbuffer : s.node.data.buffer.op = .rNone)
    (hmaster : s.node.pc = .head → s.node.master.op = .rNone ∨ s.node.master.op = .rDone)
    (harrives : s.node.pc = .check s.node.isMaster → arrives = none) :
    s.data true uninit arrives
      = (⟨{ s.node with pc := nextPc s.node.isMaster s.node.pc }, s.caller⟩, none) := by
  unfold CallerSide.data
  simp only [advance_of_rounds none uninit hr hbuffer hmaster harrives, reduceCtorEq, if_false]

theorem post_post (call : Call) (x : Xfer) : call.post (call.post x) = call.post x := by
  cases call <;> rfl

theorem takeOp_posted {master : Xfer} (d : DataState) (h : call.post master = master) :
    takeOp master d
      = ({ master with op := .rNone }, { d with buffer := call.post d.buffer }) := by
  cases call <;> (rw [← h]; rfl)

theorem processOp_taken {d : DataState} (h : call.post d.buffer = d.buffer) :
    ∃ m, processOp uninit d = (⟨{ d.buffer with op := .rNone }, true⟩, some m) ∧ Asks call m := by
  obtain ⟨buffer, reqIssued⟩ := d
  change call.post buffer = buffer at h
  cases call <;> (rw [← h]; refine ⟨_, rfl, ?_⟩; constructor <;> rfl)

theorem handleResp_answers {m : DataBusReq} (h : Answers call v m) (master : Xfer)
    (d : DataState) : handleResp m master d
      = some ({ master with op := .rDone, value := m.data }, { d with reqIssued := false }) := by
  unfold handleResp
  rw [h.signal]
  cases call <;> rfl

/-- With nothing received a call stays where it is, before it is posted, while
    it is out and when it is done. -/
theorem CpuAt.data_rest {g : CpuStage} (h : CpuAt call v g s)
    (hg : g = .idle ∨ g = .out ∨ g = .done) {arrives : Option DataBusReq}
    (harrives : s.node.pc = .check true → arrives = none) :
    (s.data true uninit arrives).2 = none ∧ CpuAt call v g (s.data true uninit arrives).1 ∧
      (s.node.pc ≠ .check true →
        toCheck (s.data true uninit arrives).1.node.pc < toCheck s.node.pc) := by
  obtain ⟨hmaster, hpc, hcaller, hpost, hbuffer, hissued⟩ := h
  have hr : Rounds true s.node.pc := by rcases hg with rfl | rfl | rfl <;> exact hpc
  have hb : s.node.data.buffer.op = .rNone := by rcases hg with rfl | rfl | rfl <;> exact hbuffer
  have hm : s.node.master.op = .rNone ∨ s.node.master.op = .rDone := by
    rcases hg with rfl | rfl | rfl
    · exact .inl hpost
    · exact .inl hpost
    · exact .inr hpost.1
  rw [data_of_rounds uninit (hmaster ▸ hr) hb (fun _ => hm) (hmaster ▸ harrives), hmaster]
  refine ⟨rfl, ⟨hmaster, ?_, hcaller, hpost, hbuffer, hissued⟩, hr.toCheck_lt⟩
  rcases hg with rfl | rfl | rfl <;> exact hr.next

/-- A posted request is taken when the thread comes to the head of its loop. -/
theorem CpuAt.data_posted (h : CpuAt call v .posted s) {arrives : Option DataBusReq}
    (harrives : arrives = none) :
    (s.data true uninit arrives).2 = none ∧
      (CpuAt call v .taken (s.data true uninit arrives).1 ∨
        toHead (s.data true uninit arrives).1.node.pc < toHead s.node.pc ∧
          CpuAt call v .posted (s.data true uninit arrives).1) := by
  obtain ⟨hmaster, hpc, hcaller, hpost, hbuffer, hissued⟩ := h
  have hr : Rounds s.node.isMaster s.node.pc := hmaster ▸ hpc
  by_cases hhead : s.node.pc = .head
  -- at the head of the loop the request goes from the mailbox to the buffer
  · have htake := takeOp_posted s.node.data hpost
    have hstep : s.data true uninit arrives = (⟨{ s.node with
        master := { s.node.master with op := .rNone }
        data := { s.node.data with buffer := call.post s.node.data.buffer }
        pc := .process true }, s.caller⟩, none) := by
      simp only [CallerSide.data, Node.advance, hhead, htake, hmaster, reduceCtorEq, if_false]
    rw [hstep]
    exact ⟨rfl, .inl ⟨hmaster, rfl, hcaller, rfl, post_post call _, hissued⟩⟩
  · rw [data_of_rounds uninit hr hbuffer (fun hh => absurd hh hhead) fun _ => harrives]
    refine ⟨rfl, .inr ⟨hr.toHead_lt hhead, hmaster, ?_, hcaller, hpost, hbuffer, hissued⟩⟩
    exact hmaster ▸ hr.next

/-- The request taken is sent. -/
theorem CpuAt.data_taken (h : CpuAt call v .taken s) (arrives : Option DataBusReq) :
    ∃ m, (s.data true uninit arrives).2 = some m ∧ Asks call m ∧
      CpuAt call v .out (s.data true uninit arrives).1 := by
  obtain ⟨hmaster, hpc, hcaller, hpost, hbuffer, hissued⟩ := h
  have hpc : s.node.pc = .process true := hpc
  obtain ⟨m, hsend, hasks⟩ := processOp_taken uninit hbuffer
  have hstep : s.data true uninit arrives = (⟨{ s.node with
      data := ⟨{ s.node.data.buffer with op := .rNone }, true⟩
      pc := .check true }, s.caller⟩, some m) := by
    simp only [CallerSide.data, Node.advance, hpc, hsend, if_true, reduceCtorEq, if_false]
  rw [hstep]
  exact ⟨m, rfl, hasks, hmaster, .inr (.inr rfl), hcaller, hpost, rfl, rfl⟩

/-- The response is taken from the socket. -/
theorem CpuAt.data_receive (h : CpuAt call v .out s) {m : DataBusReq} (hm : Answers call v m)
    (hcheck : s.node.pc = .check true) :
    (s.data true uninit (some m)).2 = none ∧
      CpuAt call v (.storing m) (s.data true uninit (some m)).1 := by
  obtain ⟨hmaster, hpc, hcaller, hpost, hbuffer, hissued⟩ := h
  have hissued : s.node.data.reqIssued = true := hissued
  have hstep : s.data true uninit (some m)
      = (⟨{ s.node with pc := .store m }, s.caller⟩, none) := by
    simp [CallerSide.data, Node.advance, hcheck, hm.msgType, hissued]
  rw [hstep]
  exact ⟨rfl, hmaster, rfl, hcaller, hpost, hbuffer, hissued⟩

/-- The response is put into the mailbox. -/
theorem CpuAt.data_storing {m : DataBusReq} (h : CpuAt call v (.storing m) s)
    (hm : Answers call v m) (arrives : Option DataBusReq) :
    (s.data true uninit arrives).2 = none ∧
      CpuAt call v .stored (s.data true uninit arrives).1 := by
  obtain ⟨hmaster, hpc, hcaller, hpost, hbuffer, hissued⟩ := h
  have hpc : s.node.pc = .store m := hpc
  have hstep : s.data true uninit arrives = (⟨{ s.node with
      master := { s.node.master with op := .rDone, value := m.data }
      pc := .wakeMaster { s.node.data with reqIssued := false } }, s.caller⟩, none) := by
    simp only [CallerSide.data, Node.advance, hpc, handleResp_answers hm, reduceCtorEq, if_false]
  rw [hstep]
  exact ⟨rfl, hmaster, rfl, hcaller, ⟨rfl, hm.value⟩, hbuffer, hissued⟩

/-- The signal ends the wait, whether it has begun or not. -/
theorem CpuAt.data_stored (h : CpuAt call v .stored s) (arrives : Option DataBusReq) :
    (s.data true uninit arrives).2 = none ∧
      CpuAt call v .done (s.data true uninit arrives).1 := by
  obtain ⟨hmaster, hpc, hcaller, hpost, hbuffer, hissued⟩ := h
  have hpc : s.node.pc = .wakeMaster { s.node.data with reqIssued := false } := hpc
  -- the signal is kept for a wait that has not begun
  have hwoken : s.caller.signal true = .woken call := by
    rcases hcaller with hc | hc <;> rw [hc] <;> rfl
  have hstep : s.data true uninit arrives = (⟨{ s.node with
      data := { s.node.data with reqIssued := false }
      pc := .head }, .woken call⟩, none) := by
    simp only [CallerSide.data, Node.advance, hpc, if_true, hwoken]
  rw [hstep]
  exact ⟨rfl, hmaster, .inl rfl, rfl, hpost, hbuffer, rfl⟩

/-- While the call is on its way the main thread only begins its wait. -/
theorem CpuAt.main_pending {g : CpuStage} (h : CpuAt call v g s) (hi : g ≠ .idle)
    (hd : g ≠ .done) (next : Option Call) :
    (s.main next).2 = none ∧ CpuAt call v g (s.main next).1 ∧
      (s.main next).1.node = s.node ∧ s.caller ≠ .idle := by
  have hcaller : s.caller = .posted call ∨ s.caller = .waiting call := by
    cases g <;> first | exact h.caller | exact absurd rfl hi | exact absurd rfl hd
  -- at the stages in between, waiting is as good as about to wait
  have hwaits : g.Caller call (.waiting call) := by
    cases g <;> first | exact .inr rfl | exact absurd rfl hi | exact absurd rfl hd
  rcases hcaller with hc | hc
  · have hstep : s.main next = ({ s with caller := .waiting call }, none) := by
      simp only [CallerSide.main, hc]
    rw [hstep, hc]
    exact ⟨rfl, ⟨h.isMaster, h.pc, hwaits, h.master, h.buffer, h.issued⟩, rfl, nofun⟩
  · have hstep : s.main next = (s, none) := by simp only [CallerSide.main, hc]
    rw [hstep, hc]
    exact ⟨rfl, h, rfl, nofun⟩

/-- Without a call of its own the main thread posts the next one. -/
theorem CpuAt.main_post {next : Call} {v' : Option Word} (h : CpuAt call v .idle s) :
    (s.main (some next)).2 = none ∧ CpuAt next v' .posted (s.main (some next)).1 := by
  have hc : s.caller = .idle := h.caller
  have hstep : s.main (some next)
      = (⟨{ s.node with master := next.post s.node.master }, .posted next⟩, none) := by
    simp only [CallerSide.main, hc]
  rw [hstep]
  exact ⟨rfl, h.isMaster, h.pc, .inl rfl, post_post next _, h.buffer, h.issued⟩

/-- The result is collected. -/
theorem CpuAt.main_done {st : ByteStore Addr} (h : CpuAt call (onStore st call).2 .done s)
    (next : Option Call) :
    (s.main next).2 = some (onStore st call).2 ∧
      CpuAt call (onStore st call).2 .idle (s.main next).1 := by
  have hc : s.caller = .woken call := h.caller
  -- a read returns what the response has left in the mailbox
  have hvalue : (call.collect s.node.master).2 = (onStore st call).2 := by
    have hmaster := h.master.2
    cases call with
    | readDataIn addr => exact congrArg some (hmaster _ rfl)
    | writeDataOut addr data => rfl
    | writeDataOutB addr data => rfl
  have hstep : s.main next = (⟨{ s.node with master := (call.collect s.node.master).1 }, .idle⟩,
      some (call.collect s.node.master).2) := by
    simp only [CallerSide.main, hc]
  rw [hstep, hvalue]
  exact ⟨rfl, h.isMaster, h.pc, rfl, rfl, h.buffer, h.issued⟩

end Cpu

/-! ### Stages of a call on mem -/

inductive MemStage
  | rest
  /-- The request is taken from the socket. -/
  | arrived (m : DataBusReq)
  /-- In the slave mailbox. -/
  | placed (m : DataBusReq)
  /-- The main thread is woken. -/
  | asked (m : DataBusReq)
  | performed (m : DataBusReq)
  /-- The answer is in the slave mailbox. -/
  | replied (m : DataBusReq)
  /-- The data-bus thread is woken. -/
  | answering (m : DataBusReq)
  deriving DecidableEq

namespace MemStage

variable (call : Call) (v : Option Word)

/-- Where the data-bus thread stands. -/
def Pc (pc : DataPc) : MemStage → Prop
  | .rest => Rounds false pc
  | .arrived m => pc = .post m
  | .placed m => pc = .wakeSlave m
  | .asked m | .performed m | .replied m => pc = .beginWait m ∨ pc = .waiting m
  | .answering m => pc = .answer m

/-- Where the main thread stands. -/
def Server (pc : ServerPc) : MemStage → Prop
  | .asked _ => pc = .woken
  | .performed _ => ∃ req, pc = .performed req ∧ ∀ w, v = some w → req.value = w
  | .replied _ => pc = .replied
  | .rest | .arrived _ | .placed _ | .answering _ => pc = .loop ∨ pc = .waiting

/-- The main thread serves the request. -/
def isBusy : MemStage → Bool
  | .asked _ | .performed _ | .replied _ => true
  | .rest | .arrived _ | .placed _ | .answering _ => false

/-- What is in the slave mailbox. -/
def Mailbox (x : Xfer) : MemStage → Prop
  | .placed _ | .asked _ => x = slaveRequest call
  | .replied _ | .answering _ => x.op = .rDone ∧ ∀ w, v = some w → x.value = w
  | .rest | .arrived _ | .performed _ => True

end MemStage

/-- The node makes no calls of its own. -/
def NoCalls (nd : Node) : Prop :=
  nd.isMaster = false ∧ nd.master.op = .rNone ∧ nd.data = initDataState

/-- The call stands at the stage, and the device holds the bytes of `st`. -/
structure MemAt (call : Call) (v : Option Word) (st : ByteStore Addr) (g : MemStage)
    (s : ServerSide MemDev) : Prop where
  noCalls : NoCalls s.node
  pc : g.Pc s.node.pc
  server : g.Server v s.server
  slave : g.Mailbox call v s.node.slave
  store : s.dev.Agrees st

/-! ### Steps of mem -/

section Mem

variable {call : Call} {v : Option Word} {st : ByteStore Addr} {s : ServerSide MemDev}
  (uninit : DataBusReq)

/-- With nothing received mem rests. -/
theorem MemAt.data_rest (h : MemAt call v st .rest s) {arrives : Option DataBusReq}
    (harrives : s.node.pc = .check false → arrives = none) :
    (s.data true (some isLocalAddr) uninit arrives).2 = none ∧
      MemAt call v st .rest (s.data true (some isLocalAddr) uninit arrives).1 ∧
      (s.node.pc ≠ .check false →
        toCheck (s.data true (some isLocalAddr) uninit arrives).1.node.pc
          < toCheck s.node.pc) := by
  have hr : Rounds false s.node.pc := h.pc
  obtain ⟨hmaster, hop, hdata⟩ := h.noCalls
  have hbuffer : s.node.data.buffer.op = .rNone := by rw [hdata]; rfl
  have hr' : Rounds s.node.isMaster s.node.pc := hmaster.symm ▸ hr
  have hadvance := advance_of_rounds (some isLocalAddr) uninit hr' hbuffer (fun _ => .inl hop)
    (hmaster.symm ▸ harrives)
  have hstep : s.data true (some isLocalAddr) uninit arrives
      = ({ s with node := { s.node with pc := nextPc false s.node.pc } }, none) := by
    simp only [ServerSide.data, hadvance, hmaster, reduceCtorEq, if_false]
  rw [hstep]
  exact ⟨rfl, ⟨h.noCalls, hr.next, h.server, trivial, h.store⟩, hr.toCheck_lt⟩

/-- The request is taken from the socket. -/
theorem MemAt.data_receive (h : MemAt call v st .rest s) {m : DataBusReq} (hm : Asks call m)
    (haddr : call.addr.toNat + 1 < MEMBYTES) (hcheck : s.node.pc = .check false) :
    (s.data true (some isLocalAddr) uninit (some m)).2 = none ∧
      MemAt call v st (.arrived m) (s.data true (some isLocalAddr) uninit (some m)).1 := by
  -- the address is one that mem claims
  have hlocal : isLocalAddr m.addr = true := by
    rw [hm.addr]
    simp [isLocalAddr]
    omega
  have hadvance : s.node.advance (some isLocalAddr) uninit (some m)
      = ⟨{ s.node with pc := .post m }, none, none⟩ := by
    simp [Node.advance, hcheck, hm.msgType, examineAddress, hlocal]
  have hstep : s.data true (some isLocalAddr) uninit (some m)
      = ({ s with node := { s.node with pc := .post m } }, none) := by
    simp only [ServerSide.data, hadvance, reduceCtorEq, if_false]
  rw [hstep]
  exact ⟨rfl, h.noCalls, rfl, h.server, trivial, h.store⟩

/-- The request is put into the slave mailbox. -/
theorem MemAt.data_arrived {m : DataBusReq} (h : MemAt call v st (.arrived m) s)
    (hm : Asks call m) (arrives : Option DataBusReq) :
    (s.data true (some isLocalAddr) uninit arrives).2 = none ∧
      MemAt call v st (.placed m) (s.data true (some isLocalAddr) uninit arrives).1 := by
  have hpc : s.node.pc = .post m := h.pc
  have hadvance : s.node.advance (some isLocalAddr) uninit arrives
      = ⟨{ s.node with slave := slaveRequest call, pc := .wakeSlave m }, none, none⟩ := by
    simp only [Node.advance, hpc, hm.post]
  have hstep : s.data true (some isLocalAddr) uninit arrives = ({ s with
      node := { s.node with slave := slaveRequest call, pc := .wakeSlave m } }, none) := by
    simp only [ServerSide.data, hadvance, reduceCtorEq, if_false]
  rw [hstep]
  exact ⟨rfl, h.noCalls, rfl, h.server, rfl, h.store⟩

/-- The main thread is woken, whether its wait has begun or not. -/
theorem MemAt.data_placed {m : DataBusReq} (h : MemAt call v st (.placed m) s)
    (arrives : Option DataBusReq) :
    (s.data true (some isLocalAddr) uninit arrives).2 = none ∧
      MemAt call v st (.asked m) (s.data true (some isLocalAddr) uninit arrives).1 := by
  have hpc : s.node.pc = .wakeSlave m := h.pc
  have hwoken : s.server.signal true = .woken := by
    rcases h.server with hs | hs <;> rw [hs] <;> rfl
  have hadvance : s.node.advance (some isLocalAddr) uninit arrives
      = ⟨{ s.node with pc := .beginWait m }, none, some .permaSlave⟩ := by
    simp only [Node.advance, hpc]
  have hstep : s.data true (some isLocalAddr) uninit arrives
      = ({ s with node := { s.node with pc := .beginWait m }, server := .woken }, none) := by
    simp only [ServerSide.data, hadvance, if_true, hwoken]
  rw [hstep]
  exact ⟨rfl, h.noCalls, .inl rfl, rfl, h.slave, h.store⟩

/-- While the main thread is busy the data-bus thread only begins its wait. -/
theorem MemAt.data_busy {g : MemStage} (h : MemAt call v st g s) (hg : g.isBusy = true)
    (arrives : Option DataBusReq) :
    (s.data true (some isLocalAddr) uninit arrives).2 = none ∧
      MemAt call v st g (s.data true (some isLocalAddr) uninit arrives).1 := by
  -- whatever the stage, the data-bus thread is in the second half of `slave_wait`
  obtain ⟨m, hin⟩ : ∃ m, ∀ pc, g.Pc pc ↔ pc = .beginWait m ∨ pc = .waiting m := by
    cases g <;> first | exact ⟨_, fun _ => Iff.rfl⟩ | cases hg
  have hpc := (hin s.node.pc).mp h.pc
  have hadvance : s.node.advance (some isLocalAddr) uninit arrives
      = ⟨{ s.node with pc := .waiting m }, none, none⟩ := by
    obtain ⟨⟨isMaster, master, slave, data, pc⟩, server, dev⟩ := s
    rcases hpc with hpc | hpc <;> (simp only at hpc; subst hpc; rfl)
  have hstep : s.data true (some isLocalAddr) uninit arrives
      = ({ s with node := { s.node with pc := .waiting m } }, none) := by
    simp only [ServerSide.data, hadvance, reduceCtorEq, if_false]
  rw [hstep]
  exact ⟨rfl, h.noCalls, (hin _).mpr (.inr rfl), h.server, h.slave, h.store⟩

/-- The answer is taken from the slave mailbox and sent. -/
theorem MemAt.data_answering {st₀ : ByteStore Addr} {m : DataBusReq}
    (h : MemAt call (onStore st₀ call).2 st (.answering m) s) (hm : Asks call m)
    (arrives : Option DataBusReq) :
    ∃ r, (s.data true (some isLocalAddr) uninit arrives).2 = some r ∧
      Answers call (onStore st₀ call).2 r ∧
      MemAt call (onStore st₀ call).2 st .rest
        (s.data true (some isLocalAddr) uninit arrives).1 := by
  have hpc : s.node.pc = .answer m := h.pc
  obtain ⟨hop, hvalue⟩ := h.slave
  have hanswer : ∃ r, slaveAnswer uninit m.c s.node.slave = (r, initXfer) ∧
      Answers call (onStore st₀ call).2 r := by
    unfold slaveAnswer
    rw [if_pos hop, hm.signal]
    cases call with
    | readDataIn addr => exact ⟨_, rfl, rfl, rfl, hvalue⟩
    | writeDataOut addr data => exact ⟨_, rfl, rfl, rfl, nofun⟩
    | writeDataOutB addr data => exact ⟨_, rfl, rfl, rfl, nofun⟩
  obtain ⟨r, hanswer, hr⟩ := hanswer
  have hstep : s.data true (some isLocalAddr) uninit arrives
      = ({ s with node := { s.node with slave := initXfer, pc := .head } }, some r) := by
    simp only [ServerSide.data, Node.advance, hpc, hanswer, reduceCtorEq, if_false]
  rw [hstep]
  exact ⟨r, rfl, hr, h.noCalls, .inl rfl, h.server, trivial, h.store⟩

/-- Without a request to serve the main thread only begins its wait. -/
theorem MemAt.main_free {g : MemStage} (h : MemAt call v st g s) (hg : g.isBusy = false) :
    MemAt call v st g (s.main true perform) ∧ (s.main true perform).node = s.node := by
  -- at a stage that is not busy the main thread waits, or is about to
  have hfree (pc : ServerPc) : g.Server v pc ↔ pc = .loop ∨ pc = .waiting := by
    cases g <;> first | exact Iff.rfl | cases hg
  have hstep : s.main true perform = { s with server := .waiting } := by
    obtain ⟨node, server, dev⟩ := s
    rcases (hfree server).mp h.server with rfl | rfl <;> rfl
  rw [hstep]
  exact ⟨⟨h.noCalls, h.pc, (hfree _).mpr (.inr rfl), h.slave, h.store⟩, rfl⟩

/-- What `mem` does with the request is what the call does on the ideal store. -/
theorem perform_slaveRequest (haddr : call.addr.toNat + 1 < MEMBYTES) {dev : MemDev}
    (hst : dev.Agrees st) :
    (perform dev (slaveRequest call)).1.Agrees (onStore st call).1 ∧
      ∀ w, (onStore st call).2 = some w → (perform dev (slaveRequest call)).2.value = w := by
  have haddr' : (slaveRequest call).addr.toNat + 1 < MEMBYTES := by cases call <;> exact haddr
  obtain ⟨hst', hreq⟩ := perform_agrees hst haddr'
  rw [hreq]
  cases call with
  | readDataIn addr => exact ⟨hst', fun w hw => Option.some.inj hw⟩
  | writeDataOut addr data => exact ⟨hst', fun w hw => by cases hw⟩
  | writeDataOutB addr data =>
    -- a byte travels as a word, and the low byte of it is stored
    have hlow : lowByte (data.setWidth 16) = data := by
      rw [lowByte, BitVec.setWidth_setWidth_of_le _ (by decide), BitVec.setWidth_eq]
    rw [idealPerform, slaveRequest, hlow] at hst'
    exact ⟨hst', fun w hw => by cases hw⟩

/-- The request is performed. -/
theorem MemAt.main_asked {m : DataBusReq} (h : MemAt call (onStore st call).2 st (.asked m) s)
    (haddr : call.addr.toNat + 1 < MEMBYTES) :
    MemAt call (onStore st call).2 (onStore st call).1 (.performed m) (s.main true perform) := by
  have hserver : s.server = .woken := h.server
  have hslave : s.node.slave = slaveRequest call := h.slave
  obtain ⟨hst, hvalue⟩ := perform_slaveRequest haddr h.store
  have hstep : s.main true perform = { s with
      dev := (perform s.dev (slaveRequest call)).1
      server := .performed (perform s.dev (slaveRequest call)).2 } := by
    simp only [ServerSide.main, hserver, dataBusCheck, hslave]
    cases call <;> rfl
  rw [hstep]
  exact ⟨h.noCalls, h.pc, ⟨_, rfl, hvalue⟩, trivial, hst⟩

/-- The reply is put into the slave mailbox. -/
theorem MemAt.main_performed {m : DataBusReq} (h : MemAt call v st (.performed m) s) :
    MemAt call v st (.replied m) (s.main true perform) := by
  obtain ⟨req, hserver, hvalue⟩ := h.server
  have hstep : s.main true perform = { s with
      node := { s.node with slave := dataBusReply req }, server := .replied } := by
    simp only [ServerSide.main, hserver]
  rw [hstep]
  exact ⟨h.noCalls, h.pc, rfl, ⟨rfl, hvalue⟩, h.store⟩

/-- The data-bus thread is woken, whether its wait has begun or not. -/
theorem MemAt.main_replied {m : DataBusReq} (h : MemAt call v st (.replied m) s) :
    MemAt call v st (.answering m) (s.main true perform) := by
  have hserver : s.server = .replied := h.server
  have hsignal : s.node.signalSlave true = { s.node with pc := .answer m } := by
    unfold Node.signalSlave
    rcases h.pc with hpc | hpc
    · rw [hpc]
      exact if_pos rfl
    · rw [hpc]
  have hstep : s.main true perform
      = { s with node := { s.node with pc := .answer m }, server := .loop } := by
    simp only [ServerSide.main, hserver, hsignal]
  rw [hstep]
  exact ⟨h.noCalls, rfl, .inl rfl, h.slave, h.store⟩

end Mem

/-! ### A call on its way -/

/-- How much is left to do for a request at mem, and for the response. -/
def MemStage.rank : MemStage → ℕ
  | .arrived _ => 12
  | .placed _ => 11
  | .asked _ => 10
  | .performed _ => 9
  | .replied _ => 8
  | .answering _ => 7
  | .rest => 0

/-- The thread that serves the request next. -/
def MemStage.helpful (g : MemStage) : Thread := if g.isBusy then .memMain else .memData

/-- The store once the call is performed. -/
def MemStage.store (st : ByteStore Addr) (call : Call) : MemStage → ByteStore Addr
  | .performed _ | .replied _ | .answering _ => (onStore st call).1
  | .rest | .arrived _ | .placed _ | .asked _ => st

/-- The request at mem. -/
def MemStage.request : MemStage → Option DataBusReq
  | .arrived m | .placed m | .asked m | .performed m | .replied m | .answering m => some m
  | .rest => none

/-- The stages of the two nodes and of the sockets that go together, with what
    is left to do and the thread that does it next. -/
inductive InCall (call : Call) (st : ByteStore Addr) (s : Sys) : ℕ → Thread → Prop
  | posted (hcpu : CpuAt call (onStore st call).2 .posted s.cpu)
      (hmem : MemAt call (onStore st call).2 st .rest s.mem)
      (hout : s.toMem = []) (hin : s.toCpu = []) :
      InCall call st s (17 + toHead s.cpu.node.pc) .cpuData
  | taken (hcpu : CpuAt call (onStore st call).2 .taken s.cpu)
      (hmem : MemAt call (onStore st call).2 st .rest s.mem)
      (hout : s.toMem = []) (hin : s.toCpu = []) :
      InCall call st s 16 .cpuData
  | sent (m : DataBusReq) (hm : Asks call m) (hcpu : CpuAt call (onStore st call).2 .out s.cpu)
      (hmem : MemAt call (onStore st call).2 st .rest s.mem)
      (hout : s.toMem = [m]) (hin : s.toCpu = []) :
      InCall call st s (13 + toCheck s.mem.node.pc) .memData
  | served (g : MemStage) (m : DataBusReq) (hg : g.request = some m) (hm : Asks call m)
      (hcpu : CpuAt call (onStore st call).2 .out s.cpu)
      (hmem : MemAt call (onStore st call).2 (g.store st call) g s.mem)
      (hout : s.toMem = []) (hin : s.toCpu = []) :
      InCall call st s g.rank g.helpful
  | back (m : DataBusReq) (hm : Answers call (onStore st call).2 m)
      (hcpu : CpuAt call (onStore st call).2 .out s.cpu)
      (hmem : MemAt call (onStore st call).2 (onStore st call).1 .rest s.mem)
      (hout : s.toMem = []) (hin : s.toCpu = [m]) :
      InCall call st s (4 + toCheck s.cpu.node.pc) .cpuData
  | storing (m : DataBusReq) (hm : Answers call (onStore st call).2 m)
      (hcpu : CpuAt call (onStore st call).2 (.storing m) s.cpu)
      (hmem : MemAt call (onStore st call).2 (onStore st call).1 .rest s.mem)
      (hout : s.toMem = []) (hin : s.toCpu = []) :
      InCall call st s 3 .cpuData
  | stored (hcpu : CpuAt call (onStore st call).2 .stored s.cpu)
      (hmem : MemAt call (onStore st call).2 (onStore st call).1 .rest s.mem)
      (hout : s.toMem = []) (hin : s.toCpu = []) :
      InCall call st s 2 .cpuData
  | done (hcpu : CpuAt call (onStore st call).2 .done s.cpu)
      (hmem : MemAt call (onStore st call).2 (onStore st call).1 .rest s.mem)
      (hout : s.toMem = []) (hin : s.toCpu = []) :
      InCall call st s 1 .cpuMain

section InCall

variable {call : Call} {st : ByteStore Addr} {s : Sys} {k : ℕ} {i : Thread} (uninit : DataBusReq)

/-- Something is left to do for the call, and not more than this. -/
theorem InCall.bounds (h : InCall call st s k i) : 0 < k ∧ k < 20 := by
  have hhead : toHead s.cpu.node.pc ≤ 2 := by unfold toHead; split <;> omega
  have hcpu : toCheck s.cpu.node.pc ≤ 2 := by unfold toCheck; split <;> omega
  have hmem : toCheck s.mem.node.pc ≤ 2 := by unfold toCheck; split <;> omega
  cases h with
  | served g m hg =>
    cases g with
    | rest => cases hg
    | _ => simp [MemStage.rank]
  | _ => omega

@[simp] theorem leave_nil (nd : Node) : leave nd [] = [] := by
  unfold leave
  split <;> rfl

theorem leave_of_not_receives {nd : Node} (h : Node.receives nd = false)
    (queue : List DataBusReq) : leave nd queue = queue := by
  rw [leave, h]
  rfl

/-- A step of the cpu's data-bus thread that neither sends nor finds a datagram. -/
theorem quiet_cpuData {out : List DataBusReq} (hin : s.toCpu = [])
    (hsent : (s.cpu.data true uninit s.toCpu.head?).2 = none) (hout : s.toMem = out) :
    (step ⟨.cpuData, uninit⟩ s).toMem = out ∧ (step ⟨.cpuData, uninit⟩ s).toCpu = [] := by
  constructor
  · change s.toMem ++ (s.cpu.data true uninit s.toCpu.head?).2.toList = out
    rw [hsent, hout]
    exact List.append_nil out
  · change leave s.cpu.node s.toCpu = []
    rw [hin, leave_nil]

/-- The same for mem's data-bus thread. -/
theorem quiet_memData {back : List DataBusReq} (hout : s.toMem = [])
    (hsent : (s.mem.data true (some isLocalAddr) uninit s.toMem.head?).2 = none)
    (hin : s.toCpu = back) :
    (step ⟨.memData, uninit⟩ s).toMem = [] ∧ (step ⟨.memData, uninit⟩ s).toCpu = back := by
  constructor
  · change leave s.mem.node s.toMem = []
    rw [hout, leave_nil]
  · change s.toCpu ++ (s.mem.data true (some isLocalAddr) uninit s.toMem.head?).2.toList = back
    rw [hsent, hin]
    exact List.append_nil back

/-- mem rests while its data-bus thread goes round. -/
theorem rest_memData {v : Option Word} {back : List DataBusReq}
    (hmem : MemAt call v st .rest s.mem) (hout : s.toMem = []) (hin : s.toCpu = back) :
    MemAt call v st .rest (step ⟨.memData, uninit⟩ s).mem ∧
      (step ⟨.memData, uninit⟩ s).toMem = [] ∧ (step ⟨.memData, uninit⟩ s).toCpu = back := by
  have hnone : s.toMem.head? = none := by rw [hout]; rfl
  obtain ⟨hsent, hmem', -⟩ := hmem.data_rest uninit fun _ => hnone
  exact ⟨hmem', quiet_memData uninit hout hsent hin⟩

/-- The cpu's data-bus thread goes round, with nothing to take. -/
theorem rest_cpuData {v : Option Word} {g : CpuStage} {out : List DataBusReq}
    (hcpu : CpuAt call v g s.cpu) (hg : g = .idle ∨ g = .out ∨ g = .done) (hout : s.toMem = out)
    (hin : s.toCpu = []) :
    CpuAt call v g (step ⟨.cpuData, uninit⟩ s).cpu ∧
      (step ⟨.cpuData, uninit⟩ s).toMem = out ∧ (step ⟨.cpuData, uninit⟩ s).toCpu = [] := by
  have hnone : s.toCpu.head? = none := by rw [hin]; rfl
  obtain ⟨hsent, hcpu', -⟩ := hcpu.data_rest uninit hg fun _ => hnone
  exact ⟨hcpu', quiet_cpuData uninit hin hsent hout⟩

/-- The cpu's data-bus thread is the helpful one from the post to the request
    sent, and from the response to the signal. -/
theorem InCall.cpuData (h : InCall call st s k i) :
    (i = .cpuData → ∃ k' i', k' < k ∧ InCall call st (step ⟨.cpuData, uninit⟩ s) k' i') ∧
    (i ≠ .cpuData → InCall call st (step ⟨.cpuData, uninit⟩ s) k i) := by
  cases h with
  | posted hcpu hmem hout hin =>
    refine ⟨fun _ => ?_, fun hne => absurd rfl hne⟩
    have hnone : s.toCpu.head? = none := by rw [hin]; rfl
    obtain ⟨hsent, htaken | ⟨hlt, hposted⟩⟩ := hcpu.data_posted uninit hnone
    · obtain ⟨hout', hin'⟩ := quiet_cpuData uninit hin hsent hout
      exact ⟨16, _, by omega, .taken htaken hmem hout' hin'⟩
    · obtain ⟨hout', hin'⟩ := quiet_cpuData uninit hin hsent hout
      exact ⟨_, _, Nat.add_lt_add_left hlt 17, .posted hposted hmem hout' hin'⟩
  | taken hcpu hmem hout hin =>
    refine ⟨fun _ => ?_, fun hne => absurd rfl hne⟩
    have hcheck : toCheck s.mem.node.pc ≤ 2 := by unfold toCheck; split <;> omega
    obtain ⟨m, hsent, hasks, hcpu'⟩ := hcpu.data_taken uninit s.toCpu.head?
    refine ⟨_, _, ?_, .sent m hasks hcpu' hmem ?_ ?_⟩
    · change 13 + toCheck s.mem.node.pc < 16
      omega
    · change s.toMem ++ (s.cpu.data true uninit s.toCpu.head?).2.toList = [m]
      rw [hsent, hout]
      rfl
    · change leave s.cpu.node s.toCpu = []
      rw [hin, leave_nil]
  | sent m hm hcpu hmem hout hin =>
    refine ⟨nofun, fun _ => ?_⟩
    obtain ⟨hcpu', hout', hin'⟩ := rest_cpuData uninit hcpu (.inr (.inl rfl)) hout hin
    exact .sent m hm hcpu' hmem hout' hin'
  | served g m hg hm hcpu hmem hout hin =>
    refine ⟨fun hi => ?_, fun _ => ?_⟩
    · unfold MemStage.helpful at hi
      split at hi <;> cases hi
    · obtain ⟨hcpu', hout', hin'⟩ := rest_cpuData uninit hcpu (.inr (.inl rfl)) hout hin
      exact .served g m hg hm hcpu' hmem hout' hin'
  | back m hm hcpu hmem hout hin =>
    refine ⟨fun _ => ?_, fun hne => absurd rfl hne⟩
    have hsome : s.toCpu.head? = some m := by rw [hin]; rfl
    by_cases hcheck : s.cpu.node.pc = .check true
    · obtain ⟨hsent, hcpu'⟩ := hcpu.data_receive uninit hm hcheck
      rw [← hsome] at hsent hcpu'
      refine ⟨3, _, by omega, .storing m hm hcpu' hmem ?_ ?_⟩
      · change s.toMem ++ (s.cpu.data true uninit s.toCpu.head?).2.toList = []
        rw [hsent, hout]
        rfl
      · change leave s.cpu.node s.toCpu = []
        rw [leave, Node.receives, hcheck, hin]
        rfl
    · obtain ⟨hsent, hcpu', hlt⟩ :=
        hcpu.data_rest uninit (.inr (.inl rfl)) fun h => absurd h hcheck
      refine ⟨_, _, Nat.add_lt_add_left (hlt hcheck) 4, .back m hm hcpu' hmem ?_ ?_⟩
      · change s.toMem ++ (s.cpu.data true uninit s.toCpu.head?).2.toList = []
        rw [hsent, hout]
        rfl
      · change leave s.cpu.node s.toCpu = [m]
        rw [leave_of_not_receives ?_, hin]
        rcases hcpu.pc with hpc | hpc | hpc
        · rw [Node.receives, hpc]
        · rw [Node.receives, hpc]
        · exact absurd hpc hcheck
  | storing m hm hcpu hmem hout hin =>
    refine ⟨fun _ => ?_, fun hne => absurd rfl hne⟩
    obtain ⟨hsent, hcpu'⟩ := hcpu.data_storing uninit hm s.toCpu.head?
    obtain ⟨hout', hin'⟩ := quiet_cpuData uninit hin hsent hout
    exact ⟨2, _, by omega, .stored hcpu' hmem hout' hin'⟩
  | stored hcpu hmem hout hin =>
    refine ⟨fun _ => ?_, fun hne => absurd rfl hne⟩
    obtain ⟨hsent, hcpu'⟩ := hcpu.data_stored uninit s.toCpu.head?
    obtain ⟨hout', hin'⟩ := quiet_cpuData uninit hin hsent hout
    exact ⟨1, _, by omega, .done hcpu' hmem hout' hin'⟩
  | done hcpu hmem hout hin =>
    refine ⟨nofun, fun _ => ?_⟩
    obtain ⟨hcpu', hout', hin'⟩ := rest_cpuData uninit hcpu (.inr (.inr rfl)) hout hin
    exact .done hcpu' hmem hout' hin'

/-- mem's data-bus thread is the helpful one from the request sent to the
    wake-up of the main thread, and for the answer. -/
theorem InCall.memData (h : InCall call st s k i) (haddr : call.addr.toNat + 1 < MEMBYTES) :
    (i = .memData → ∃ k' i', k' < k ∧ InCall call st (step ⟨.memData, uninit⟩ s) k' i') ∧
    (i ≠ .memData → InCall call st (step ⟨.memData, uninit⟩ s) k i) := by
  cases h with
  | posted hcpu hmem hout hin =>
    refine ⟨nofun, fun _ => ?_⟩
    obtain ⟨hmem', hout', hin'⟩ := rest_memData uninit hmem hout hin
    exact .posted hcpu hmem' hout' hin'
  | taken hcpu hmem hout hin =>
    refine ⟨nofun, fun _ => ?_⟩
    obtain ⟨hmem', hout', hin'⟩ := rest_memData uninit hmem hout hin
    exact .taken hcpu hmem' hout' hin'
  | sent m hm hcpu hmem hout hin =>
    refine ⟨fun _ => ?_, fun hne => absurd rfl hne⟩
    have hsome : s.toMem.head? = some m := by rw [hout]; rfl
    by_cases hcheck : s.mem.node.pc = .check false
    · obtain ⟨hsent, hmem'⟩ := hmem.data_receive uninit hm haddr hcheck
      rw [← hsome] at hsent hmem'
      refine ⟨_, _, ?_, .served (.arrived m) m rfl hm hcpu hmem' ?_ ?_⟩
      · simp only [MemStage.rank]
        omega
      · change leave s.mem.node s.toMem = []
        rw [leave, Node.receives, hcheck, hout]
        rfl
      · change s.toCpu ++ (s.mem.data true (some isLocalAddr) uninit s.toMem.head?).2.toList = []
        rw [hsent, hin]
        rfl
    · obtain ⟨hsent, hmem', hlt⟩ :=
        hmem.data_rest uninit fun h => absurd h hcheck
      refine ⟨_, _, Nat.add_lt_add_left (hlt hcheck) 13, .sent m hm hcpu hmem' ?_ ?_⟩
      · change leave s.mem.node s.toMem = [m]
        rw [leave_of_not_receives ?_, hout]
        rcases hmem.pc with hpc | hpc | hpc
        · rw [Node.receives, hpc]
        · rw [Node.receives, hpc]
        · exact absurd hpc hcheck
      · change s.toCpu ++ (s.mem.data true (some isLocalAddr) uninit s.toMem.head?).2.toList = []
        rw [hsent, hin]
        rfl
  | served g m hg hm hcpu hmem hout hin =>
    cases hbusy : g.isBusy with
    | true =>
      have hhelp : g.helpful = .memMain := by rw [MemStage.helpful, hbusy]; rfl
      rw [hhelp]
      refine ⟨nofun, fun _ => ?_⟩
      obtain ⟨hsent, hmem'⟩ := hmem.data_busy uninit hbusy s.toMem.head?
      obtain ⟨hout', hin'⟩ := quiet_memData uninit hout hsent hin
      exact hhelp ▸ .served g m hg hm hcpu hmem' hout' hin'
    | false =>
      have hhelp : g.helpful = .memData := by rw [MemStage.helpful, hbusy]; rfl
      rw [hhelp]
      refine ⟨fun _ => ?_, fun hne => absurd rfl hne⟩
      cases g with
      | arrived m' =>
        obtain rfl : m' = m := Option.some.inj hg
        obtain ⟨hsent, hmem'⟩ := hmem.data_arrived uninit hm s.toMem.head?
        obtain ⟨hout', hin'⟩ := quiet_memData uninit hout hsent hin
        exact ⟨_, _, Nat.lt_succ_self _, .served (.placed m') m' rfl hm hcpu hmem' hout' hin'⟩
      | placed m' =>
        obtain rfl : m' = m := Option.some.inj hg
        obtain ⟨hsent, hmem'⟩ := hmem.data_placed uninit s.toMem.head?
        obtain ⟨hout', hin'⟩ := quiet_memData uninit hout hsent hin
        exact ⟨_, _, Nat.lt_succ_self _, .served (.asked m') m' rfl hm hcpu hmem' hout' hin'⟩
      | answering m' =>
        obtain rfl : m' = m := Option.some.inj hg
        obtain ⟨r, hsent, hr, hmem'⟩ := hmem.data_answering uninit hm s.toMem.head?
        have hcheck : toCheck s.cpu.node.pc ≤ 2 := by unfold toCheck; split <;> omega
        refine ⟨_, _, ?_, .back r hr hcpu hmem' ?_ ?_⟩
        · change 4 + toCheck s.cpu.node.pc < 7
          omega
        · change leave s.mem.node s.toMem = []
          rw [hout, leave_nil]
        · change s.toCpu ++ (s.mem.data true (some isLocalAddr) uninit s.toMem.head?).2.toList = [r]
          rw [hsent, hin]
          rfl
      | rest => cases hg
      | asked m' | performed m' | replied m' => cases hbusy
  | back m hm hcpu hmem hout hin =>
    refine ⟨nofun, fun _ => ?_⟩
    obtain ⟨hmem', hout', hin'⟩ := rest_memData uninit hmem hout hin
    exact .back m hm hcpu hmem' hout' hin'
  | storing m hm hcpu hmem hout hin =>
    refine ⟨nofun, fun _ => ?_⟩
    obtain ⟨hmem', hout', hin'⟩ := rest_memData uninit hmem hout hin
    exact .storing m hm hcpu hmem' hout' hin'
  | stored hcpu hmem hout hin =>
    refine ⟨nofun, fun _ => ?_⟩
    obtain ⟨hmem', hout', hin'⟩ := rest_memData uninit hmem hout hin
    exact .stored hcpu hmem' hout' hin'
  | done hcpu hmem hout hin =>
    refine ⟨nofun, fun _ => ?_⟩
    obtain ⟨hmem', hout', hin'⟩ := rest_memData uninit hmem hout hin
    exact .done hcpu hmem' hout' hin'

/-- mem's main thread is the helpful one while it serves the request. -/
theorem InCall.memMain (h : InCall call st s k i) (haddr : call.addr.toNat + 1 < MEMBYTES) :
    (i = .memMain → ∃ k' i', k' < k ∧ InCall call st (step ⟨.memMain, uninit⟩ s) k' i') ∧
    (i ≠ .memMain → InCall call st (step ⟨.memMain, uninit⟩ s) k i) := by
  cases h with
  | posted hcpu hmem hout hin =>
    exact ⟨nofun, fun _ => .posted hcpu (hmem.main_free rfl).1 hout hin⟩
  | taken hcpu hmem hout hin =>
    exact ⟨nofun, fun _ => .taken hcpu (hmem.main_free rfl).1 hout hin⟩
  | sent m hm hcpu hmem hout hin =>
    refine ⟨nofun, fun _ => ?_⟩
    obtain ⟨hmem', hnode⟩ := hmem.main_free rfl
    have hsame : (step ⟨.memMain, uninit⟩ s).mem.node = s.mem.node := hnode
    rw [← hsame]
    exact .sent m hm hcpu hmem' hout hin
  | served g m hg hm hcpu hmem hout hin =>
    cases hbusy : g.isBusy with
    | false =>
      have hhelp : g.helpful = .memData := by rw [MemStage.helpful, hbusy]; rfl
      rw [hhelp]
      exact ⟨nofun, fun _ => hhelp ▸ .served g m hg hm hcpu (hmem.main_free hbusy).1 hout hin⟩
    | true =>
      have hhelp : g.helpful = .memMain := by rw [MemStage.helpful, hbusy]; rfl
      rw [hhelp]
      refine ⟨fun _ => ?_, fun hne => absurd rfl hne⟩
      cases g with
      | asked m' =>
        exact ⟨_, _, Nat.lt_succ_self _,
          .served (.performed m') m hg hm hcpu (hmem.main_asked haddr) hout hin⟩
      | performed m' =>
        exact ⟨_, _, Nat.lt_succ_self _,
          .served (.replied m') m hg hm hcpu hmem.main_performed hout hin⟩
      | replied m' =>
        exact ⟨_, _, Nat.lt_succ_self _,
          .served (.answering m') m hg hm hcpu hmem.main_replied hout hin⟩
      | rest | arrived m' | placed m' | answering m' => cases hbusy
  | back m hm hcpu hmem hout hin =>
    exact ⟨nofun, fun _ => .back m hm hcpu (hmem.main_free rfl).1 hout hin⟩
  | storing m hm hcpu hmem hout hin =>
    exact ⟨nofun, fun _ => .storing m hm hcpu (hmem.main_free rfl).1 hout hin⟩
  | stored hcpu hmem hout hin =>
    exact ⟨nofun, fun _ => .stored hcpu (hmem.main_free rfl).1 hout hin⟩
  | done hcpu hmem hout hin =>
    exact ⟨nofun, fun _ => .done hcpu (hmem.main_free rfl).1 hout hin⟩

/-- The cpu's main thread only waits until the call is done. -/
theorem InCall.cpuMain (h : InCall call st s k i) (hi : i ≠ .cpuMain) :
    InCall call st (step ⟨.cpuMain, uninit⟩ s) k i ∧
      (step ⟨.cpuMain, uninit⟩ s).results = s.results ∧
      (step ⟨.cpuMain, uninit⟩ s).todo = s.todo := by
  -- what a step of a pending call leaves, at any stage
  have hpending {v : Option Word} {g : CpuStage} (hcpu : CpuAt call v g s.cpu) (hidle : g ≠ .idle)
      (hdone : g ≠ .done) :
      CpuAt call v g (step ⟨.cpuMain, uninit⟩ s).cpu ∧
        (step ⟨.cpuMain, uninit⟩ s).cpu.node = s.cpu.node ∧
        (step ⟨.cpuMain, uninit⟩ s).results = s.results ∧
        (step ⟨.cpuMain, uninit⟩ s).todo = s.todo := by
    obtain ⟨hret, hcpu', hnode, hcaller⟩ := hcpu.main_pending hidle hdone s.todo.head?
    refine ⟨hcpu', hnode, ?_, if_neg hcaller⟩
    change s.results ++ (s.cpu.main s.todo.head?).2.toList = s.results
    rw [hret]
    exact List.append_nil _
  cases h with
  | posted hcpu hmem hout hin =>
    obtain ⟨hcpu', hnode, hsame⟩ := hpending hcpu nofun nofun
    rw [← hnode]
    exact ⟨.posted hcpu' hmem hout hin, hsame⟩
  | taken hcpu hmem hout hin =>
    obtain ⟨hcpu', hnode, hsame⟩ := hpending hcpu nofun nofun
    exact ⟨.taken hcpu' hmem hout hin, hsame⟩
  | sent m hm hcpu hmem hout hin =>
    obtain ⟨hcpu', hnode, hsame⟩ := hpending hcpu nofun nofun
    exact ⟨.sent m hm hcpu' hmem hout hin, hsame⟩
  | served g m hg hm hcpu hmem hout hin =>
    obtain ⟨hcpu', hnode, hsame⟩ := hpending hcpu nofun nofun
    exact ⟨.served g m hg hm hcpu' hmem hout hin, hsame⟩
  | back m hm hcpu hmem hout hin =>
    obtain ⟨hcpu', hnode, hsame⟩ := hpending hcpu nofun nofun
    rw [← hnode]
    exact ⟨.back m hm hcpu' hmem hout hin, hsame⟩
  | storing m hm hcpu hmem hout hin =>
    obtain ⟨hcpu', hnode, hsame⟩ := hpending hcpu nofun nofun
    exact ⟨.storing m hm hcpu' hmem hout hin, hsame⟩
  | stored hcpu hmem hout hin =>
    obtain ⟨hcpu', hnode, hsame⟩ := hpending hcpu nofun nofun
    exact ⟨.stored hcpu' hmem hout hin, hsame⟩
  | done hcpu hmem hout hin => exact absurd rfl hi

end InCall

/-! ### Between calls -/

/-- No call is on its way, and mem holds the bytes of `st`. -/
structure Between (st : ByteStore Addr) (s : Sys) : Prop where
  cpu : ∀ call v, CpuAt call v .idle s.cpu
  mem : ∀ call v, MemAt call v st .rest s.mem
  toMem : s.toMem = []
  toCpu : s.toCpu = []

section Between

variable {st : ByteStore Addr} {s : Sys} (uninit : DataBusReq)

theorem between_start (calls : List Call) (dev : MemDev) : Between dev.image (start calls dev) where
  cpu _ _ := ⟨rfl, .inl rfl, rfl, rfl, rfl, rfl⟩
  mem _ _ := ⟨⟨rfl, rfl, rfl⟩, .inl rfl, .inl rfl, trivial, dev.agrees_image⟩
  toMem := rfl
  toCpu := rfl

/-- The threads other than the cpu's main thread leave things as they are. -/
theorem Between.others (h : Between st s) {i : Thread} (hi : i ≠ .cpuMain) :
    Between st (step ⟨i, uninit⟩ s) := by
  obtain ⟨hcpu, hmem, hout, hin⟩ := h
  cases i with
  | cpuMain => exact absurd rfl hi
  | cpuData =>
    have hrest (call : Call) (v : Option Word) :=
      rest_cpuData uninit (hcpu call v) (.inl rfl) hout hin
    obtain ⟨-, hout', hin'⟩ := hrest (.readDataIn 0) none
    exact ⟨fun call v => (hrest call v).1, hmem, hout', hin'⟩
  | memMain => exact ⟨hcpu, fun call v => ((hmem call v).main_free rfl).1, hout, hin⟩
  | memData =>
    have hrest (call : Call) (v : Option Word) := rest_memData uninit (hmem call v) hout hin
    obtain ⟨-, hout', hin'⟩ := hrest (.readDataIn 0) none
    exact ⟨hcpu, fun call v => (hrest call v).1, hout', hin'⟩

/-- The next call is made. -/
theorem Between.post (h : Between st s) {call : Call} {rest : List Call}
    (htodo : s.todo = call :: rest) :
    (∃ k, InCall call st (step ⟨.cpuMain, uninit⟩ s) k .cpuData) ∧
      (step ⟨.cpuMain, uninit⟩ s).results = s.results ∧
      (step ⟨.cpuMain, uninit⟩ s).todo = rest := by
  obtain ⟨hcpu, hmem, hout, hin⟩ := h
  have hhead : s.todo.head? = some call := by rw [htodo]; rfl
  obtain ⟨hret, hcpu'⟩ := (hcpu call none).main_post
  rw [← hhead] at hret hcpu'
  refine ⟨⟨_, .posted hcpu' (hmem call _) hout hin⟩, ?_, ?_⟩
  · change s.results ++ (s.cpu.main s.todo.head?).2.toList = s.results
    rw [hret]
    exact List.append_nil _
  · change (if s.cpu.caller = .idle then s.todo.tail else s.todo) = rest
    have hidle : s.cpu.caller = .idle := (hcpu call none).caller
    rw [if_pos hidle, htodo]
    rfl

/-- The result of a call is collected. -/
theorem InCall.collect {call : Call} {k : ℕ} {i : Thread} (h : InCall call st s k i)
    (hi : i = .cpuMain) :
    Between (onStore st call).1 (step ⟨.cpuMain, uninit⟩ s) ∧
      (step ⟨.cpuMain, uninit⟩ s).results = s.results ++ [(onStore st call).2] ∧
      (step ⟨.cpuMain, uninit⟩ s).todo = s.todo := by
  cases h with
  | done hcpu hmem hout hin =>
    obtain ⟨hret, hcpu'⟩ := hcpu.main_done s.todo.head?
    have hidle : s.cpu.caller ≠ .idle := by
      have hwoken : s.cpu.caller = .woken call := hcpu.caller
      rw [hwoken]
      nofun
    refine ⟨⟨fun _ _ => ?_, fun _ _ => ?_, hout, hin⟩, ?_, if_neg hidle⟩
    · exact ⟨hcpu'.isMaster, hcpu'.pc, hcpu'.caller, hcpu'.master, hcpu'.buffer, hcpu'.issued⟩
    · exact ⟨hmem.noCalls, hmem.pc, hmem.server, trivial, hmem.store⟩
    · change s.results ++ (s.cpu.main s.todo.head?).2.toList = _
      rw [hret]
      rfl
  | served g m hg =>
    unfold MemStage.helpful at hi
    split at hi <;> cases hi
  | _ => cases hi

end Between

/-! ### Responses accepted -/

/-- The response to the call is accepted, the call has still to end. -/
def Sys.responded (s : Sys) : ℕ :=
  match s.cpu.caller with
  | .woken _ => 1
  | .idle | .posted _ | .waiting _ => 0

section Accepted

variable {call : Call} {v : Option Word} {s : Sys} (uninit : DataBusReq)

/-- Only a call whose response is in the mailbox is signalled. -/
theorem CpuAt.pending_of_signals {g : CpuStage} {c : CallerSide} (h : CpuAt call v g c)
    (hsig : c.node.signals = some .masterData) : c.caller.isPending = true := by
  obtain ⟨data, hpc⟩ := Node.pc_of_signals_masterData hsig
  have hloop (hr : Rounds true c.node.pc) : c.caller.isPending = true := by
    rw [hr.signals] at hsig
    cases hsig
  cases g with
  | idle | posted | out | done => exact hloop h.pc
  | taken =>
    have htaken : c.node.pc = .process true := h.pc
    rw [hpc] at htaken
    cases htaken
  | storing m =>
    have hstoring : c.node.pc = .store m := h.pc
    rw [hpc] at hstoring
    cases hstoring
  | stored => rcases h.caller with hc | hc <;> rw [hc] <;> rfl

/-- One response is accepted for every call that ends. -/
theorem accepted_step (i : Thread)
    (hsig : s.cpu.node.signals = some .masterData → s.cpu.caller.isPending = true)
    (h : s.accepted = s.results.length + s.responded) :
    (step ⟨i, uninit⟩ s).accepted
      = (step ⟨i, uninit⟩ s).results.length + (step ⟨i, uninit⟩ s).responded := by
  cases i with
  | cpuMain =>
    change s.accepted = (s.results ++ (s.cpu.main s.todo.head?).2.toList).length + _
    rw [h]
    unfold Sys.responded
    simp only [step, CallerSide.main]
    cases hc : s.cpu.caller with
    | idle => cases s.todo.head? <;> simp [hc]
    | posted call | waiting call => simp [hc]
    | woken call => simp
  | cpuData =>
    change (if s.cpu.node.signals = some .masterData then s.accepted + 1 else s.accepted)
      = s.results.length + _
    rw [h]
    unfold Sys.responded
    simp only [step, CallerSide.data, advance_signal]
    by_cases hs : s.cpu.node.signals = some .masterData
    · have hpending := hsig hs
      rw [if_pos hs, if_pos hs]
      cases hc : s.cpu.caller with
      | posted call | waiting call => rfl
      | idle | woken call =>
        rw [hc] at hpending
        cases hpending
    · rw [if_neg hs, if_neg hs]
  | memMain | memData => exact h

end Accepted

/-! ### Runs -/

/-- The store after calls made one after the other. -/
def storeAfter (st : ByteStore Addr) : List Call → ByteStore Addr
  | [] => st
  | call :: calls => storeAfter (onStore st call).1 calls

theorem storeAfter_concat (st : ByteStore Addr) (calls : List Call) (call : Call) :
    storeAfter st (calls ++ [call]) = (onStore (storeAfter st calls) call).1 := by
  induction calls generalizing st with
  | nil => rfl
  | cons first calls ih => exact ih _

theorem sequential_append (st : ByteStore Addr) (calls calls' : List Call) :
    sequential st (calls ++ calls')
      = sequential st calls ++ sequential (storeAfter st calls) calls' := by
  induction calls generalizing st with
  | nil => rfl
  | cons call calls ih => exact congrArg _ (ih _)

/-- Where a run stands: between two calls or in one of them. -/
inductive Place (st : ByteStore Addr) (calls : List Call) (s : Sys) : ℕ → Thread → Prop
  | between (past : List Call) (hcalls : calls = past ++ s.todo)
      (hresults : s.results = sequential st past) (hrest : Between (storeAfter st past) s) :
      Place st calls s (20 * s.todo.length) .cpuMain
  | calling (past : List Call) (call : Call) (k : ℕ) (i : Thread)
      (hcalls : calls = past ++ call :: s.todo)
      (hresults : s.results = sequential st past)
      (hcall : InCall call (storeAfter st past) s k i) :
      Place st calls s (20 * s.todo.length + k) i

/-- Every call has ended. -/
def Finished (s : Sys) : Prop := s.todo = [] ∧ s.cpu.caller = .idle

section Runs

variable {st : ByteStore Addr} {calls : List Call} {s : Sys} {k : ℕ} {i : Thread}
  (uninit : DataBusReq)

/-- Only the cpu's main thread makes and ends calls. -/
theorem step_others (hi : i ≠ .cpuMain) :
    (step ⟨i, uninit⟩ s).todo = s.todo ∧ (step ⟨i, uninit⟩ s).results = s.results := by
  cases i with
  | cpuMain => exact absurd rfl hi
  | cpuData | memMain | memData => exact ⟨rfl, rfl⟩

theorem step_finished (h : Finished s) : step ⟨.cpuMain, uninit⟩ s = s := by
  obtain ⟨⟨node, caller⟩, mem, toMem, toCpu, todo, results, accepted⟩ := s
  obtain ⟨rfl, rfl⟩ := h
  simp [step, CallerSide.main]

/-- A step of the helpful thread brings the run on. -/
theorem Place.helped (h : Place st calls s k i)
    (hcalls : ∀ call ∈ calls, call.addr.toNat + 1 < MEMBYTES) :
    ∃ k' i', Place st calls (step ⟨i, uninit⟩ s) k' i' ∧ (¬ Finished s → k' < k) := by
  cases h with
  | between past hpast hresults hrest =>
    cases htodo : s.todo with
    | nil =>
      have hfin : Finished s := ⟨htodo, (hrest.cpu (.readDataIn 0) none).caller⟩
      rw [step_finished uninit hfin]
      exact ⟨_, _, .between past hpast hresults hrest, fun hnot => absurd hfin hnot⟩
    | cons call rest =>
      obtain ⟨⟨k, hcall⟩, hresults', htodo'⟩ := hrest.post uninit htodo
      have hk := hcall.bounds
      refine ⟨_, _, .calling past call k .cpuData ?_ (hresults'.trans hresults) hcall, fun _ => ?_⟩
      · rw [htodo', ← htodo]
        exact hpast
      · rw [htodo', List.length_cons]
        omega
  | calling past call k i hpast hresults hcall =>
    have haddr := hcalls call (by rw [hpast]; simp)
    by_cases hi : i = .cpuMain
    · obtain ⟨hrest, hresults', htodo'⟩ := hcall.collect uninit hi
      have hk := hcall.bounds
      rw [hi]
      refine ⟨_, _, .between (past ++ [call]) ?_ ?_ ?_, fun _ => ?_⟩
      · rw [htodo', hpast, List.append_assoc]
        rfl
      · rw [hresults', hresults, sequential_append]
        rfl
      · rw [storeAfter_concat]
        exact hrest
      · rw [htodo']
        omega
    -- inside a call the rank falls by the call's own rank
    · obtain ⟨htodo', hresults'⟩ := step_others uninit (s := s) hi
      have hstep : ∃ k' i', k' < k ∧
          InCall call (storeAfter st past) (step ⟨i, uninit⟩ s) k' i' := by
        cases i with
        | cpuMain => exact absurd rfl hi
        | cpuData => exact (hcall.cpuData uninit).1 rfl
        | memMain => exact (hcall.memMain uninit haddr).1 rfl
        | memData => exact (hcall.memData uninit haddr).1 rfl
      obtain ⟨k', i', hlt, hcall'⟩ := hstep
      refine ⟨_, _, .calling past call k' i' ?_ (hresults'.trans hresults) hcall', fun _ => ?_⟩
      · rw [htodo']
        exact hpast
      · rw [htodo']
        omega

/-- The steps of the other threads leave it where it is. -/
theorem Place.others (h : Place st calls s k i)
    (hcalls : ∀ call ∈ calls, call.addr.toNat + 1 < MEMBYTES) {j : Thread} (hj : j ≠ i) :
    Place st calls (step ⟨j, uninit⟩ s) k i := by
  cases h with
  | between past hpast hresults hrest =>
    obtain ⟨htodo', hresults'⟩ := step_others uninit (s := s) hj
    rw [← htodo'] at hpast ⊢
    exact .between past hpast (hresults'.trans hresults) (hrest.others uninit hj)
  | calling past call k i hpast hresults hcall =>
    have haddr := hcalls call (by rw [hpast]; simp)
    have hstep : InCall call (storeAfter st past) (step ⟨j, uninit⟩ s) k i ∧
        (step ⟨j, uninit⟩ s).todo = s.todo ∧ (step ⟨j, uninit⟩ s).results = s.results := by
      cases j with
      | cpuMain =>
        obtain ⟨hcall', hresults', htodo'⟩ := hcall.cpuMain uninit hj.symm
        exact ⟨hcall', htodo', hresults'⟩
      | cpuData => exact ⟨(hcall.cpuData uninit).2 hj.symm, rfl, rfl⟩
      | memMain => exact ⟨(hcall.memMain uninit haddr).2 hj.symm, rfl, rfl⟩
      | memData => exact ⟨(hcall.memData uninit haddr).2 hj.symm, rfl, rfl⟩
    obtain ⟨hcall', htodo', hresults'⟩ := hstep
    rw [← htodo'] at hpast ⊢
    exact .calling past call k i hpast (hresults'.trans hresults) hcall'

/-- A request is on the bus only while its call is pending. -/
theorem CpuAt.issued_pending {call : Call} {v : Option Word} {g : CpuStage} {c : CallerSide}
    (h : CpuAt call v g c) (hc : c.caller.isPending = false) : c.node.data.reqIssued = false := by
  have hissued := h.issued
  have hpending (hp : c.caller = .posted call ∨ c.caller = .waiting call) :
      c.node.data.reqIssued = false := by
    rcases hp with hp | hp <;> (rw [hp] at hc; cases hc)
  cases g with
  | idle | done => exact hissued
  | posted | taken | out | storing _ | stored => exact hpending h.caller

/-- A call on its way keeps the main thread, and has one message in flight at most. -/
theorem InCall.cpuAt {call : Call} (h : InCall call st s k i) :
    (∃ g, CpuAt call (onStore st call).2 g s.cpu) ∧ s.cpu.caller ≠ .idle ∧
      s.toMem.length + s.toCpu.length ≤ 1 := by
  have hpending (hp : s.cpu.caller = .posted call ∨ s.cpu.caller = .waiting call) :
      s.cpu.caller ≠ .idle := by
    rcases hp with hp | hp <;> (rw [hp]; nofun)
  cases h with
  | posted hcpu hmem hout hin | taken hcpu hmem hout hin | stored hcpu hmem hout hin =>
    exact ⟨⟨_, hcpu⟩, hpending hcpu.caller, by simp [hout, hin]⟩
  | sent m hm hcpu hmem hout hin | back m hm hcpu hmem hout hin
  | storing m hm hcpu hmem hout hin =>
    exact ⟨⟨_, hcpu⟩, hpending hcpu.caller, by simp [hout, hin]⟩
  | served g m hg hm hcpu hmem hout hin =>
    exact ⟨⟨_, hcpu⟩, hpending hcpu.caller, by simp [hout, hin]⟩
  | done hcpu hmem hout hin =>
    have hwoken : s.cpu.caller = .woken call := hcpu.caller
    exact ⟨⟨_, hcpu⟩, by rw [hwoken]; nofun, by simp [hout, hin]⟩

theorem Place.cpuAt (h : Place st calls s k i) : ∃ call v g, CpuAt call v g s.cpu := by
  cases h with
  | between past hpast hresults hrest => exact ⟨_, _, _, hrest.cpu (.readDataIn 0) none⟩
  | calling past call k i hpast hresults hcall =>
    obtain ⟨g, hg⟩ := hcall.cpuAt.1
    exact ⟨_, _, g, hg⟩

theorem Place.inFlight (h : Place st calls s k i) : s.toMem.length + s.toCpu.length ≤ 1 := by
  cases h with
  | between past hpast hresults hrest => simp [hrest.toMem, hrest.toCpu]
  | calling past call k i hpast hresults hcall => exact hcall.cpuAt.2.2

/-- What has been returned so far is what the ideal store returns. -/
theorem Place.results_prefix (h : Place st calls s k i) : s.results <+: sequential st calls := by
  cases h with
  | between past hpast hresults hrest =>
    rw [hpast, hresults, sequential_append]
    exact List.prefix_append _ _
  | calling past call k i hpast hresults hcall =>
    rw [hpast, hresults, sequential_append]
    exact List.prefix_append _ _

theorem Place.results_finished (h : Place st calls s k i) (hfin : Finished s) :
    s.results = sequential st calls := by
  cases h with
  | between past hpast hresults hrest => rw [hresults, hpast, hfin.1, List.append_nil]
  | calling past call k i hpast hresults hcall => exact absurd hfin.2 hcall.cpuAt.2.1

/-- A run of the system stands at some place, and has counted its responses. -/
theorem place_runActs (hcalls : ∀ call ∈ calls, call.addr.toNat + 1 < MEMBYTES) (dev : MemDev)
    (as : List Act) :
    (∃ k i, Place dev.image calls (runActs step as (start calls dev)) k i) ∧
      (runActs step as (start calls dev)).accepted
        = (runActs step as (start calls dev)).results.length
          + (runActs step as (start calls dev)).responded := by
  refine runActs_invariant (I := fun s => (∃ k i, Place dev.image calls s k i) ∧
    s.accepted = s.results.length + s.responded) ?_ as _ ?_
  · rintro s ⟨j, uninit⟩ ⟨⟨k, i, hplace⟩, haccepted⟩
    obtain ⟨call, v, g, hcpu⟩ := hplace.cpuAt
    refine ⟨?_, accepted_step uninit j hcpu.pending_of_signals haccepted⟩
    by_cases hj : j = i
    · obtain ⟨k', i', hplace', -⟩ := hplace.helped uninit hcalls
      rw [hj]
      exact ⟨k', i', hplace'⟩
    · exact ⟨k, i, hplace.others uninit hcalls hj⟩
  · exact ⟨⟨_, _, .between [] rfl rfl (between_start calls dev)⟩, rfl⟩

end Runs

/-- **Bus transfers implement a plain memory.**  In every run one message at
    most is in flight, every call that ends has had one response, and the values
    returned are those of an ideal store; under a fair schedule every call ends. -/
theorem bus_is_memory (calls : List Call) (hcalls : ∀ call ∈ calls, call.addr.toNat ≤ 65533)
    (dev : MemDev) :
    (∀ as, let s := runActs step as (start calls dev)
      s.toMem.length + s.toCpu.length ≤ 1 ∧
      s.accepted = s.results.length + s.responded ∧
      (s.cpu.caller.isPending = false → s.cpu.node.data.reqIssued = false) ∧
      s.results <+: sequential dev.image calls) ∧
    (∀ sched, FairSchedule Act.thread sched →
      ∃ n, let s := trace step sched (start calls dev) n
        Finished s ∧ s.results = sequential dev.image calls) := by
  -- both bytes of every address are in the store
  have hcalls' : ∀ call ∈ calls, call.addr.toNat + 1 < MEMBYTES := by
    intro call hcall
    have haddr := hcalls call hcall
    unfold MEMBYTES
    omega
  constructor
  · intro as
    obtain ⟨⟨k, i, hplace⟩, haccepted⟩ := place_runActs hcalls' dev as
    obtain ⟨call, v, g, hcpu⟩ := hplace.cpuAt
    exact ⟨hplace.inFlight, haccepted, hcpu.issued_pending, hplace.results_prefix⟩
  · intro sched hfair
    have hhelp : ∀ s k i a, Place dev.image calls s k i → ¬ Finished s → Act.thread a = i →
        ∃ k' i', k' < k ∧ Place dev.image calls (step a s) k' i' := by
      rintro s k i ⟨j, uninit⟩ hplace hnot rfl
      obtain ⟨k', i', hplace', hlt⟩ := hplace.helped uninit hcalls'
      exact ⟨k', i', hlt hnot, hplace'⟩
    have hkeep : ∀ s k i a, Place dev.image calls s k i → ¬ Finished s → Act.thread a ≠ i →
        Place dev.image calls (step a s) k i ∨
          ∃ k' i', k' < k ∧ Place dev.image calls (step a s) k' i' :=
      fun s k i a hplace _ ha => .inl (hplace.others a.uninit hcalls' ha)
    have hstart : Place dev.image calls (trace step sched (start calls dev) 0) _ _ :=
      .between [] rfl rfl (between_start calls dev)
    obtain ⟨n, hfin⟩ := eventually_of_fair hfair hhelp hkeep hstart
    obtain ⟨⟨k, i, hplace⟩, -⟩ := place_runActs hcalls' dev ((List.range n).map sched)
    rw [← trace_eq_runActs] at hplace
    exact ⟨n, hfin, hplace.results_finished hfin⟩

/-- The threads take turns. -/
def roundRobin (n : ℕ) : Act where
  thread :=
    match n % 4 with
    | 0 => .cpuMain
    | 1 => .cpuData
    | 2 => .memMain
    | _ => .memData
  uninit := ⟨.req, .empty, 0, 0⟩

theorem roundRobin_fair : FairSchedule Act.thread roundRobin := by
  intro i n
  cases i with
  | cpuMain => exact ⟨4 * n, by omega, by simp [roundRobin]⟩
  | cpuData => exact ⟨4 * n + 1, by omega, by simp [roundRobin, Nat.add_mod]⟩
  | memMain => exact ⟨4 * n + 2, by omega, by simp [roundRobin, Nat.add_mod]⟩
  | memData => exact ⟨4 * n + 3, by omega, by simp [roundRobin, Nat.add_mod]⟩

/-- A word is written and read back. -/
theorem bus_is_memory_readback :
    ∃ n, (trace step roundRobin
        (start [.writeDataOut 0 5, .readDataIn 0] ⟨0, 0, fun _ => 0⟩) n).results
      = [none, some 5] := by
  have hcalls : ∀ call ∈ [Call.writeDataOut 0 5, .readDataIn 0], call.addr.toNat ≤ 65533 := by
    decide
  obtain ⟨n, -, hresults⟩ :=
    (bus_is_memory _ hcalls ⟨0, 0, fun _ => 0⟩).2 roundRobin roundRobin_fair
  exact ⟨n, hresults.trans rfl⟩

end XMachine.Unibus.BusMemory
