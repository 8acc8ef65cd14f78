import XMachine.Lib.Simulation
import XMachine.Mem.Requests
import XMachine.Unibus.DataThread

namespace XMachine.Unibus.WakeUp

open XMachine.Lib XMachine.Cpu

/-!
# Wake-ups — when the hand-offs between the two threads of a node lock up

Every wait of the source is a `pthread_cond_wait` without a predicate, so a
signal given before the wait begins is lost and the waiting thread stays.  Both
sides are run here with signals that are lost in this way, in surroundings that
send any messages at any time.  A run stays clear of the deadlock exactly if
each of its signals finds its thread waiting: `noDeadlock_iff`.
-/

/-! ### The calling side -/

/-- A calling node; `answered` is set once `handle_resp` has ended for the
    request posted last. -/
structure Calling where
  side : CallerSide
  answered : Bool
  deriving DecidableEq, Repr

inductive CallingAct
  /-- The priority bus gives the node the bus, or takes it away. -/
  | setMaster (b : Bool)
  /-- A step of the main thread, which makes the call `next` when it has none. -/
  | main (next : Call)
  /-- A step of the data-bus thread. -/
  | data (uninit : DataBusReq) (arrives : Option DataBusReq)
  deriving DecidableEq, Repr

def callingStep (a : CallingAct) (s : Calling) : Calling :=
  match a with
  | .setMaster b => { s with side := { s.side with node := { s.side.node with isMaster := b } } }
  | .main next =>
    { side := (s.side.main (some next)).1
      answered := if s.side.caller = .idle then false else s.answered }
  | .data uninit arrives =>
    { side := (s.side.data false uninit arrives).1
      answered := s.answered || s.side.node.signals = some .masterData }

def initCalling (isMaster : Bool) : Calling := ⟨⟨initNode isMaster, .idle⟩, false⟩

/-- A signal on `cond_master_data` is given while the main thread waits. -/
def CallingHeard (s : Calling) (a : CallingAct) : Prop :=
  match a with
  | .data _ _ => s.side.node.signals = some .masterData → s.side.caller.isWaiting = true
  | _ => True

/-- The main thread waits although the response to its request has been processed. -/
def CallingStuck (s : Calling) : Prop :=
  s.side.caller.isWaiting = true ∧ s.answered = true

/-! ### The serving side -/

inductive ServingAct
  | setMaster (b : Bool)
  /-- A step of the main thread. -/
  | main
  /-- A step of the data-bus thread. -/
  | data (uninit : DataBusReq) (arrives : Option DataBusReq)
  deriving DecidableEq, Repr

section Serving

variable {σ : Type} (isAddrInternal : Option (Addr → Bool)) (perform : σ → Xfer → σ × Xfer)

def servingStep (a : ServingAct) (s : ServerSide σ) : ServerSide σ :=
  match a with
  | .setMaster b => { s with node := { s.node with isMaster := b } }
  | .main => s.main false perform
  | .data uninit arrives => (s.data false isAddrInternal uninit arrives).1

def initServing (dev : σ) : ServerSide σ := ⟨initNode false, .loop, dev⟩

/-- A signal on `cond_perma_slave` or `cond_slave_data` is given while the
    thread it is meant for waits. -/
def ServingHeard (s : ServerSide σ) (a : ServingAct) : Prop :=
  match a with
  | .data _ _ => s.node.signals = some .permaSlave → s.server = .waiting
  | .main => s.server = .replied → s.node.waitsSlave = true
  | .setMaster _ => True

/-- Both threads wait for each other. -/
def ServingStuck (s : ServerSide σ) : Prop :=
  s.server = .waiting ∧ s.node.waitsSlave = true

end Serving

/-! ### Calls end -/

/-- While the thread expects no response no request is about, and while it
    expects one the response has not been processed. -/
structure CallingInv (s : Calling) : Prop where
  owed : Owed s.side.node
  settled : s.side.caller.isPending = false → Settled s.side.node
  unanswered : s.side.caller.isPending = true → s.answered = false

section Calling

variable {s : Calling}

theorem settled_initNode (isMaster : Bool) : Settled (initNode isMaster) := by
  constructor <;> simp [initNode, initXfer, initDataState, DataOp.isRequest]

theorem callingInv_init (isMaster : Bool) : CallingInv (initCalling isMaster) where
  owed := (settled_initNode isMaster).owed
  settled _ := settled_initNode isMaster
  unanswered _ := rfl

/-- Posting a request, from a node without any. -/
theorem owed_post {nd : Node} (h : Settled nd) (call : Call) :
    Owed { nd with master := call.post nd.master } where
  master _ := ⟨h.buffer, h.issued⟩
  buffer hb := absurd h.buffer hb
  store event he := absurd he (h.store event)
  wake data hd := absurd hd (h.wake data)

/-- Collecting a result leaves no request. -/
theorem settled_collect {nd : Node} (h : Settled nd) (call : Call) :
    Settled { nd with master := (call.collect nd.master).1 } where
  master := rfl
  buffer := h.buffer
  issued := h.issued
  store := h.store
  wake := h.wake

theorem CallingInv.setMaster (h : CallingInv s) (b : Bool) :
    CallingInv (callingStep (.setMaster b) s) where
  owed := ⟨h.owed.master, h.owed.buffer, h.owed.store, h.owed.wake⟩
  settled hp :=
    have hs := h.settled hp
    ⟨hs.master, hs.buffer, hs.issued, hs.store, hs.wake⟩
  unanswered := h.unanswered

theorem CallingInv.main (h : CallingInv s) (next : Call) :
    CallingInv (callingStep (.main next) s) := by
  obtain ⟨⟨node, caller⟩, answered⟩ := s
  cases caller with
  | idle => exact ⟨owed_post (h.settled rfl) next, nofun, fun _ => rfl⟩
  | posted call => exact ⟨h.owed, nofun, fun _ => h.unanswered rfl⟩
  | waiting call => exact h
  | woken call =>
    have hsettled := settled_collect (h.settled rfl) call
    exact ⟨hsettled.owed, fun _ => hsettled, nofun⟩

theorem CallingInv.data (h : CallingInv s) (uninit : DataBusReq) (arrives : Option DataBusReq)
    (hheard : CallingHeard s (.data uninit arrives)) :
    CallingInv (callingStep (.data uninit arrives) s) := by
  obtain ⟨⟨node, caller⟩, answered⟩ := s
  have howed := h.owed.advance none uninit arrives
  by_cases hsig : node.signals = some .masterData
  · -- The signal finds the thread waiting, and it has its result.
    have hwait : caller.isWaiting = true := hheard hsig
    have hsettled := h.owed.settled_of_signal none uninit arrives hsig
    cases caller with
    | waiting call =>
      simp only [callingStep, CallerSide.data, advance_signal, hsig, if_true, CallerPc.signal]
      exact ⟨howed, fun _ => hsettled, nofun⟩
    | idle | posted _ | woken _ => cases hwait
  · simp only [callingStep, CallerSide.data, advance_signal, hsig, if_false, decide_false,
      Bool.or_false]
    exact ⟨howed, fun hp => (h.settled hp).advance none uninit arrives, h.unanswered⟩

theorem callingInv_step (s : Calling) (a : CallingAct) (h : CallingInv s)
    (hheard : CallingHeard s a) : CallingInv (callingStep a s) := by
  cases a with
  | setMaster b => exact h.setMaster b
  | main next => exact h.main next
  | data uninit arrives => exact h.data uninit arrives hheard

theorem CallingInv.not_stuck (s : Calling) (h : CallingInv s) : ¬ CallingStuck s := by
  rintro ⟨hwait, hanswered⟩
  have hpending : s.side.caller.isPending = true := by
    cases hc : s.side.caller <;> rw [hc] at hwait <;> first | rfl | cases hwait
  rw [h.unanswered hpending] at hanswered
  cases hanswered

/-- A signal that is not heard comes between the post and the wait, and the
    wait that follows does not end. -/
theorem CallingInv.stuck_of_unheard (s : Calling) (a : CallingAct) (h : CallingInv s)
    (hheard : ¬ CallingHeard s a) : ∃ bs, RunMeets callingStep CallingHeard bs (callingStep a s) ∧
      CallingStuck (runActs callingStep bs (callingStep a s)) := by
  obtain ⟨⟨node, caller⟩, answered⟩ := s
  cases a with
  | setMaster b => exact absurd trivial hheard
  | main next => exact absurd trivial hheard
  | data uninit arrives =>
    obtain ⟨hsig, hwait⟩ := Classical.not_imp.mp hheard
    change node.signals = some .masterData at hsig
    obtain ⟨data, hpc⟩ := Node.pc_of_signals_masterData hsig
    cases caller with
    | posted call =>
      refine ⟨[.main call], ⟨trivial, trivial⟩, ?_⟩
      simp [runActs, callingStep, CallerSide.data, CallerSide.main, advance_signal, hsig,
        CallerPc.signal, CallingStuck, CallerPc.isWaiting]
    | waiting call => exact absurd rfl hwait
    | idle => exact absurd hpc ((h.settled rfl).wake data)
    | woken call => exact absurd hpc ((h.settled rfl).wake data)

end Calling

/-! ### Requests are served -/

/-- The main thread is busy exactly while the data-bus thread is in
    `slave_wait`, and it is woken for a request only. -/
structure ServingInv {σ : Type} (s : ServerSide σ) : Prop where
  settled : Settled s.node
  busy : s.server.isBusy = s.node.inSlaveWait
  block : s.node.signals = some .permaSlave ∨ s.server = .woken → s.node.slave.op.isBlock = true

section Serving

variable {σ : Type} {s : ServerSide σ} (f : Option (Addr → Bool)) (perform : σ → Xfer → σ × Xfer)

theorem servingInv_init (dev : σ) : ServingInv (initServing dev) where
  settled := settled_initNode false
  busy := rfl
  block h := by rcases h with h | h <;> cases h

/-- A main thread with nothing to do, and a data-bus thread outside `slave_wait`. -/
theorem servingInv_of_free {node : Node} {server : ServerPc} {dev : σ} (hs : Settled node)
    (hfree : server.isBusy = false) (hin : node.inSlaveWait = false)
    (hblock : node.signals = some .permaSlave → node.slave.op.isBlock = true) :
    ServingInv ⟨node, server, dev⟩ where
  settled := hs
  busy := hfree.trans hin.symm
  block h := by
    rcases h with hsig | rfl
    · exact hblock hsig
    · cases hfree

theorem ServingInv.setMaster (h : ServingInv s) (b : Bool) :
    ServingInv (servingStep f perform (.setMaster b) s) where
  settled := ⟨h.settled.master, h.settled.buffer, h.settled.issued, h.settled.store,
    h.settled.wake⟩
  busy := h.busy
  block := h.block

theorem ServingInv.main (h : ServingInv s) (hheard : ServingHeard s .main) :
    ServingInv (servingStep f perform .main s) := by
  obtain ⟨node, server, dev⟩ := s
  obtain ⟨hsettled, hbusy, hblock⟩ := h
  have hslave (slave : Xfer) : Settled { node with slave := slave } :=
    ⟨hsettled.master, hsettled.buffer, hsettled.issued, hsettled.store, hsettled.wake⟩
  cases server with
  | loop => exact ⟨hsettled, hbusy, fun hc => hblock (hc.imp_right nofun)⟩
  | waiting => exact ⟨hsettled, hbusy, hblock⟩
  | woken =>
    -- The mailbox holds what the data-bus thread posted, so the request is performed.
    have hop : node.slave.op.isBlock = true := hblock (.inr rfl)
    have hstep : servingStep f perform .main ⟨node, .woken, dev⟩
        = ⟨node, .performed (perform dev node.slave).2, (perform dev node.slave).1⟩ := by
      simp only [servingStep, ServerSide.main, dataBusCheck]
      cases hcase : node.slave.op <;> first | rfl | (rw [hcase] at hop; cases hop)
    rw [hstep]
    exact ⟨hsettled, hbusy, fun hc => hblock (hc.imp_right nofun)⟩
  | performed req =>
    refine ⟨hslave (dataBusReply req), hbusy, ?_⟩
    rintro (hsig | hw)
    · have hnone : node.signals = none := Node.signals_of_inSlaveWait hbusy.symm
      exact absurd (hnone.symm.trans hsig) nofun
    · cases hw
  | replied =>
    obtain ⟨event, hpc⟩ := Node.pc_of_waitsSlave (hheard rfl)
    change node.pc = .waiting event at hpc
    have hstep : servingStep f perform .main ⟨node, .replied, dev⟩
        = ⟨{ node with pc := .answer event }, .loop, dev⟩ := by
      simp only [servingStep, ServerSide.main, Node.signalSlave, hpc]
    rw [hstep]
    refine ⟨⟨hsettled.master, hsettled.buffer, hsettled.issued, nofun, nofun⟩, rfl, ?_⟩
    rintro (hsig | hw)
    · cases hsig
    · cases hw

theorem ServingInv.data (h : ServingInv s) (uninit : DataBusReq) (arrives : Option DataBusReq)
    (hheard : ServingHeard s (.data uninit arrives)) :
    ServingInv (servingStep f perform (.data uninit arrives) s) := by
  have hsettled := h.settled.advance f uninit arrives
  obtain ⟨node, server, dev⟩ := s
  obtain ⟨hs, hbusy, hblock⟩ := h
  simp only [servingStep, ServerSide.data, advance_signal]
  by_cases hsig : node.signals = some .permaSlave
  · -- The signal finds the main thread waiting, and the data-bus thread goes on to its wait.
    obtain ⟨event, hpc⟩ := Node.pc_of_signals_permaSlave hsig
    have hwait : server = .waiting := hheard hsig
    subst hwait
    have hnode : (node.advance f uninit arrives).node = { node with pc := .beginWait event } := by
      rw [Node.advance, hpc]
    rw [if_pos hsig]
    rw [hnode] at hsettled ⊢
    exact ⟨hsettled, rfl, fun _ => hblock (.inl hsig)⟩
  · rw [if_neg hsig]
    obtain ⟨isMaster, master, slave, data, pc⟩ := node
    cases pc with
    | head => exact ⟨hsettled, hbusy, hblock⟩
    | process isMaster' => cases isMaster' <;> exact ⟨hsettled, hbusy, hblock⟩
    | check isMaster' =>
      have hcheck : (⟨isMaster, master, slave, data, .check isMaster'⟩ : Node).pc
          = .check isMaster' := rfl
      obtain ⟨pc, hnode, hpc⟩ := advance_check f uninit arrives hcheck
      rw [hnode] at hsettled ⊢
      rcases hpc with rfl | ⟨event, rfl⟩ | ⟨event, rfl⟩ <;>
        exact servingInv_of_free hsettled hbusy rfl nofun
    | store event => exact absurd rfl (hs.store event)
    | wakeMaster data' => exact absurd rfl (hs.wake data')
    | post event =>
      have hpost : (⟨isMaster, master, slave, data, .post event⟩ : Node).pc = .post event := rfl
      obtain hnode | ⟨slave', hop, hnode⟩ := advance_post f uninit arrives hpost <;>
        rw [hnode] at hsettled ⊢
      · exact servingInv_of_free hsettled hbusy rfl nofun
      · exact servingInv_of_free hsettled hbusy rfl fun _ => hop
    | wakeSlave event => exact absurd rfl hsig
    | beginWait event => exact ⟨hsettled, hbusy, hblock⟩
    | waiting event => exact ⟨hsettled, hbusy, hblock⟩
    | answer event => exact servingInv_of_free hsettled hbusy rfl nofun

theorem servingInv_step (s : ServerSide σ) (a : ServingAct) (h : ServingInv s)
    (hheard : ServingHeard s a) : ServingInv (servingStep f perform a s) := by
  cases a with
  | setMaster b => exact h.setMaster f perform b
  | main => exact h.main f perform hheard
  | data uninit arrives => exact h.data f perform uninit arrives hheard

theorem ServingInv.not_stuck (s : ServerSide σ) (h : ServingInv s) : ¬ ServingStuck s := by
  rintro ⟨hserver, hwait⟩
  obtain ⟨event, hpc⟩ := Node.pc_of_waitsSlave hwait
  have hbusy := h.busy
  rw [hserver, Node.inSlaveWait, hpc] at hbusy
  cases hbusy

/-- The data-bus thread about to wait, the main thread back in its loop: both
    waits begin. -/
theorem stuck_of_beginWait {node : Node} {event : DataBusReq} (dev : σ)
    (hpc : node.pc = .beginWait event) :
    ∃ bs, RunMeets (servingStep f perform) ServingHeard bs ⟨node, .loop, dev⟩ ∧
      ServingStuck (runActs (servingStep f perform) bs ⟨node, .loop, dev⟩) := by
  obtain ⟨isMaster, master, slave, data, pc⟩ := node
  obtain rfl : pc = .beginWait event := hpc
  refine ⟨[.data ⟨.req, .empty, 0, 0⟩ none, .main], ⟨nofun, nofun, trivial⟩, rfl, rfl⟩

/-- A signal that is not heard, on either condition, leaves both threads to wait. -/
theorem ServingInv.stuck_of_unheard (s : ServerSide σ) (a : ServingAct) (h : ServingInv s)
    (hheard : ¬ ServingHeard s a) :
    ∃ bs, RunMeets (servingStep f perform) ServingHeard bs (servingStep f perform a s) ∧
      ServingStuck (runActs (servingStep f perform) bs (servingStep f perform a s)) := by
  obtain ⟨⟨isMaster, master, slave, data, pc⟩, server, dev⟩ := s
  cases a with
  | setMaster b => exact absurd trivial hheard
  | main =>
    -- The reply's signal comes between the two halves of `slave_wait`.
    obtain ⟨hserver, hwait⟩ := Classical.not_imp.mp hheard
    obtain rfl : server = .replied := hserver
    have hin := h.busy
    cases pc with
    | beginWait event => exact stuck_of_beginWait f perform dev rfl
    | waiting event => exact absurd rfl hwait
    | head | process _ | check _ | store _ | wakeMaster _ | post _ | wakeSlave _ | answer _ =>
      cases hin
  | data uninit arrives =>
    -- The request's signal comes before the main thread is back at its wait.
    obtain ⟨hsig, hwait⟩ := Classical.not_imp.mp hheard
    obtain ⟨event, hpc⟩ := Node.pc_of_signals_permaSlave hsig
    obtain rfl : pc = .wakeSlave event := hpc
    have hfree : server.isBusy = false := h.busy
    cases server with
    | loop => exact stuck_of_beginWait f perform dev rfl
    | waiting => exact absurd rfl hwait
    | woken | performed _ | replied => cases hfree

end Serving

/-! ### Deadlock -/

/-- A run stays clear of the deadlock exactly if every signal in it finds its
    thread waiting, on the calling side and on the serving side. -/
theorem noDeadlock_iff {σ : Type} (isMaster : Bool) (f : Option (Addr → Bool))
    (perform : σ → Xfer → σ × Xfer) (dev : σ) (as : List CallingAct) (bs : List ServingAct) :
    (RunMeets callingStep CallingHeard as (initCalling isMaster) ↔
      StaysClear callingStep CallingHeard CallingStuck as (initCalling isMaster)) ∧
    (RunMeets (servingStep f perform) ServingHeard bs (initServing dev) ↔
      StaysClear (servingStep f perform) ServingHeard ServingStuck bs (initServing dev)) := by
  constructor
  · exact runMeets_iff_staysClear callingInv_step CallingInv.not_stuck
      CallingInv.stuck_of_unheard as _ (callingInv_init isMaster)
  · exact runMeets_iff_staysClear (servingInv_step f perform) ServingInv.not_stuck
      (ServingInv.stuck_of_unheard f perform) bs _ (servingInv_init dev)

/-- The cpu posts a read; its data-bus thread sends it, takes the response and
    signals before the cpu begins to wait. -/
def earlyResponse : List CallingAct :=
  let uninit : DataBusReq := ⟨.req, .empty, 0, 0⟩
  [.main (.readDataIn 0o1000), .data uninit none, .data uninit none,
   .data uninit (some ⟨.resp, .dati, 0o1000, 5⟩), .data uninit none, .data uninit none,
   .main (.readDataIn 0o1000)]

/-- The first request reaches mem before its main thread has begun to wait. -/
def earlyRequest : List ServingAct :=
  let uninit : DataBusReq := ⟨.req, .empty, 0, 0⟩
  [.data uninit none, .data uninit none, .data uninit (some ⟨.req, .dati, 0o1000, 0⟩),
   .data uninit none, .data uninit none, .data uninit none, .main]

/-- Both sides can lock up. -/
theorem early_signals_stuck :
    CallingStuck (runActs callingStep earlyResponse (initCalling true)) ∧
    ServingStuck (runActs (servingStep (some Mem.isLocalAddr) Mem.perform) earlyRequest
      (initServing ⟨0, 0, fun _ => 0⟩)) := by
  refine ⟨⟨by decide, by decide⟩, rfl, rfl⟩

end XMachine.Unibus.WakeUp
