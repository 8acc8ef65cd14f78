import XMachine.Lib.Mailboxes
import XMachine.Lib.Simulation
import XMachine.Unibus.Arbiter

namespace XMachine.Unibus

open XMachine.Lib

/-!
# Chain — the arbiter and its devices

Node `0` is the CPU node with the arbiter, nodes `1` to `n` are the devices,
each wired to its two neighbours; the last one has no right neighbour.  Every
node has one inbound queue, every send is appended to the receiver's queue, and
each action runs one handler to its end.

A grant goes to the device next to the arbiter and carries the arbiter's path,
so that the device finds it came from the left.
-/

/-- The CPU node, the devices, and all datagrams in flight. -/
structure System where
  arb : ArbState
  /-- `is_master` in the CPU's own `bus_state`. -/
  cpuMaster : Bool
  dev : ℕ → Device
  queue : Mailboxes PrReq

/-- After `connect_cpu_bus` and every device's `connect_device_bus`. -/
def initSystem : System where
  arb := initArb
  cpuMaster := true
  dev _ := initDevice
  queue _ := []

/-- What can happen next. -/
inductive Act
  /-- The main thread of device `i` writes `req_master`. -/
  | setReq (i : ℕ) (b : Bool)
  /-- The main thread of device `i` writes `rel_master`. -/
  | setRel (i : ℕ) (b : Bool)
  /-- Device `i` looks at the flags of its main thread. -/
  | poll (i : ℕ)
  /-- Device `i` takes the `k`-th datagram of its queue. -/
  | event (i k : ℕ)
  /-- The arbiter takes the `k`-th datagram of its queue. -/
  | arb (k : ℕ)
  deriving DecidableEq, Repr

/-- Nodes take the datagrams of their queue in order. -/
def Act.Fifo : Act → Prop
  | .event _ k => k = 0
  | .arb k => k = 0
  | _ => True

instance : DecidablePred Act.Fifo := fun a => by
  cases a <;> unfold Act.Fifo <;> infer_instance

/-- The neighbours of device `i`. -/
def wiring (n i : ℕ) : Wiring where
  left := some (i - 1)
  self := i
  right := if i < n then some (i + 1) else none

/-- Put a grant into the queue of the device next to the arbiter. -/
def deliverGrant (q : Mailboxes PrReq) : Option Grant → Mailboxes PrReq
  | none => q
  | some (sig, assertion) => q.push 1 ⟨0, sig, assertion⟩

namespace System

def setDev (s : System) (i : ℕ) (d : Device) : System :=
  { s with dev := Function.update s.dev i d }

/-- The result of a handler of device `i`: its new state, and its sends. -/
def post (s : System) (i : ℕ) (r : Device × Outbox) : System :=
  { s.setDev i r.1 with queue := s.queue.pushAll r.2 }

variable (s : System) (i j : ℕ) (d : Device) (r : Device × Outbox)

@[simp] theorem setDev_arb : (s.setDev i d).arb = s.arb := rfl
@[simp] theorem setDev_queue : (s.setDev i d).queue = s.queue := rfl
@[simp] theorem setDev_cpuMaster : (s.setDev i d).cpuMaster = s.cpuMaster := rfl
@[simp] theorem setDev_dev : (s.setDev i d).dev = Function.update s.dev i d := rfl
@[simp] theorem post_arb : (s.post i r).arb = s.arb := rfl
@[simp] theorem post_queue : (s.post i r).queue = s.queue.pushAll r.2 := rfl
@[simp] theorem post_cpuMaster : (s.post i r).cpuMaster = s.cpuMaster := rfl
@[simp] theorem post_dev : (s.post i r).dev = Function.update s.dev i r.1 := rfl

end System

/-- One step of the chain with `n` devices.  An action of a node that is not
    there, or on an empty queue, does nothing. -/
def step (n : ℕ) (a : Act) (s : System) : System :=
  match a with
  | .setReq i b => s.setDev i { s.dev i with reqMaster := b }
  | .setRel i b => s.setDev i { s.dev i with relMaster := b }
  | .poll i => if 1 ≤ i ∧ i ≤ n then s.post i (pollFlags (wiring n i) (s.dev i)) else s
  | .event i k =>
    if 1 ≤ i ∧ i ≤ n then
      match (s.queue i)[k]? with
      | none => s
      | some req =>
        { s with queue := s.queue.take i k }.post i (processPrEvents (wiring n i) (s.dev i) req)
    else s
  | .arb k =>
    match (s.queue 0)[k]? with
    | none => s
    | some req =>
      let r := listenPriority s.arb req
      { s with arb := r.1, queue := deliverGrant (s.queue.take 0 k) r.2 }

/-- The states of the chain reached by the actions `as`. -/
def reach (n : ℕ) (as : List Act) : System := runActs (step n) as initSystem

/-! ### Directions in the chain -/

section

variable {n i : ℕ} {req : PrReq}

/-- What came from the left goes on to the right. -/
theorem pass_right (hn : i < n) (hfrom : req.fromNode = i - 1) :
    pass (wiring n i) req = [(i + 1, ⟨i, req.sig, req.assertion⟩)] := by
  simp [pass, getFdDirection, wiring, hn, hfrom, write, updateFromAddr]

/-- What did not come from the left goes on to the left. -/
theorem pass_left (hn : i < n) (hfrom : req.fromNode ≠ i - 1) :
    pass (wiring n i) req = [(i - 1, ⟨i, req.sig, req.assertion⟩)] := by
  simp [pass, getFdDirection, wiring, hn, hfrom, write, updateFromAddr]

/-- The last device has nobody to pass to. -/
theorem pass_last (hn : ¬ i < n) : pass (wiring n i) req = [] := by
  simp [pass, getFdDirection, wiring, hn, write]

theorem broadcast_wiring (n i : ℕ) (sig : Signal) (b : Bool) :
    broadcast (wiring n i) sig b
      = (i - 1, ⟨i, sig, b⟩) :: if i < n then [(i + 1, ⟨i, sig, b⟩)] else [] := by
  by_cases hn : i < n <;> simp [broadcast, write, wiring, hn]

/-- A reply to the left neighbour goes to the left. -/
theorem getFdDirection_reply (hfrom : req.fromNode = i - 1) :
    getFdDirection (wiring n i) req true = .left := by
  by_cases hn : i < n <;> simp [getFdDirection, wiring, hn, hfrom]

/-- A reply is always possible. -/
theorem getFdDirection_reply_ne_none : getFdDirection (wiring n i) req true ≠ .none := by
  by_cases hn : i < n <;> by_cases hfrom : req.fromNode = i - 1 <;>
    simp [getFdDirection, wiring, hn, hfrom]

end

/-! ### What a step can do -/

section

variable {n : ℕ} {s : System}

/-- The datagrams of a handler go to the neighbours of its node. -/
theorem mem_write {w : Wiring} {dir : Direction} {req : PrReq} {e : ℕ × PrReq}
    (h : e ∈ write w dir req) :
    e.2 = req ∧ (dir = .left ∧ w.left = some e.1 ∨ dir = .right ∧ w.right = some e.1) := by
  cases dir with
  | left =>
    obtain ⟨l, hl, rfl⟩ := Option.map_eq_some_iff.mp (Option.mem_toList.mp h)
    exact ⟨rfl, .inl ⟨rfl, hl⟩⟩
  | right =>
    obtain ⟨r, hr, rfl⟩ := Option.map_eq_some_iff.mp (Option.mem_toList.mp h)
    exact ⟨rfl, .inr ⟨rfl, hr⟩⟩
  | none => cases h

/-- Every action leaves the chain alone or is one of four things: a flag
    written, the flags polled, a datagram handled by a device, or by the arbiter. -/
theorem step_cases (n : ℕ) (a : Act) (s : System) :
    step n a s = s ∨
    (∃ i d, step n a s = s.setDev i d ∧ d.nprIssued = (s.dev i).nprIssued ∧
      d.brIssued = (s.dev i).brIssued ∧ d.sackAsserted = (s.dev i).sackAsserted ∧
      d.bbsyAsserted = (s.dev i).bbsyAsserted ∧ d.isMaster = (s.dev i).isMaster) ∨
    (∃ i, 1 ≤ i ∧ i ≤ n ∧ step n a s = s.post i (pollFlags (wiring n i) (s.dev i))) ∨
    (∃ i k req, a = .event i k ∧ 1 ≤ i ∧ i ≤ n ∧ (s.queue i)[k]? = some req ∧ step n a s
      = { s with queue := s.queue.take i k }.post i
          (processPrEvents (wiring n i) (s.dev i) req)) ∨
    (∃ k req, a = .arb k ∧ (s.queue 0)[k]? = some req ∧ step n a s
      = { s with arb := (listenPriority s.arb req).1, queue :=
            deliverGrant (s.queue.take 0 k) (listenPriority s.arb req).2 }) := by
  cases a with
  | setReq i b => exact .inr (.inl ⟨i, _, rfl, rfl, rfl, rfl, rfl, rfl⟩)
  | setRel i b => exact .inr (.inl ⟨i, _, rfl, rfl, rfl, rfl, rfl, rfl⟩)
  | poll i =>
    by_cases hi : 1 ≤ i ∧ i ≤ n
    · exact .inr (.inr (.inl ⟨i, hi.1, hi.2, if_pos hi⟩))
    · exact .inl (if_neg hi)
  | event i k =>
    by_cases hi : 1 ≤ i ∧ i ≤ n
    · cases hreq : (s.queue i)[k]? with
      | none => exact .inl (by simp only [step, if_pos hi, hreq])
      | some req =>
        refine .inr (.inr (.inr (.inl ⟨i, k, req, rfl, hi.1, hi.2, hreq, ?_⟩)))
        simp only [step, if_pos hi, hreq]
    · exact .inl (if_neg hi)
  | arb k =>
    cases hreq : (s.queue 0)[k]? with
    | none => exact .inl (by simp only [step, hreq])
    | some req =>
      refine .inr (.inr (.inr (.inr ⟨k, req, rfl, hreq, ?_⟩)))
      simp only [step, hreq]

end

end XMachine.Unibus
