import Mathlib.Tactic.Common

namespace XMachine.Unibus

/-!
# Priority bus — one device's `priority_bus_mgr`

The part of the bus a device's own thread runs: requesting the bus, passing on
what the neighbours send, acknowledging a grant, taking the bus and giving it
back.  Every send succeeds here, so a handler is a function from the device's
state to its new state and the datagrams it sends.

Nodes are numbered along the chain and a number stands for the node's socket
path.  A neighbour that does not exist is `none`; its descriptor is `-1` in the
source.
-/

/-- `pr_signal_t`. -/
inductive Signal
  | br | bg | npr | npg | sack | bbsy
  deriving DecidableEq, Repr

/-- `assert_t`. -/
abbrev ASSERTED : Bool := true
abbrev NEGATED : Bool := false

/-- `pr_bus_req_t`; `fromNode` is the source's `from`. -/
structure PrReq where
  fromNode : ℕ
  sig : Signal
  assertion : Bool
  deriving DecidableEq, Repr

/-- The three addresses of a `pr_state`: `pr_out_addr_l`, `pr_in_addr`, `pr_out_addr_r`. -/
structure Wiring where
  left : Option ℕ
  self : ℕ
  right : Option ℕ

/-- The flags of a device: those of its `pr_state`, and those of its `bus_state`
    that the device's main thread shares with the bus thread. -/
structure Device where
  nprIssued : Bool
  brIssued : Bool
  sackAsserted : Bool
  bbsyAsserted : Bool
  isMaster : Bool
  reqMaster : Bool
  relMaster : Bool
  deriving DecidableEq, Repr

/-- The state `init_pr_state` and `init_bus` leave. -/
def initDevice : Device where
  nprIssued := false
  brIssued := false
  sackAsserted := false
  bbsyAsserted := false
  isMaster := false
  reqMaster := false
  relMaster := false

/-- Datagrams on their way, each with the node it is sent to. -/
abbrev Outbox := List (ℕ × PrReq)

/-! ### Sending -/

inductive Direction
  | left | right | none
  deriving DecidableEq, Repr

def getFdDirection (w : Wiring) (req : PrReq) (reply : Bool) : Direction :=
  match w.left, w.right with
  | none, none => .none
  | none, some _ => if reply then .right else .none
  | some _, none => if reply then .left else .none
  | some l, some _ =>
    if req.fromNode = l then (if reply then .left else .right)
    else (if reply then .right else .left)

/-- Connect in the given direction, write, close. -/
def write (w : Wiring) (dir : Direction) (req : PrReq) : Outbox :=
  match dir with
  | .left => (w.left.map fun l => (l, req)).toList
  | .right => (w.right.map fun r => (r, req)).toList
  | .none => []

def updateFromAddr (w : Wiring) (req : PrReq) : PrReq := { req with fromNode := w.self }

/-- Pass a message on, away from the node it came from. -/
def pass (w : Wiring) (req : PrReq) : Outbox :=
  write w (getFdDirection w req false) (updateFromAddr w req)

/-- Send a line of one's own to both sides, left first. -/
def broadcast (w : Wiring) (sig : Signal) (assertion : Bool) : Outbox :=
  write w .left ⟨w.self, sig, assertion⟩ ++ write w .right ⟨w.self, sig, assertion⟩

/-! ### The device's own lines -/

def assertBr (w : Wiring) (d : Device) : Device × Outbox :=
  if d.bbsyAsserted && !d.brIssued then (d, [])
  else ({ d with brIssued := true }, broadcast w .br ASSERTED)

def assertBbsy (w : Wiring) (d : Device) : Device × Outbox :=
  if d.bbsyAsserted then (d, [])
  else ({ d with bbsyAsserted := true, isMaster := true, reqMaster := false },
    broadcast w .bbsy ASSERTED)

def negateSack (w : Wiring) (d : Device) : Device × Outbox :=
  if !d.sackAsserted then (d, [])
  else ({ d with sackAsserted := false, isMaster := false, reqMaster := false },
    broadcast w .sack NEGATED)

def negateBbsy (w : Wiring) (d : Device) : Device × Outbox :=
  if !d.bbsyAsserted then (d, [])
  else ({ d with bbsyAsserted := false, isMaster := false, reqMaster := false, relMaster := false },
    broadcast w .bbsy NEGATED)

def requestMaster (w : Wiring) (d : Device) : Device × Outbox :=
  if d.bbsyAsserted then (d, [])
  else
    let br := assertBr w d
    ({ br.1 with reqMaster := false }, br.2)

def releaseMaster (w : Wiring) (d : Device) : Device × Outbox :=
  let sack := negateSack w d
  let bbsy := negateBbsy w sack.1
  (bbsy.1, sack.2 ++ bbsy.2)

/-! ### Handlers -/

def handleBr (w : Wiring) (d : Device) (req : PrReq) : Device × Outbox := (d, pass w req)

def handleNpr (w : Wiring) (d : Device) (req : PrReq) : Device × Outbox := (d, pass w req)

def handleSack (w : Wiring) (d : Device) (req : PrReq) : Device × Outbox := (d, pass w req)

def handleBbsy (w : Wiring) (d : Device) (req : PrReq) : Device × Outbox :=
  ({ d with bbsyAsserted := req.assertion }, pass w req)

def handleBg (w : Wiring) (d : Device) (req : PrReq) : Device × Outbox :=
  if d.brIssued && req.assertion then
    -- our own request: block the grant and acknowledge it
    match getFdDirection w req true with
    | .none => (d, [])
    | dir => ({ d with brIssued := false, sackAsserted := true },
        write w dir (updateFromAddr w ⟨w.self, .sack, ASSERTED⟩))
  else if d.sackAsserted && !req.assertion then assertBbsy w d
  else (d, pass w req)

/-- Unlike `handle_bg` this does not look at the assertion. -/
def handleNpg (w : Wiring) (d : Device) (req : PrReq) : Device × Outbox :=
  if d.nprIssued then
    match getFdDirection w req true with
    | .none => (d, [])
    | dir => ({ d with nprIssued := false, sackAsserted := true },
        write w dir (updateFromAddr w ⟨w.self, .sack, ASSERTED⟩))
  else (d, pass w req)

/-- One datagram taken from the device's own socket. -/
def processPrEvents (w : Wiring) (d : Device) (req : PrReq) : Device × Outbox :=
  match req.sig with
  | .br => handleBr w d req
  | .bg => handleBg w d req
  | .npr => handleNpr w d req
  | .npg => handleNpg w d req
  | .sack => handleSack w d req
  | .bbsy => handleBbsy w d req

/-- The first half of a turn of `priority_bus_mgr`: what the main thread asked for. -/
def pollFlags (w : Wiring) (d : Device) : Device × Outbox :=
  if d.reqMaster && !d.isMaster then requestMaster w d
  else if d.relMaster && d.isMaster then releaseMaster w d
  else (d, [])

end XMachine.Unibus
