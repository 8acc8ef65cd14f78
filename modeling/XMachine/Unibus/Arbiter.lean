import XMachine.Unibus.PriorityBus

namespace XMachine.Unibus

/-!
# Arbiter — the CPU node's side of the priority bus

The lines `listen_priority` keeps and what it does with each message.  A grant
is returned as the line and its level; to whom it goes is left to the system.
-/

/-- The lines of `arb_state`. -/
structure ArbState where
  sack : Bool
  bbsy : Bool
  outstandingBg : Bool
  outstandingNpg : Bool
  deriving DecidableEq, Repr

def initArb : ArbState where
  sack := NEGATED
  bbsy := NEGATED
  outstandingBg := false
  outstandingNpg := false

/-- A grant line driven by the arbiter. -/
abbrev Grant := Signal × Bool

def assertBusGrant (a : ArbState) : ArbState × Option Grant :=
  if a.sack then (a, none) else ({ a with outstandingBg := true }, some (.bg, ASSERTED))

def negateBusGrant (a : ArbState) : ArbState × Option Grant :=
  ({ a with outstandingBg := false }, some (.bg, NEGATED))

def assertNpGrant (a : ArbState) : ArbState × Option Grant :=
  if a.sack then (a, none) else ({ a with outstandingNpg := true }, some (.npg, ASSERTED))

def negateNpGrant (a : ArbState) : ArbState × Option Grant :=
  ({ a with outstandingNpg := false }, some (.npg, NEGATED))

def arbHandleSack (a : ArbState) (req : PrReq) : ArbState × Option Grant :=
  if !a.sack && req.assertion then
    let a := { a with sack := req.assertion }
    if a.outstandingBg then negateBusGrant a
    else if a.outstandingNpg then negateNpGrant a
    else (a, none)
  else if a.sack && !req.assertion then ({ a with sack := req.assertion }, none)
  else (a, none)

def arbHandleBbsy (a : ArbState) (req : PrReq) : ArbState × Option Grant :=
  if a.bbsy && !req.assertion then ({ a with bbsy := NEGATED }, none)
  else if !a.bbsy && req.assertion then ({ a with bbsy := ASSERTED }, none)
  else (a, none)

/-- One message taken by `listen_priority`. -/
def listenPriority (a : ArbState) (req : PrReq) : ArbState × Option Grant :=
  match req.sig with
  | .br => assertBusGrant a
  | .npr => assertNpGrant a
  | .sack => arbHandleSack a req
  | .bbsy => arbHandleBbsy a req
  | _ => (a, none)

end XMachine.Unibus
