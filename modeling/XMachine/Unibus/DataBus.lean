import XMachine.Unibus.BusState

namespace XMachine.Unibus

open XMachine.Cpu

/-!
# Data bus — one device's `data_bus_mgr`

The pieces a turn of the data-bus thread is made of: taking the request from
the master mailbox, sending it, and what is done with a message received.  A
message is built in a local that is not cleared, so the fields a function does
not set are those of `uninit`, whatever they are.  The fields `from`, `msyn`
and `ssyn` are never looked at.
-/

/-- `data_bus_msg`. -/
inductive DataBusMsg
  | req | resp
  deriving DecidableEq, Repr

/-- `data_bus_signal`. -/
inductive DataBusSignal
  | dati | datip | dato | datob | empty
  deriving DecidableEq, Repr

/-- `data_bus_req`. -/
structure DataBusReq where
  msgType : DataBusMsg
  c : DataBusSignal
  addr : Addr
  data : Word
  deriving DecidableEq, Repr

/-- `data_state`. -/
structure DataState where
  buffer : Xfer
  reqIssued : Bool
  deriving DecidableEq, Repr

def initDataState : DataState := ⟨initXfer, false⟩

/-- What `data_bus_mgr` does with the master mailbox at the head of a turn. -/
def takeOp (master : Xfer) (d : DataState) : Xfer × DataState :=
  match master.op with
  | .rIn | .rInb =>
    ({ master with op := .rNone }, { d with buffer := ⟨master.op, master.addr, d.buffer.value⟩ })
  | .rOut | .rOutb => ({ master with op := .rNone }, { d with buffer := master })
  | .rDone | .rNone => (master, d)
  | _ => ({ master with op := .rNone }, d)

/-- The message of `in_word`. -/
def inWord (uninit : DataBusReq) (d : DataState) : DataBusReq :=
  { uninit with msgType := .req, c := .dati, addr := d.buffer.addr }

/-- The messages of `out_word` and `out_byte`. -/
def outData (c : DataBusSignal) (uninit : DataBusReq) (d : DataState) : DataBusReq :=
  { uninit with msgType := .req, c := c, addr := d.buffer.addr, data := d.buffer.value }

def outWord (uninit : DataBusReq) (d : DataState) : DataBusReq := outData .dato uninit d

def outByte (uninit : DataBusReq) (d : DataState) : DataBusReq := outData .datob uninit d

/-- The message `process_op` sends, if any, and the state after it. -/
def processOp (uninit : DataBusReq) (d : DataState) : DataState × Option DataBusReq :=
  let sent : DataState := { buffer := { d.buffer with op := .rNone }, reqIssued := true }
  match d.buffer.op with
  | .rIn => (sent, some (inWord uninit d))
  | .rOut => (sent, some (outWord uninit d))
  | .rOutb => (sent, some (outByte uninit d))
  | _ => ({ d with buffer := { d.buffer with op := .rNone } }, none)

/-- `handle_resp`: the master mailbox and the state after it.  `none` where it
    returns without a signal. -/
def handleResp (event : DataBusReq) (master : Xfer) (d : DataState) : Option (Xfer × DataState) :=
  match event.c with
  | .dati | .dato | .datob =>
    some ({ master with op := .rDone, value := event.data }, { d with reqIssued := false })
  | _ => none

/-- `examine_address`; without an address test nothing is the device's own. -/
def examineAddress (isAddrInternal : Option (Addr → Bool)) (event : DataBusReq) : Bool :=
  match isAddrInternal with
  | none => false
  | some f => f event.addr

/-- What `handle_req` puts into the slave mailbox before `slave_wait`. -/
def slavePost (event : DataBusReq) : Option Xfer :=
  match event.c with
  | .dati => some ⟨.rBlockIn, event.addr, 0⟩
  | .dato => some ⟨.rBlockOut, event.addr, event.data⟩
  | .datob => some ⟨.rBlockOutb, event.addr, event.data⟩
  | _ => none

/-- The response `handle_req` sends after `slave_wait`, and the slave mailbox it leaves. -/
def slaveAnswer (uninit : DataBusReq) (c : DataBusSignal) (slave : Xfer) : DataBusReq × Xfer :=
  if slave.op = .rDone then
    match c with
    | .dati => ({ uninit with msgType := .resp, c := c, data := slave.value }, initXfer)
    | .datob => ({ uninit with msgType := .resp, c := c, addr := 0, data := 0 }, initXfer)
    | _ => ({ uninit with msgType := .resp, c := c, data := 0 }, initXfer)
  else ({ uninit with msgType := .resp, c := c }, slave)

end XMachine.Unibus
