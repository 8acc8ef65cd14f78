import XMachine.Cpu.Machine

namespace XMachine.Unibus

open XMachine.Cpu

/-!
# Bus state — the mailboxes between a device and its bus threads

`data_op` and `data_xfer_spec`; the functions with which a device's main thread
posts a request in its master mailbox and collects the result; and the two with
which a device looks at the request in its slave mailbox and answers it.
-/

/-- `data_op`. -/
inductive DataOp
  | rIn | rInb | rOut | rOutb
  | rBlockIn | rBlockInb | rBlockOut | rBlockOutb
  | rDone | rNone
  deriving DecidableEq, Repr

/-- The operations `data_bus_mgr` takes from the master mailbox. -/
def DataOp.isRequest : DataOp → Bool
  | .rIn | .rInb | .rOut | .rOutb => true
  | _ => false

/-- The operations `handle_req` posts in the slave mailbox. -/
def DataOp.isBlock : DataOp → Bool
  | .rBlockIn | .rBlockOut | .rBlockOutb => true
  | _ => false

/-- `data_xfer_spec`. -/
structure Xfer where
  op : DataOp
  addr : Addr
  value : Word
  deriving DecidableEq, Repr

/-- What `init_bus` leaves in both mailboxes. -/
def initXfer : Xfer := ⟨.rNone, 0, 0⟩

/-! ### Master -/

/-- The calls of `read_data_in`, `write_data_out` and `write_data_out_b`. -/
inductive Call
  | readDataIn (addr : Addr)
  | writeDataOut (addr : Addr) (data : Word)
  | writeDataOutB (addr : Addr) (data : Byte)
  deriving DecidableEq, Repr

def Call.addr : Call → Addr
  | .readDataIn addr | .writeDataOut addr _ | .writeDataOutB addr _ => addr

/-- The first critical section: the request is posted.  A read leaves `value` as it was. -/
def Call.post (call : Call) (master : Xfer) : Xfer :=
  match call with
  | .readDataIn addr => ⟨.rIn, addr, master.value⟩
  | .writeDataOut addr data => ⟨.rOut, addr, data⟩
  | .writeDataOutB addr data => ⟨.rOutb, addr, data.setWidth 16⟩

/-- The last critical section: the mailbox is cleared; a read returns its value. -/
def Call.collect (call : Call) (master : Xfer) : Xfer × Option Word :=
  ({ master with op := .rNone },
    match call with
    | .readDataIn _ => some master.value
    | .writeDataOut _ _ | .writeDataOutB _ _ => none)

/-! ### Slave -/

/-- The request a device sees in its slave mailbox. -/
def dataBusCheck (slave : Xfer) : Xfer := slave

/-- The slave mailbox after the device's reply. -/
def dataBusReply (req : Xfer) : Xfer := { req with op := .rDone }

end XMachine.Unibus
