import XMachine.Mem.Memory
import XMachine.Unibus.BusState

namespace XMachine.Mem

open XMachine.Lib XMachine.Cpu XMachine.Unibus

/-!
# Memory — the requests `mem` serves

What `execute` does with a request taken from the slave mailbox.  An access
outside the store has no meaning in the source; here it leaves the request and
the device as they are.  Below the last byte the requests are those of an ideal
store: `perform_agrees`.
-/

def performRead (dev : MemDev) (req : Xfer) : Option Xfer :=
  (dev.readWord req.addr).map fun word => { req with value := word }

def performWrite (dev : MemDev) (req : Xfer) : Option MemDev := dev.writeWord req.addr req.value

def performWriteb (dev : MemDev) (req : Xfer) : Option MemDev := dev.writeByte req.addr req.value

/-- The switch of `execute`. -/
def perform (dev : MemDev) (req : Xfer) : MemDev × Xfer :=
  match req.op with
  | .rBlockIn => (dev, (performRead dev req).getD req)
  | .rBlockOut => ((performWrite dev req).getD dev, req)
  | .rBlockOutb => ((performWriteb dev req).getD dev, req)
  | _ => (dev, req)

/-- The same request on an ideal store: the store after it, and the value answered. -/
def idealPerform (st : ByteStore Addr) (req : Xfer) : ByteStore Addr × Word :=
  match req.op with
  | .rBlockIn => (st, st.readWord req.addr)
  | .rBlockOut => (st.writeWord req.addr req.value, req.value)
  | .rBlockOutb => (st.writeByte req.addr (lowByte req.value), req.value)
  | _ => (st, req.value)

theorem perform_agrees {dev : MemDev} {st : ByteStore Addr} {req : Xfer} (hst : dev.Agrees st)
    (haddr : req.addr.toNat + 1 < MEMBYTES) :
    (perform dev req).1.Agrees (idealPerform st req).1 ∧
      (perform dev req).2 = { req with value := (idealPerform st req).2 } := by
  obtain ⟨op, addr, value⟩ := req
  have hbyte : addr.toNat < MEMBYTES := Nat.lt_of_succ_lt haddr
  obtain ⟨devW, hW, hstW⟩ := MemDev.writeWord_agrees hst value haddr
  obtain ⟨devB, hB, hstB⟩ := MemDev.writeByte_agrees hst value hbyte
  cases op
  case rBlockIn =>
    simp only [perform, idealPerform, performRead, MemDev.readWord_agrees hst haddr]
    exact ⟨hst, rfl⟩
  case rBlockOut =>
    simp only [perform, idealPerform, performWrite, hW]
    exact ⟨hstW, trivial⟩
  case rBlockOutb =>
    simp only [perform, idealPerform, performWriteb, hB]
    exact ⟨hstB, trivial⟩
  all_goals exact ⟨hst, rfl⟩

end XMachine.Mem
