import XMachine.Disk.Controller

namespace XMachine.Disk

open XMachine.Lib XMachine.Cpu XMachine.Unibus

/-!
# Requests — what the disk answers

The bus thread posts a request in the slave mailbox and wakes the controller.
`pending_bus_requests` never takes it from there: the switch is over a local
`slave_req` that nothing has filled in.

* `access` — what the request posted asks for;
* `answers_iff` — for which contents of the local record it is done.
-/

/-- A request that the bus thread posts for the disk. -/
structure IsRequest (req : Xfer) : Prop where
  op : req.op.isBlock = true
  addr : isLocalAddr req.addr = true

theorem IsRequest.addr_cases {req : Xfer} (h : IsRequest req) :
    req.addr = RXCS_ADDR ∨ req.addr = RXDB_ADDR := by
  simpa [isLocalAddr] using h.addr

namespace DiskState

/-- The contents of the register at `addr`. -/
def register (s : DiskState) (addr : Addr) : Word := if addr = RXCS_ADDR then s.rxcs else s.rxdb

/-- The access a request asks for: the controller after it, and the reply with its result. -/
def access (req : Xfer) (s : DiskState) : DiskState × Xfer :=
  if req.op = .rBlockIn then
    (if req.addr = RXCS_ADDR then s else s.clearTransferFlag.clearBufferRegister,
      ⟨.rDone, req.addr, s.register req.addr⟩)
  else
    (if req.addr = RXCS_ADDR then s.setStatusRegister req.value
      else ({ s with rxdb := req.value }).clearTransferFlag,
      ⟨.rDone, req.addr, req.value⟩)

/-- One call of `pending_bus_requests`, with what its local `slave_req` and the
    slave mailbox hold: the controller and the mailbox after it. -/
def pendingCall (slaveReq slave : Xfer) (s : DiskState) : DiskState × Xfer :=
  ((pendingBusRequests slaveReq s).1, (pendingBusRequests slaveReq s).2.getD slave)

/-- Two requests for the same access of the same register; or a read and a write
    of what the register holds, in the case of RXDB zero, which reading leaves there. -/
def SameAccess (s : DiskState) (req req' : Xfer) : Prop :=
  req.addr = req'.addr ∧
    if req.op = .rBlockIn then
      req'.op ≠ .rBlockIn →
        req'.value = s.register req.addr ∧ (req.addr = RXDB_ADDR → req'.value = 0)
    else if req'.op = .rBlockIn then
      req.value = s.register req.addr ∧ (req.addr = RXDB_ADDR → req.value = 0)
    else req.value = req'.value

section Requests

variable {s : DiskState} {req req' : Xfer}

/-- The switch does the access of a request of the disk's. -/
theorem pending_of_isRequest (h : IsRequest req) (s : DiskState) :
    pendingBusRequests req s = ((access req s).1, some (access req s).2) := by
  obtain ⟨op, addr, value⟩ := req
  have hop := h.op
  rcases h.addr_cases with haddr | haddr <;> obtain rfl : addr = _ := haddr <;> cases op <;>
    first | rfl | cases hop

/-- It does nothing for any other. -/
theorem pending_of_not_isRequest (h : ¬ IsRequest req) (s : DiskState) :
    pendingBusRequests req s = (s, none) := by
  have haddr : req.op.isBlock = true → req.addr ≠ RXCS_ADDR ∧ req.addr ≠ RXDB_ADDR := by
    intro hop
    refine ⟨fun ha => h ⟨hop, ?_⟩, fun ha => h ⟨hop, ?_⟩⟩ <;> simp [isLocalAddr, ha]
  unfold pendingBusRequests
  split <;> next hop =>
    first
    | rfl
    | rw [hop] at haddr
      rw [if_neg (haddr rfl).1, if_neg (haddr rfl).2]

@[simp] theorem access_op (req : Xfer) (s : DiskState) : (access req s).2.op = .rDone := by
  unfold access
  split <;> rfl

@[simp] theorem access_addr (req : Xfer) (s : DiskState) : (access req s).2.addr = req.addr := by
  unfold access
  split <;> rfl

/-- A read returns what the register holds; a write changes the register it
    names and, RXDB being the one, the flags. -/
theorem access_registers (req : Xfer) (s : DiskState) : ∃ w d,
    (access req s).1 = { s with rxcs := w, rxdb := d } ∧
      (req.op = .rBlockIn → (access req s).2.value = s.register req.addr) ∧
      (req.addr = RXCS_ADDR → d = s.rxdb) ∧
      (req.addr ≠ RXCS_ADDR → w = s.rxcs &&& RXCS_FLAG_XFER) ∧
      (req.op ≠ .rBlockIn → req.addr ≠ RXCS_ADDR → d = req.value) := by
  unfold access
  by_cases hop : req.op = .rBlockIn <;> by_cases haddr : req.addr = RXCS_ADDR
  · rw [if_pos hop, if_pos haddr]
    exact ⟨s.rxcs, s.rxdb, rfl, fun _ => rfl, fun _ => rfl, fun h => absurd haddr h,
      fun h => absurd hop h⟩
  · rw [if_pos hop, if_neg haddr]
    exact ⟨_, _, rfl, fun _ => rfl, fun h => absurd h haddr, fun _ => rfl, fun h => absurd hop h⟩
  · rw [if_neg hop, if_pos haddr]
    exact ⟨_, _, rfl, fun h => absurd h hop, fun _ => rfl, fun h => absurd haddr h,
      fun _ h => absurd haddr h⟩
  · rw [if_neg hop, if_neg haddr]
    exact ⟨_, _, rfl, fun h => absurd h hop, fun h => absurd h haddr, fun _ => rfl, fun _ _ => rfl⟩

theorem access_eq_iff_fields (req req' : Xfer) (s : DiskState) :
    access req s = access req' s ↔ (access req s).2 = (access req' s).2 ∧
      (access req s).1.rxcs = (access req' s).1.rxcs ∧
      (access req s).1.rxdb = (access req' s).1.rxdb := by
  constructor
  · intro h
    rw [h]
    exact ⟨rfl, rfl, rfl⟩
  · rintro ⟨hreply, hrxcs, hrxdb⟩
    obtain ⟨w, d, hstate, -⟩ := access_registers req s
    obtain ⟨w', d', hstate', -⟩ := access_registers req' s
    rw [hstate, hstate'] at hrxcs hrxdb
    obtain rfl : w = w' := hrxcs
    obtain rfl : d = d' := hrxdb
    exact Prod.ext (hstate.trans hstate'.symm) hreply

/-- When two accesses have the same outcome. -/
theorem access_eq_iff (h : IsRequest req) :
    access req s = access req' s ↔ SameAccess s req req' := by
  have hdb : RXDB_ADDR ≠ RXCS_ADDR := by decide
  -- writing back what RXCS holds puts no bit up
  have hself : s.rxcs ||| s.rxcs &&& RXCS_WRITE_MASK = s.rxcs := by
    rw [BitVec.or_comm, or_eq_right_iff, BitVec.and_comm s.rxcs]
    exact and_and_of_disjoint (BitVec.and_not_self _)
  rw [access_eq_iff_fields]
  unfold SameAccess
  by_cases haddr : req.addr = req'.addr
  · have hother := h.addr_cases
    rw [haddr] at hother
    by_cases hop : req.op = .rBlockIn <;> by_cases hop' : req'.op = .rBlockIn <;>
      rcases hother with hreg | hreg <;>
      simp [access, register, hop, hop', haddr, hreg, hdb, hdb.symm, setStatusRegister,
        clearTransferFlag, clearBufferRegister]
    · exact ⟨fun hv => hv.1.symm, fun hv => by rw [hv, hself]; exact ⟨rfl, rfl⟩⟩
    · exact ⟨fun hv => ⟨hv.1.symm, hv.2.symm⟩, fun hv => ⟨hv.1.symm, hv.2.symm⟩⟩
    · exact fun hv => by rw [hv, hself]
    · exact fun hv => by rw [hv]
  · refine iff_of_false (fun hsame => haddr ?_) fun hsame => haddr hsame.1
    have hreply := congrArg Xfer.addr hsame.1
    rwa [access_addr, access_addr] at hreply

end Requests

/-- **The request posted is not the one served.**  One call does the access that
    was posted exactly when the local record happens to hold a request for the
    same; and for no request and in no state is the outcome free of that record. -/
theorem answers_iff {posted : Xfer} (hposted : IsRequest posted) (s : DiskState) :
    (∀ slaveReq, pendingCall slaveReq posted s = access posted s ↔
      IsRequest slaveReq ∧ SameAccess s slaveReq posted) ∧
      ¬ ∀ slaveReq slaveReq', pendingCall slaveReq posted s = pendingCall slaveReq' posted s := by
  have hdone : posted.op ≠ .rDone := fun hop => by
    have := hposted.op
    rw [hop] at this
    cases this
  -- without a request in the record the mailbox stays as it was posted
  have hnone (slaveReq : Xfer) (hno : ¬ IsRequest slaveReq) :
      pendingCall slaveReq posted s ≠ access posted s := by
    intro heq
    rw [pendingCall, pending_of_not_isRequest hno] at heq
    have hop := access_op posted s
    rw [← heq] at hop
    exact hdone hop
  have hsome (slaveReq : Xfer) (hreq : IsRequest slaveReq) :
      pendingCall slaveReq posted s = access slaveReq s := by
    rw [pendingCall, pending_of_isRequest hreq]
    rfl
  refine ⟨fun slaveReq => ?_, fun hfree => ?_⟩
  · by_cases hreq : IsRequest slaveReq
    · rw [hsome slaveReq hreq, access_eq_iff hreq, and_iff_right hreq]
    · exact iff_of_false (hnone slaveReq hreq) fun h => hreq h.1
  · have hinit : ¬ IsRequest initXfer := fun h => absurd h.op (by decide)
    exact hnone initXfer hinit ((hfree initXfer posted).trans (hsome posted hposted))

/-- A byte on its way to a controller that fills its buffer. -/
def postedByte : Xfer := ⟨.rBlockOutb, RXDB_ADDR, 0o101⟩

def filling : DiskState :=
  { initDisk (fun _ => 0) none with
    op := .fill, func := .fillBuffer, rxcs := RXCS_FLAG_XFER, rxdb := 0o60, bufferIdx := 3 }

theorem isRequest_postedByte : IsRequest postedByte := ⟨rfl, by decide⟩

theorem answers_iff_byte :
    (∀ slaveReq, pendingCall slaveReq postedByte filling = access postedByte filling ↔
      IsRequest slaveReq ∧ SameAccess filling slaveReq postedByte) ∧
      ¬ ∀ slaveReq slaveReq',
        pendingCall slaveReq postedByte filling = pendingCall slaveReq' postedByte filling :=
  answers_iff isRequest_postedByte filling

/-- The read is not answered where the local record holds R_NONE. -/
theorem read_not_answered :
    ¬ ∀ slaveReq, pendingCall slaveReq ⟨.rBlockIn, RXCS_ADDR, 0⟩ (initDisk (fun _ => 0) none)
      = access ⟨.rBlockIn, RXCS_ADDR, 0⟩ (initDisk (fun _ => 0) none) := by
  intro h
  have hop := congrArg (fun outcome => outcome.2.op) (h initXfer)
  exact absurd hop (by decide)

end DiskState

end XMachine.Disk
