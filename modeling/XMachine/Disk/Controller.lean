import XMachine.Lib.RawFile
import XMachine.Unibus.AddressMap
import XMachine.Unibus.BusState

namespace XMachine.Disk

open XMachine.Lib XMachine.Cpu XMachine.Unibus

/-!
# Controller — the disk's main loop

`disk_state`, its two registers RXCS and RXDB as the host sees them, and one
turn of `execute`: one request served, then one step of the controller.  The
request is what `slave_req` holds; `pending_bus_requests` never fills it in, so
it is a parameter here.

* `Controlled` — which operations go with which function and which flags;
* `controlled_run` — it holds after any requests.
-/

def TRACK_SIZE : ℕ := 3328
def SECTOR_SIZE : ℕ := 128
def BUFFER_SIZE : ℕ := 128
def RXCS_WRITE_MASK : Word := 0o040137

def RXCS_FLAG_GO : Word := 0o1
def RXCS_FLAG_FS : Word := 0o16
def RXCS_FLAG_DONE : Word := 0o40
def RXCS_FLAG_XFER : Word := 0o200

/-- Bits 8 to 13 and 15 of RXCS. -/
def RXCS_RESERVED : Word := 0o137400

/-- `disk_op`. -/
inductive DiskOp
  | begin | sector | track | fill | empty | writeSector | readSector | done
  deriving DecidableEq, Repr

/-- `disk_func`. -/
inductive DiskFunc
  | fillBuffer | emptyBuffer | writeSector | readSector
  | notUsed | readStatus | writeDel | readErr | idle
  deriving DecidableEq, Repr

/-- `disk_state`; `diskMedia` is the image behind the descriptor, `none` for `-1`. -/
structure DiskState where
  op : DiskOp
  func : DiskFunc
  track : BitVec 32
  sector : BitVec 32
  rxcs : Word
  rxdb : Word
  bufferIdx : ℕ
  internalBuffer : Fin BUFFER_SIZE → Word
  diskMedia : Option File

/-- `init_disk` and, where there is an image, `insert_disk_media`. -/
def initDisk (buffer : Fin BUFFER_SIZE → Word) (media : Option File) : DiskState where
  op := .begin
  func := .idle
  track := 0
  sector := 0
  rxcs := 0
  rxdb := 0
  bufferIdx := 0
  internalBuffer := buffer
  diskMedia := media

namespace DiskState

/-! ### Flags -/

def clearBufferRegister (s : DiskState) : DiskState := { s with rxdb := 0 }

def setStatusRegister (s : DiskState) (data : Word) : DiskState :=
  { s with rxcs := s.rxcs ||| (data &&& RXCS_WRITE_MASK) }

def setTransferFlag (s : DiskState) : DiskState :=
  if s.rxcs &&& RXCS_FLAG_XFER = 0 then { s with rxcs := s.rxcs ||| RXCS_FLAG_XFER } else s

/-- This keeps the flag and clears all others. -/
def clearTransferFlag (s : DiskState) : DiskState := { s with rxcs := s.rxcs &&& RXCS_FLAG_XFER }

def isTransferFlagSet (s : DiskState) : Bool := s.rxcs &&& RXCS_FLAG_XFER != 0

def setDoneFlag (s : DiskState) : DiskState :=
  if s.rxcs &&& RXCS_FLAG_DONE = 0 then { s with rxcs := s.rxcs ||| RXCS_FLAG_DONE } else s

def clearAllFlags (s : DiskState) : DiskState := { s with rxcs := 0 }

/-! ### Requests -/

/-- The request `req` served; the second part is the reply, if there is one. -/
def pendingBusRequests (req : Xfer) (s : DiskState) : DiskState × Option Xfer :=
  match req.op with
  | .rBlockIn =>
    if req.addr = RXCS_ADDR then (s, some (dataBusReply { req with value := s.rxcs }))
    else if req.addr = RXDB_ADDR then
      (s.clearTransferFlag.clearBufferRegister, some (dataBusReply { req with value := s.rxdb }))
    else (s, none)
  | .rBlockOut | .rBlockOutb =>
    if req.addr = RXCS_ADDR then (s.setStatusRegister req.value, some (dataBusReply req))
    else if req.addr = RXDB_ADDR then
      (({ s with rxdb := req.value }).clearTransferFlag, some (dataBusReply req))
    else (s, none)
  | _ => (s, none)

/-! ### Commands -/

/-- The end of a buffer command. -/
def finish (s : DiskState) : DiskState :=
  { s.clearAllFlags.setDoneFlag with bufferIdx := 0, op := .done, func := .idle }

/-- Outside the buffer this has no meaning. -/
def fillBuffer (s : DiskState) : Option DiskState :=
  if s.bufferIdx = SECTOR_SIZE then some s
  else if s.isTransferFlagSet then some s
  else if h : s.bufferIdx < BUFFER_SIZE then
    let s' := s.clearTransferFlag
    let buffer := Function.update s'.internalBuffer ⟨s.bufferIdx, h⟩ (s'.rxdb &&& 0o377)
    let s' := { s' with internalBuffer := buffer }
    let s' := { s'.clearBufferRegister with bufferIdx := s.bufferIdx + 1 }
    some (if s'.bufferIdx ≠ SECTOR_SIZE then s'.setTransferFlag else s'.finish)
  else none

def emptyBuffer (s : DiskState) : Option DiskState :=
  if s.bufferIdx = SECTOR_SIZE then some s
  else if s.isTransferFlagSet then some s
  else if h : s.bufferIdx < BUFFER_SIZE then
    let s' := { s with rxdb := s.internalBuffer ⟨s.bufferIdx, h⟩, bufferIdx := s.bufferIdx + 1 }
    some (if s'.bufferIdx ≠ SECTOR_SIZE then s'.setTransferFlag else s'.finish)
  else none

/-- `disk_offset`. -/
def diskOffset (s : DiskState) : BitVec 32 :=
  let trackOffset := BitVec.ofNat 32 TRACK_SIZE * s.track
  trackOffset + BitVec.ofNat 32 SECTOR_SIZE * s.sector

/-- The `lseek` and `read` of `read_sector`. -/
def readMedia (s : DiskState) : DiskState :=
  match s.diskMedia with
  | none => s
  | some file =>
    let bytes := readAt file s.diskOffset.toNat SECTOR_SIZE
    { s with internalBuffer := storeRaw s.internalBuffer bytes }

/-- The `lseek` and `write` of `write_sector`. -/
def writeMedia (s : DiskState) : DiskState :=
  match s.diskMedia with
  | none => s
  | some file =>
    let bytes := rawBytes s.internalBuffer SECTOR_SIZE
    { s with diskMedia := some (writeAt file s.diskOffset.toNat bytes) }

/-- A sector command: sector and track from RXDB, then the transfer `io`. -/
def sectorCommand (io : DiskState → DiskState) (s : DiskState) : DiskState :=
  if s.op = .sector ∧ s.isTransferFlagSet = false then
    ({ s with sector := s.rxdb.setWidth 32, op := .track }).setTransferFlag
  else if s.op = .track ∧ s.isTransferFlagSet = false then
    { s with track := s.rxdb.setWidth 32, op := .writeSector }
  else if s.op = .writeSector then
    { io s with op := .done, func := .idle, sector := 0, track := 0 }
  else s

def readSector (s : DiskState) : DiskState := sectorCommand readMedia s

def writeSector (s : DiskState) : DiskState := sectorCommand writeMedia s

/-- A command given with GO; the functions from 4 on are not supported. -/
def command (function : Word) (s : DiskState) : DiskState :=
  let s := s.clearAllFlags
  if function = 0 then ({ s with op := .fill, func := .fillBuffer }).setTransferFlag
  else if function = 1 then { s with op := .empty, func := .emptyBuffer }
  else if function = 2 then ({ s with op := .sector, func := .writeSector }).setTransferFlag
  else if function = 3 then ({ s with op := .sector, func := .readSector }).setTransferFlag
  else s

/-- What `execute` does after the requests. -/
def controllerStep (s : DiskState) : Option DiskState :=
  if s.rxcs &&& RXCS_FLAG_GO ≠ 0 ∧ (s.op = .begin ∨ s.op = .done) then
    some (command ((s.rxcs &&& RXCS_FLAG_FS) >>> 1) s)
  else if s.op = .fill ∧ s.func = .fillBuffer then fillBuffer s
  else if s.op = .empty ∧ s.func = .emptyBuffer then emptyBuffer s
  else if s.func = .readSector then some (readSector s)
  else if s.func = .writeSector then some (writeSector s)
  else if s.op = .done then some ({ s with op := .begin }).setDoneFlag
  else some s

/-- One turn of `execute`. -/
def iteration (req : Xfer) (s : DiskState) : Option DiskState :=
  controllerStep (pendingBusRequests req s).1

/-- `execute` over the requests of its turns. -/
def execute : List Xfer → DiskState → Option DiskState
  | [], s => some s
  | req :: reqs, s => (iteration req s).bind (execute reqs)

/-! ### What the helpers change -/

section Helpers

variable (s : DiskState)

theorem or_and_of_disjoint {x m k : Word} (h : m &&& k = 0) : (x ||| m) &&& k = x &&& k := by
  rw [BitVec.and_or_distrib_right, h]
  exact BitVec.or_zero

theorem and_and_of_disjoint {x m k : Word} (h : m &&& k = 0) : x &&& m &&& k = 0 := by
  rw [BitVec.and_assoc, h]
  exact BitVec.and_zero

theorem clearAllFlags_and (k : Word) : s.clearAllFlags.rxcs &&& k = 0 := BitVec.zero_and

theorem isTransferFlagSet_iff : s.isTransferFlagSet = true ↔ s.rxcs &&& RXCS_FLAG_XFER ≠ 0 :=
  bne_iff_ne

/-- Raising the transfer flag changes no other flag and nothing else. -/
theorem setTransferFlag_spec : ∃ w, s.setTransferFlag = { s with rxcs := w } ∧
    w &&& RXCS_FLAG_XFER ≠ 0 ∧ ∀ k, RXCS_FLAG_XFER &&& k = 0 → w &&& k = s.rxcs &&& k := by
  unfold setTransferFlag
  split
  · next h =>
    refine ⟨_, rfl, ?_, fun k hk => or_and_of_disjoint hk⟩
    rw [BitVec.and_or_distrib_right, h]
    decide
  · next h => exact ⟨s.rxcs, rfl, h, fun _ _ => rfl⟩

theorem setDoneFlag_spec : ∃ w, s.setDoneFlag = { s with rxcs := w } ∧
    w &&& RXCS_FLAG_DONE ≠ 0 ∧ ∀ k, RXCS_FLAG_DONE &&& k = 0 → w &&& k = s.rxcs &&& k := by
  unfold setDoneFlag
  split
  · next h =>
    refine ⟨_, rfl, ?_, fun k hk => or_and_of_disjoint hk⟩
    rw [BitVec.and_or_distrib_right, h]
    decide
  · next h => exact ⟨s.rxcs, rfl, h, fun _ _ => rfl⟩

/-- A request touches the two registers only.  It cannot change the transfer
    flag, nor raise the done flag or a reserved bit. -/
theorem pendingBusRequests_spec (req : Xfer) : ∃ w d,
    (pendingBusRequests req s).1 = { s with rxcs := w, rxdb := d } ∧
      w &&& RXCS_FLAG_XFER = s.rxcs &&& RXCS_FLAG_XFER ∧
      (w &&& RXCS_FLAG_DONE ≠ 0 → s.rxcs &&& RXCS_FLAG_DONE ≠ 0) ∧
      (s.rxcs &&& RXCS_RESERVED = 0 → w &&& RXCS_RESERVED = 0) := by
  have hclear : ∀ d, ∃ w d',
      { s.clearTransferFlag with rxdb := d } = { s with rxcs := w, rxdb := d' } ∧
      w &&& RXCS_FLAG_XFER = s.rxcs &&& RXCS_FLAG_XFER ∧
      (w &&& RXCS_FLAG_DONE ≠ 0 → s.rxcs &&& RXCS_FLAG_DONE ≠ 0) ∧
      (s.rxcs &&& RXCS_RESERVED = 0 → w &&& RXCS_RESERVED = 0) := by
    intro d
    refine ⟨s.rxcs &&& RXCS_FLAG_XFER, d, rfl, ?_, fun h => absurd ?_ h, fun _ => ?_⟩
    · rw [BitVec.and_assoc, BitVec.and_self]
    · exact and_and_of_disjoint rfl
    · exact and_and_of_disjoint rfl
  have hset : ∀ data, ∃ w d, s.setStatusRegister data = { s with rxcs := w, rxdb := d } ∧
      w &&& RXCS_FLAG_XFER = s.rxcs &&& RXCS_FLAG_XFER ∧
      (w &&& RXCS_FLAG_DONE ≠ 0 → s.rxcs &&& RXCS_FLAG_DONE ≠ 0) ∧
      (s.rxcs &&& RXCS_RESERVED = 0 → w &&& RXCS_RESERVED = 0) := by
    intro data
    refine ⟨_, s.rxdb, rfl, or_and_of_disjoint (and_and_of_disjoint rfl), fun h => ?_, fun h => ?_⟩
    · rwa [or_and_of_disjoint (and_and_of_disjoint rfl)] at h
    · rwa [or_and_of_disjoint (and_and_of_disjoint rfl)]
  have hsame : ∃ w d, s = { s with rxcs := w, rxdb := d } ∧
      w &&& RXCS_FLAG_XFER = s.rxcs &&& RXCS_FLAG_XFER ∧
      (w &&& RXCS_FLAG_DONE ≠ 0 → s.rxcs &&& RXCS_FLAG_DONE ≠ 0) ∧
      (s.rxcs &&& RXCS_RESERVED = 0 → w &&& RXCS_RESERVED = 0) :=
    ⟨s.rxcs, s.rxdb, rfl, rfl, id, id⟩
  obtain ⟨op, addr, value⟩ := req
  unfold pendingBusRequests
  cases op
  case rBlockIn =>
    dsimp only
    split_ifs
    · exact hsame
    · exact hclear 0
    · exact hsame
  case rBlockOut =>
    dsimp only
    split_ifs
    · exact hset value
    · exact hclear value
    · exact hsame
  case rBlockOutb =>
    dsimp only
    split_ifs
    · exact hset value
    · exact hclear value
    · exact hsame
  all_goals exact hsame

end Helpers

/-! ### The invariant -/

/-- Which functions an operation of the controller goes with. -/
def Goes (op : DiskOp) (func : DiskFunc) : Prop :=
  (op = .fill ↔ func = .fillBuffer) ∧ (op = .empty ↔ func = .emptyBuffer) ∧
    (op = .sector ∨ op = .track ∨ op = .writeSector ↔ func = .readSector ∨ func = .writeSector) ∧
    (op = .begin ∨ op = .done ↔ func = .idle)

instance (op : DiskOp) (func : DiskFunc) : Decidable (Goes op func) :=
  inferInstanceAs (Decidable (_ ∧ _ ∧ _ ∧ _))

structure Controlled (s : DiskState) : Prop where
  idx : s.bufferIdx < SECTOR_SIZE
  busy : s.bufferIdx ≠ 0 → s.op = .fill ∨ s.op = .empty
  goes : Goes s.op s.func
  transfer : s.rxcs &&& RXCS_FLAG_XFER ≠ 0 →
    s.op = .fill ∨ s.op = .empty ∨ s.op = .sector ∨ s.op = .track
  done : s.rxcs &&& RXCS_FLAG_DONE ≠ 0 → s.op = .begin ∨ s.op = .done
  reserved : s.rxcs &&& RXCS_RESERVED = 0

theorem controlled_init (buffer : Fin BUFFER_SIZE → Word) (media : Option File) :
    Controlled (initDisk buffer media) where
  idx := by
    show 0 < SECTOR_SIZE
    decide
  busy h := absurd rfl h
  goes := by
    show Goes .begin .idle
    decide
  transfer h := absurd BitVec.zero_and h
  done _ := .inl rfl
  reserved := BitVec.zero_and

section Steps

variable {s : DiskState}

theorem Controlled.request (h : Controlled s) (req : Xfer) :
    Controlled (pendingBusRequests req s).1 := by
  obtain ⟨w, d, heq, hxfer, hdone, hres⟩ := pendingBusRequests_spec s req
  rw [heq]
  exact ⟨h.idx, h.busy, h.goes, fun hw => h.transfer (hxfer ▸ hw), fun hw => h.done (hdone hw),
    hres h.reserved⟩

/-- A state in an operation that may transfer, its flags taken from one without any. -/
theorem Controlled.setTransfer {s' : DiskState} (hidx : s'.bufferIdx < SECTOR_SIZE)
    (hbusy : s'.bufferIdx ≠ 0 → s'.op = .fill ∨ s'.op = .empty) (hgoes : Goes s'.op s'.func)
    (hop : s'.op = .fill ∨ s'.op = .empty ∨ s'.op = .sector ∨ s'.op = .track)
    (hdone : s'.rxcs &&& RXCS_FLAG_DONE = 0) (hres : s'.rxcs &&& RXCS_RESERVED = 0) :
    Controlled s'.setTransferFlag := by
  obtain ⟨w, heq, -, hother⟩ := setTransferFlag_spec s'
  rw [heq]
  refine ⟨hidx, hbusy, hgoes, fun _ => hop, fun hw => absurd ?_ hw, ?_⟩
  · exact (hother _ rfl).trans hdone
  · exact (hother _ rfl).trans hres

/-- The end of a buffer command leaves the controller idle. -/
theorem Controlled.finish (s : DiskState) : Controlled s.finish := by
  obtain ⟨w, heq, -, hother⟩ := setDoneFlag_spec s.clearAllFlags
  have hzero : ∀ k, RXCS_FLAG_DONE &&& k = 0 → w &&& k = 0 := fun k hk =>
    (hother k hk).trans BitVec.zero_and
  unfold DiskState.finish
  rw [heq]
  refine ⟨?_, fun h => absurd rfl h, ?_, fun hw => absurd (hzero _ rfl) hw, fun _ => .inr rfl,
    hzero _ rfl⟩
  · show 0 < SECTOR_SIZE
    decide
  · show Goes .done .idle
    decide

/-- Where the controller is not idle, the done flag is down. -/
theorem Controlled.not_done (h : Controlled s) (hbegin : s.op ≠ .begin) (hdone : s.op ≠ .done) :
    s.rxcs &&& RXCS_FLAG_DONE = 0 := by
  by_contra hw
  rcases h.done hw with hop | hop
  · exact hbegin hop
  · exact hdone hop

theorem Controlled.not_transfer (h : Controlled s) (hop : s.op = .begin ∨ s.op = .writeSector ∨
    s.op = .done) : s.rxcs &&& RXCS_FLAG_XFER = 0 := by
  by_contra hw
  rcases h.transfer hw with h' | h' | h' | h' <;> rcases hop with hop | hop | hop <;>
    rw [hop] at h' <;> cases h'

/-- Outside the buffer commands no byte has been moved. -/
theorem Controlled.idx_eq_zero (h : Controlled s) (hfill : s.op ≠ .fill) (hempty : s.op ≠ .empty) :
    s.bufferIdx = 0 := by
  by_contra hne
  rcases h.busy hne with hop | hop
  · exact hfill hop
  · exact hempty hop

theorem Controlled.idx_of_idle (h : Controlled s) (hop : s.op = .begin ∨ s.op = .done) :
    s.bufferIdx = 0 := by
  refine h.idx_eq_zero ?_ ?_ <;> rcases hop with hop | hop <;> rw [hop] <;> decide

theorem Controlled.fillBuffer (h : Controlled s) (hop : s.op = .fill) :
    ∃ s', s.fillBuffer = some s' ∧ Controlled s' := by
  unfold DiskState.fillBuffer
  rw [if_neg h.idx.ne]
  split
  · exact ⟨s, rfl, h⟩
  · rw [dif_pos (show s.bufferIdx < BUFFER_SIZE from h.idx)]
    refine ⟨_, rfl, ?_⟩
    split
    · next hne =>
      refine Controlled.setTransfer ?_ (fun _ => .inl hop) h.goes (.inl hop) ?_ ?_
      · have := h.idx
        exact lt_of_le_of_ne (Nat.succ_le_of_lt this) hne
      · show s.rxcs &&& RXCS_FLAG_XFER &&& RXCS_FLAG_DONE = 0
        exact and_and_of_disjoint rfl
      · show s.rxcs &&& RXCS_FLAG_XFER &&& RXCS_RESERVED = 0
        exact and_and_of_disjoint rfl
    · exact Controlled.finish _

theorem Controlled.emptyBuffer (h : Controlled s) (hop : s.op = .empty) :
    ∃ s', s.emptyBuffer = some s' ∧ Controlled s' := by
  unfold DiskState.emptyBuffer
  rw [if_neg h.idx.ne]
  split
  · exact ⟨s, rfl, h⟩
  · rw [dif_pos (show s.bufferIdx < BUFFER_SIZE from h.idx)]
    refine ⟨_, rfl, ?_⟩
    split
    · next hne =>
      refine Controlled.setTransfer ?_ (fun _ => .inr hop) h.goes (.inr (.inl hop)) ?_ h.reserved
      · have := h.idx
        exact lt_of_le_of_ne (Nat.succ_le_of_lt this) hne
      · exact h.not_done (by rw [hop]; decide) (by rw [hop]; decide)
    · exact Controlled.finish _

/-- A transfer changes the buffer or the image only. -/
theorem readMedia_spec (s : DiskState) :
    ∃ b, s.readMedia = { s with internalBuffer := b } := by
  unfold readMedia
  split
  · exact ⟨s.internalBuffer, rfl⟩
  · exact ⟨_, rfl⟩

theorem writeMedia_spec (s : DiskState) : ∃ m, s.writeMedia = { s with diskMedia := m } := by
  unfold writeMedia
  split
  · exact ⟨s.diskMedia, rfl⟩
  · exact ⟨_, rfl⟩

theorem Controlled.sectorCommand (h : Controlled s) {io : DiskState → DiskState}
    (hio : ∃ b m, io s = { s with internalBuffer := b, diskMedia := m }) :
    Controlled (sectorCommand io s) := by
  have hgoes := h.goes
  unfold DiskState.sectorCommand
  split
  · next hc =>
    rw [hc.1] at hgoes
    have hzero := h.idx_eq_zero (by rw [hc.1]; decide) (by rw [hc.1]; decide)
    refine Controlled.setTransfer h.idx (fun hne => absurd hzero hne) ?_ (.inr (.inr (.inr rfl)))
      (h.not_done (by rw [hc.1]; decide) (by rw [hc.1]; decide)) h.reserved
    show Goes .track s.func
    revert hgoes
    cases s.func <;> decide
  · split
    · next hc =>
      rw [hc.1] at hgoes
      have hzero := h.idx_eq_zero (by rw [hc.1]; decide) (by rw [hc.1]; decide)
      refine ⟨h.idx, fun hne => absurd hzero hne, ?_, fun hw => ?_, fun hw => absurd ?_ hw,
        h.reserved⟩
      · show Goes .writeSector s.func
        revert hgoes
        cases s.func <;> decide
      · have := (isTransferFlagSet_iff s).mpr hw
        rw [hc.2] at this
        cases this
      · exact h.not_done (by rw [hc.1]; decide) (by rw [hc.1]; decide)
    · split
      · next hop =>
        obtain ⟨b, m, heq⟩ := hio
        have hzero := h.idx_eq_zero (by rw [hop]; decide) (by rw [hop]; decide)
        rw [heq]
        refine ⟨h.idx, fun hne => absurd hzero hne, show Goes .done .idle by decide,
          fun hw => absurd ?_ hw, fun _ => .inr rfl, h.reserved⟩
        exact h.not_transfer (.inr (.inl hop))
      · exact h

theorem Controlled.command (h : Controlled s) (hop : s.op = .begin ∨ s.op = .done)
    (function : Word) : Controlled (command function s) := by
  have hzero := h.idx_of_idle hop
  have hflag : ∀ k, s.clearAllFlags.rxcs &&& k = 0 := clearAllFlags_and s
  unfold DiskState.command
  dsimp only
  split
  · exact Controlled.setTransfer h.idx (fun hne => absurd hzero hne)
      (show Goes .fill .fillBuffer by decide) (.inl rfl) (hflag _) (hflag _)
  · split
    · exact ⟨h.idx, fun hne => absurd hzero hne, show Goes .empty .emptyBuffer by decide,
        fun hw => absurd (hflag _) hw, fun hw => absurd (hflag _) hw, hflag _⟩
    · split
      · exact Controlled.setTransfer h.idx (fun hne => absurd hzero hne)
          (show Goes .sector .writeSector by decide) (.inr (.inr (.inl rfl))) (hflag _) (hflag _)
      · split
        · exact Controlled.setTransfer h.idx (fun hne => absurd hzero hne)
            (show Goes .sector .readSector by decide) (.inr (.inr (.inl rfl))) (hflag _) (hflag _)
        · -- an unsupported function: only the flags are gone
          exact ⟨h.idx, h.busy, h.goes, fun hw => absurd (hflag _) hw,
            fun hw => absurd (hflag _) hw, hflag _⟩

/-- One controller step indexes the buffer within its bounds and keeps the invariant. -/
theorem Controlled.controllerStep (h : Controlled s) :
    ∃ s', s.controllerStep = some s' ∧ Controlled s' := by
  unfold DiskState.controllerStep
  split
  · next hgo => exact ⟨_, rfl, h.command hgo.2 _⟩
  · split
    · next hop => exact h.fillBuffer hop.1
    · split
      · next hop => exact h.emptyBuffer hop.1
      · split
        · obtain ⟨b, heq⟩ := readMedia_spec s
          exact ⟨_, rfl, h.sectorCommand ⟨b, s.diskMedia, heq⟩⟩
        · split
          · obtain ⟨m, heq⟩ := writeMedia_spec s
            exact ⟨_, rfl, h.sectorCommand ⟨s.internalBuffer, m, heq⟩⟩
          · split
            · next hop =>
              refine ⟨_, rfl, ?_⟩
              obtain ⟨w, heq, -, hother⟩ := setDoneFlag_spec { s with op := .begin }
              have hgoes := h.goes
              rw [hop] at hgoes
              have hzero := h.idx_of_idle (.inr hop)
              rw [heq]
              refine ⟨h.idx, fun hne => absurd hzero hne, ?_, fun hw => absurd ?_ hw,
                fun _ => .inl rfl, (hother _ rfl).trans h.reserved⟩
              · show Goes .begin s.func
                revert hgoes
                cases s.func <;> decide
              · exact (hother _ rfl).trans (h.not_transfer (.inr (.inr hop)))
            · exact ⟨s, rfl, h⟩

theorem Controlled.execute (h : Controlled s) (reqs : List Xfer) :
    ∃ s', DiskState.execute reqs s = some s' ∧ Controlled s' := by
  induction reqs generalizing s with
  | nil => exact ⟨s, rfl, h⟩
  | cons req reqs ih =>
    obtain ⟨s₁, hs₁, h₁⟩ := (h.request req).controllerStep
    obtain ⟨s₂, hs₂, h₂⟩ := ih h₁
    exact ⟨s₂, by rw [DiskState.execute, iteration, hs₁]; exact hs₂, h₂⟩

end Steps

/-- **The controller stays in order.**  From `init_disk`, after any requests,
    no access to the buffer was out of range, the invariant holds, and no request
    by itself changes the command that runs. -/
theorem controlled_run (buffer : Fin BUFFER_SIZE → Word) (media : Option File) (reqs : List Xfer) :
    ∃ s, execute reqs (initDisk buffer media) = some s ∧ Controlled s ∧
      ∀ req, let s' := (pendingBusRequests req s).1
        s'.op = s.op ∧ s'.func = s.func ∧ s'.track = s.track ∧ s'.sector = s.sector ∧
          s'.bufferIdx = s.bufferIdx := by
  obtain ⟨s, hs, h⟩ := (controlled_init buffer media).execute reqs
  refine ⟨s, hs, h, fun req => ?_⟩
  obtain ⟨w, d, heq, -⟩ := pendingBusRequests_spec s req
  dsimp only
  rw [heq]
  exact ⟨rfl, rfl, rfl, rfl, rfl⟩

end DiskState

end XMachine.Disk
