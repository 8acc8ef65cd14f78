import XMachine.Disk.Controller

namespace XMachine.Disk

open XMachine.Lib XMachine.Cpu XMachine.Unibus

/-!
# Transfer — the buffer, the host and the image

What goes through the sector buffer in two ways: between the buffer and the
image with WRITE SECTOR and READ SECTOR, and between the host and the buffer
with FILL and EMPTY.

The buffer has a 16-bit cell for each byte and the two sector commands move the
first 128 raw bytes of it, which are 64 cells; `roundTrip_iff` says what survives
that.  In FILL and EMPTY the controller waits for the host to take the transfer
flag down, which no access of the host does: `Hung`.
-/

namespace DiskState

/-! ### Sectors -/

section Sectors

variable {s t : DiskState} {file : File}

/-- The state in which a sector command does its transfer. -/
structure AtTransfer (s : DiskState) (func : DiskFunc) (track sector : BitVec 32)
    (media : Option File) : Prop where
  op : s.op = .writeSector
  func : s.func = func
  track : s.track = track
  sector : s.sector = sector
  media : s.diskMedia = media

/-- Every cell of the buffer holds a byte. -/
def HoldsBytes (s : DiskState) : Prop := ∀ i, highByte (s.internalBuffer i) = 0

/-- The image byte at `k` as a cell of the buffer. -/
def imageCell (media : Option File) (k : ℕ) : Option Word :=
  media.bind fun file => (file[k]?).map (BitVec.setWidth 16)

/-- The place of the sector in the image. -/
def sectorStart (track sector : BitVec 32) : ℕ :=
  TRACK_SIZE * track.toNat + SECTOR_SIZE * sector.toNat

/-- The bytes written by `s` are those of its buffer and nothing else changed;
    what `t` reads after it are the bytes written. -/
structure RoundTrip (s t : DiskState) (file : File) : Prop where
  written : ∀ i : Fin BUFFER_SIZE,
    imageCell s.writeSector.diskMedia (sectorStart s.track s.sector + i) = some (s.internalBuffer i)
  others : ∀ k, k < sectorStart s.track s.sector ∨ sectorStart s.track s.sector + SECTOR_SIZE ≤ k →
    imageCell s.writeSector.diskMedia k = imageCell (some file) k
  read : ∀ i : Fin BUFFER_SIZE,
    imageCell s.writeSector.diskMedia (sectorStart s.track s.sector + i)
      = some (t.readSector.internalBuffer i)

theorem diskOffset_toNat (ht : s.track.toNat < 77) (hs : s.sector.toNat < 26) :
    s.diskOffset.toNat = sectorStart s.track s.sector := by
  unfold diskOffset sectorStart TRACK_SIZE SECTOR_SIZE
  simp only [BitVec.toNat_add, BitVec.toNat_mul, BitVec.toNat_ofNat]
  omega

theorem sectorStart_le (ht : s.track.toNat < 77) (hs : s.sector.toNat < 26) :
    sectorStart s.track s.sector + SECTOR_SIZE ≤ 256256 := by
  unfold sectorStart TRACK_SIZE SECTOR_SIZE
  omega

theorem writeSector_media {track sector : BitVec 32}
    (hs : s.AtTransfer .writeSector track sector (some file)) :
    s.writeSector.diskMedia
      = some (writeAt file s.diskOffset.toNat (rawBytes s.internalBuffer SECTOR_SIZE)) := by
  simp [writeSector, sectorCommand, hs.op, writeMedia, hs.media]

theorem readSector_buffer {track sector : BitVec 32}
    (ht : t.AtTransfer .readSector track sector (some file)) :
    t.readSector.internalBuffer
      = storeRaw t.internalBuffer (readAt file t.diskOffset.toNat SECTOR_SIZE) := by
  simp [readSector, sectorCommand, ht.op, readMedia, ht.media]

/-- The bytes written are the raw bytes of the buffer. -/
theorem written_rawByte {track sector : BitVec 32}
    (hs : s.AtTransfer .writeSector track sector (some file)) (hfile : file.length = 256256)
    (htrack : s.track.toNat < 77) (hsector : s.sector.toNat < 26) {i : ℕ} (hi : i < SECTOR_SIZE) :
    imageCell s.writeSector.diskMedia (sectorStart s.track s.sector + i)
      = some ((rawByte s.internalBuffer i).setWidth 16) := by
  have hle := sectorStart_le htrack hsector
  rw [writeSector_media hs, diskOffset_toNat htrack hsector, imageCell, Option.bind_some,
    writeAt_getElem?_of_mem (by omega) (by rwa [length_rawBytes]), rawBytes_getElem? hi]
  rfl

theorem setWidth_lowByte {w : Word} (h : highByte w = 0) : (lowByte w).setWidth 16 = w := by
  refine word_ext ?_ ?_
  · simp [lowByte]
  · rw [h]
    apply BitVec.eq_of_getLsbD_eq
    intro i hi
    simp only [highByte, BitVec.getLsbD_setWidth, BitVec.getLsbD_ushiftRight,
      BitVec.getLsbD_of_ge (lowByte w) (8 + i) (by omega)]
    simp

/-- A buffer of bytes is its own raw image exactly when only its first cell is in use. -/
theorem rawByte_eq_cell_iff (hb : s.HoldsBytes) :
    (∀ i : Fin BUFFER_SIZE, (rawByte s.internalBuffer i).setWidth 16 = s.internalBuffer i) ↔
      ∀ i : Fin BUFFER_SIZE, i.val ≠ 0 → s.internalBuffer i = 0 := by
  have hhalf : ∀ i : Fin BUFFER_SIZE, ∃ h : i.val / 2 < BUFFER_SIZE,
      rawByte s.internalBuffer i = if i.val % 2 = 0 then lowByte (s.internalBuffer ⟨i.val / 2, h⟩)
        else 0 := by
    intro i
    have h : i.val / 2 < BUFFER_SIZE := by
      have := i.isLt
      omega
    refine ⟨h, ?_⟩
    rw [rawByte, dif_pos h, hb]
  constructor
  · intro h i
    induction i using WellFounded.induction (measure Fin.val).wf with
    | _ i ih =>
      intro hi
      obtain ⟨hlt, hraw⟩ := hhalf i
      rw [← h i, hraw]
      split
      · next heven =>
        have hzero := ih ⟨i.val / 2, hlt⟩ (show i.val / 2 < i.val by omega)
          (show i.val / 2 ≠ 0 by omega)
        rw [hzero]
        rfl
      · rfl
  · intro h i
    obtain ⟨hlt, hraw⟩ := hhalf i
    rw [hraw]
    by_cases hi : i.val = 0
    · rw [if_pos (by omega)]
      have hself : (⟨i.val / 2, hlt⟩ : Fin BUFFER_SIZE) = i :=
        Fin.ext (show i.val / 2 = i.val by omega)
      rw [hself]
      exact setWidth_lowByte (hb i)
    · rw [h i hi]
      split
      · next heven =>
        rw [h ⟨i.val / 2, hlt⟩ (show i.val / 2 ≠ 0 by omega)]
        rfl
      · rfl

/-- What is read back into a cell: whole cells come back, half of them. -/
theorem read_cell {track sector : BitVec 32}
    (hs : s.AtTransfer .writeSector track sector (some file))
    (ht : t.AtTransfer .readSector track sector s.writeSector.diskMedia)
    (hfile : file.length = 256256) (htrack : track.toNat < 77) (hsector : sector.toNat < 26)
    (c : Fin BUFFER_SIZE) :
    t.readSector.internalBuffer c
      = if 64 ≤ c.val then t.internalBuffer c else s.internalBuffer c := by
  have hst : s.track.toNat < 77 ∧ s.sector.toNat < 26 := by
    rw [hs.track, hs.sector]
    exact ⟨htrack, hsector⟩
  have hoff : t.diskOffset = s.diskOffset := by
    rw [diskOffset, diskOffset, ht.track, ht.sector, hs.track, hs.sector]
  rw [writeSector_media hs] at ht
  rw [readSector_buffer ht, hoff]
  have hle := sectorStart_le hst.1 hst.2
  rw [← diskOffset_toNat hst.1 hst.2] at hle
  have hraw : ∀ k, k < SECTOR_SIZE →
      (readAt (writeAt file s.diskOffset.toNat (rawBytes s.internalBuffer SECTOR_SIZE))
        s.diskOffset.toNat SECTOR_SIZE)[k]? = some (rawByte s.internalBuffer k) := by
    intro k hk
    rw [readAt_getElem? hk, writeAt_getElem?_of_mem (by omega) (by rwa [length_rawBytes]),
      rawBytes_getElem? hk]
  split
  · next hc =>
    refine storeRaw_of_length_le (le_trans ?_ (Nat.mul_le_mul_left 2 hc))
    rw [readAt, List.length_take]
    exact min_le_left _ _
  · next hc =>
    have hlo : 2 * c.val < SECTOR_SIZE := by
      unfold SECTOR_SIZE
      omega
    have hhi : 2 * c.val + 1 < SECTOR_SIZE := by
      unfold SECTOR_SIZE
      omega
    rw [storeRaw, hraw _ hhi, hraw _ hlo, Option.getD_some, Option.getD_some, rawByte_even,
      rawByte_odd]
    exact joinBytes_bytes _

/-- The claim on the bytes written. -/
theorem written_iff {track sector : BitVec 32}
    (hs : s.AtTransfer .writeSector track sector (some file)) (hfile : file.length = 256256)
    (htrack : s.track.toNat < 77) (hsector : s.sector.toNat < 26) (hb : s.HoldsBytes) :
    (∀ i : Fin BUFFER_SIZE, imageCell s.writeSector.diskMedia (sectorStart s.track s.sector + i)
      = some (s.internalBuffer i)) ↔
      ∀ i : Fin BUFFER_SIZE, i.val ≠ 0 → s.internalBuffer i = 0 := by
  rw [← rawByte_eq_cell_iff hb]
  refine forall_congr' fun i => ?_
  rw [written_rawByte hs hfile htrack hsector i.isLt, Option.some.injEq]

theorem written_others {track sector : BitVec 32}
    (hs : s.AtTransfer .writeSector track sector (some file)) (hfile : file.length = 256256)
    (htrack : s.track.toNat < 77) (hsector : s.sector.toNat < 26) {k : ℕ}
    (hk : k < sectorStart s.track s.sector ∨ sectorStart s.track s.sector + SECTOR_SIZE ≤ k) :
    imageCell s.writeSector.diskMedia k = imageCell (some file) k := by
  have hle := sectorStart_le htrack hsector
  rw [writeSector_media hs, diskOffset_toNat htrack hsector, imageCell, Option.bind_some,
    writeAt_getElem?_of_not_mem (by rw [length_rawBytes]; omega) (by rwa [length_rawBytes])]
  rfl

/-- **A sector comes back** exactly when the buffer written holds nothing but its
    first byte and the second half of the buffer read into is zero: the two
    commands move 64 cells of two bytes, not 128 bytes. -/
theorem roundTrip_iff {track sector : BitVec 32} (htrack : track.toNat < 77)
    (hsector : sector.toNat < 26) (hfile : file.length = 256256)
    (hs : s.AtTransfer .writeSector track sector (some file)) (hb : s.HoldsBytes)
    (ht : t.AtTransfer .readSector track sector s.writeSector.diskMedia) :
    RoundTrip s t file ↔ (∀ i : Fin BUFFER_SIZE, i.val ≠ 0 → s.internalBuffer i = 0) ∧
      ∀ i : Fin BUFFER_SIZE, 64 ≤ i.val → t.internalBuffer i = 0 := by
  have hst : s.track.toNat < 77 ∧ s.sector.toNat < 26 := by
    rw [hs.track, hs.sector]
    exact ⟨htrack, hsector⟩
  have hwritten := written_iff hs hfile hst.1 hst.2 hb
  constructor
  · intro h
    have hzero := hwritten.mp h.written
    refine ⟨hzero, fun i hi => ?_⟩
    have hread := Option.some.inj ((h.written i).symm.trans (h.read i))
    rw [read_cell hs ht hfile htrack hsector, if_pos hi, hzero i (by omega)] at hread
    exact hread.symm
  · rintro ⟨hzero, hhigh⟩
    refine ⟨hwritten.mpr hzero, fun k hk => written_others hs hfile hst.1 hst.2 hk, fun i => ?_⟩
    rw [hwritten.mpr hzero i, read_cell hs ht hfile htrack hsector]
    split
    · next hi => rw [hhigh i hi, hzero i (by omega)]
    · rfl

/-- An image of zeros. -/
def blankImage : File := List.replicate 256256 0

theorem length_blankImage : blankImage.length = 256256 := List.length_replicate

/-- A controller about to write its buffer to a sector of a blank image. -/
def aboutToWrite (track sector : BitVec 32) (buffer : Fin BUFFER_SIZE → Word) : DiskState :=
  { initDisk buffer (some blankImage) with
    op := .writeSector, func := .writeSector, track := track, sector := sector }

/-- A controller about to read the sector that `s` has written. -/
def aboutToRead (s : DiskState) (buffer : Fin BUFFER_SIZE → Word) : DiskState :=
  { initDisk buffer s.writeSector.diskMedia with
    op := .writeSector, func := .readSector, track := s.track, sector := s.sector }

theorem atTransfer_aboutToWrite (track sector : BitVec 32) (buffer : Fin BUFFER_SIZE → Word) :
    (aboutToWrite track sector buffer).AtTransfer .writeSector track sector (some blankImage) :=
  ⟨rfl, rfl, rfl, rfl, rfl⟩

theorem atTransfer_aboutToRead (s : DiskState) (buffer : Fin BUFFER_SIZE → Word) :
    (aboutToRead s buffer).AtTransfer .readSector s.track s.sector s.writeSector.diskMedia :=
  ⟨rfl, rfl, rfl, rfl, rfl⟩

/-- The bytes from 7 on. -/
def counting (i : Fin BUFFER_SIZE) : Word := BitVec.ofNat 16 (i.val + 7)

/-- Sector 5 of track 40 is written, and read into a buffer of ones. -/
theorem roundTrip_iff_counting :
    RoundTrip (aboutToWrite 40 5 counting)
        (aboutToRead (aboutToWrite 40 5 counting) fun _ => 1) blankImage ↔
      (∀ i : Fin BUFFER_SIZE, i.val ≠ 0 →
        (aboutToWrite 40 5 counting).internalBuffer i = 0) ∧
      ∀ i : Fin BUFFER_SIZE, 64 ≤ i.val →
        (aboutToRead (aboutToWrite 40 5 counting) fun _ => 1).internalBuffer i = 0 :=
  roundTrip_iff (by decide) (by decide) length_blankImage (atTransfer_aboutToWrite 40 5 counting)
    (show ∀ i, highByte (counting i) = 0 by decide)
    (atTransfer_aboutToRead (aboutToWrite 40 5 counting) fun _ => 1)

/-- A buffer of ones leaves a zero in the second byte of the sector. -/
theorem sector_not_written :
    ¬ RoundTrip (aboutToWrite 0 0 fun _ => 1)
      (aboutToRead (aboutToWrite 0 0 fun _ => 1) fun _ => 0) blankImage := by
  intro h
  have hzero := (written_iff (atTransfer_aboutToWrite 0 0 _) length_blankImage (by decide)
    (by decide) fun _ => show highByte 1 = 0 by decide).mp h.written
  have hone : (1 : Word) = 0 := hzero ⟨1, by decide⟩ (by decide)
  exact absurd hone (by decide)

end Sectors

/-! ### The host's handshake -/

/-- The host's accesses. -/
def readReg (addr : Addr) : Xfer := ⟨.rBlockIn, addr, 0⟩
def writeReg (addr : Addr) (value : Word) : Xfer := ⟨.rBlockOut, addr, value⟩

/-- GO with function FILL and with function EMPTY. -/
def GO_FILL : Word := 0o1
def GO_EMPTY : Word := 0o3

/-- From `s` the host polls RXCS, writes the next of the bytes to RXDB when it
    sees the transfer flag, and stops where it reads DONE, the bytes used up. -/
inductive Filling : DiskState → List Byte → DiskState → Prop
  | done {s s'} (hread : iteration (readReg RXCS_ADDR) s = some s')
      (hdone : s.rxcs &&& RXCS_FLAG_DONE ≠ 0) : Filling s [] s'
  | poll {s s₁ s' bs} (hread : iteration (readReg RXCS_ADDR) s = some s₁)
      (hdone : s.rxcs &&& RXCS_FLAG_DONE = 0) (hrest : Filling s₁ bs s') : Filling s bs s'
  | byte {s s₁ s₂ s' op b bs} (hread : iteration (readReg RXCS_ADDR) s = some s₁)
      (hdone : s.rxcs &&& RXCS_FLAG_DONE = 0) (hxfer : s.rxcs &&& RXCS_FLAG_XFER ≠ 0)
      (hop : op = .rBlockOut ∨ op = .rBlockOutb)
      (hwrite : iteration ⟨op, RXDB_ADDR, b.setWidth 16⟩ s₁ = some s₂)
      (hrest : Filling s₂ bs s') : Filling s (b :: bs) s'

/-- The same for reading: the host takes RXDB when it sees the transfer flag. -/
inductive Emptying : DiskState → List Byte → DiskState → Prop
  | done {s s'} (hread : iteration (readReg RXCS_ADDR) s = some s')
      (hdone : s.rxcs &&& RXCS_FLAG_DONE ≠ 0) : Emptying s [] s'
  | poll {s s₁ s' bs} (hread : iteration (readReg RXCS_ADDR) s = some s₁)
      (hdone : s.rxcs &&& RXCS_FLAG_DONE = 0) (hrest : Emptying s₁ bs s') : Emptying s bs s'
  | byte {s s₁ s₂ s' b bs} (hread : iteration (readReg RXCS_ADDR) s = some s₁)
      (hdone : s.rxcs &&& RXCS_FLAG_DONE = 0) (hxfer : s.rxcs &&& RXCS_FLAG_XFER ≠ 0)
      (htake : iteration (readReg RXDB_ADDR) s₁ = some s₂) (hvalue : s₁.rxdb = b.setWidth 16)
      (hrest : Emptying s₂ bs s') : Emptying s (b :: bs) s'

/-- No command runs. -/
structure Idle (s : DiskState) : Prop where
  op : s.op = .begin ∨ s.op = .done
  func : s.func = .idle
  idx : s.bufferIdx = 0
  transfer : s.rxcs &&& RXCS_FLAG_XFER = 0

/-- In some order of polls the bytes go in with FILL and come out with EMPTY. -/
def GivesBack (s : DiskState) (bs : List Byte) : Prop :=
  ∃ s₁ s₂ s₃ s₄, iteration (writeReg RXCS_ADDR GO_FILL) s = some s₁ ∧ Filling s₁ bs s₂ ∧
    iteration (writeReg RXCS_ADDR GO_EMPTY) s₂ = some s₃ ∧ Emptying s₃ bs s₄

/-- A command that waits for the transfer flag to go down. -/
structure Hung (s : DiskState) : Prop where
  notDone : s.rxcs &&& RXCS_FLAG_DONE = 0
  waits : (s.op = .fill ∧ s.func = .fillBuffer ∧ s.rxcs &&& RXCS_FLAG_XFER ≠ 0) ∨
    (s.op = .empty ∧ s.func = .emptyBuffer ∧
      (s.bufferIdx = 0 ∨ s.rxcs &&& RXCS_FLAG_XFER ≠ 0)) ∨
    (s.op = .sector ∧ (s.func = .readSector ∨ s.func = .writeSector) ∧
      s.rxcs &&& RXCS_FLAG_XFER ≠ 0)

/-- No command runs and none was given. -/
structure Waiting (s : DiskState) : Prop where
  op : s.op = .begin ∨ s.op = .done
  func : s.func = .idle
  transfer : s.rxcs &&& RXCS_FLAG_XFER = 0
  go : s.rxcs &&& RXCS_FLAG_GO = 0

section Host

variable {s s' : DiskState} {bs : List Byte}

/-- No access takes the transfer flag down. -/
theorem Hung.request (h : Hung s) (req : Xfer) : Hung (pendingBusRequests req s).1 := by
  obtain ⟨w, d, heq, hxfer, hdone, -⟩ := pendingBusRequests_spec s req
  rw [heq]
  refine ⟨?_, ?_⟩
  · by_contra hne
    exact hdone hne h.notDone
  · show _ ∨ _ ∧ _ ∧ (_ ∨ w &&& RXCS_FLAG_XFER ≠ 0) ∨ _
    rw [hxfer]
    exact h.waits

/-- The controller waits for it. -/
theorem Hung.controllerStep (h : Hung s) (hs : s.controllerStep = some s') : Hung s' := by
  have hset : s.rxcs &&& RXCS_FLAG_XFER ≠ 0 → s.isTransferFlagSet = true :=
    (isTransferFlagSet_iff s).mpr
  have hsame : s.controllerStep = some s → Hung s' := fun hstep => by
    obtain rfl := Option.some.inj (hstep.symm.trans hs)
    exact h
  rcases h.waits with ⟨hop, hfunc, hx⟩ | ⟨hop, hfunc, hx⟩ | ⟨hop, hfunc, hx⟩
  · refine hsame ?_
    simp [DiskState.controllerStep, hop, hfunc, DiskState.fillBuffer, hset hx]
  · have hstep : s.controllerStep = s.emptyBuffer := by
      simp [DiskState.controllerStep, hop, hfunc]
    by_cases hx' : s.rxcs &&& RXCS_FLAG_XFER ≠ 0
    · refine hsame (hstep.trans ?_)
      simp [DiskState.emptyBuffer, hset hx']
    · -- the first byte is put into RXDB and the flag goes up
      have hidx : s.bufferIdx = 0 := hx.resolve_right hx'
      have hclear : s.isTransferFlagSet = false :=
        Bool.eq_false_iff.mpr fun ht => hx' ((isTransferFlagSet_iff s).mp ht)
      have hlt : s.bufferIdx < BUFFER_SIZE := by
        rw [hidx]
        decide
      have hfirst : s.emptyBuffer
          = some ({ s with rxdb := s.internalBuffer ⟨s.bufferIdx, hlt⟩,
                           bufferIdx := s.bufferIdx + 1 } : DiskState).setTransferFlag := by
        unfold DiskState.emptyBuffer
        rw [if_neg (show s.bufferIdx ≠ SECTOR_SIZE by rw [hidx]; decide), hclear,
          if_neg Bool.false_ne_true, dif_pos hlt]
        exact congrArg some (if_pos (show s.bufferIdx + 1 ≠ SECTOR_SIZE by rw [hidx]; decide))
      obtain rfl := Option.some.inj ((hstep.trans hfirst).symm.trans hs)
      obtain ⟨w, heq, hup, hother⟩ := setTransferFlag_spec
        { s with rxdb := s.internalBuffer ⟨s.bufferIdx, hlt⟩, bufferIdx := s.bufferIdx + 1 }
      rw [heq]
      exact ⟨(hother _ rfl).trans h.notDone, .inr (.inl ⟨hop, hfunc, .inr hup⟩)⟩
  · refine hsame ?_
    rcases hfunc with hfunc | hfunc <;>
      simp [DiskState.controllerStep, hop, hfunc, DiskState.readSector, DiskState.writeSector,
        sectorCommand, hset hx]

theorem Hung.iteration (h : Hung s) {req : Xfer} (hs : iteration req s = some s') : Hung s' :=
  (h.request req).controllerStep hs

theorem Hung.not_filling (h : Hung s) : ¬ Filling s bs s' := by
  intro hfill
  induction hfill with
  | done _ hdone => exact hdone h.notDone
  | poll hread _ _ ih => exact ih (h.iteration hread)
  | byte hread _ _ _ hwrite _ ih => exact ih ((h.iteration hread).iteration hwrite)

/-- Without GO the controller at most puts the done flag up. -/
theorem Waiting.controllerStep (h : Waiting s) (hs : s.controllerStep = some s') : Waiting s' := by
  have hstep : s.controllerStep
      = some (if s.op = .done then ({ s with op := .begin } : DiskState).setDoneFlag else s) := by
    rcases h.op with hop | hop <;> simp [DiskState.controllerStep, h.go, hop, h.func]
  obtain rfl := Option.some.inj (hstep.symm.trans hs)
  split
  · obtain ⟨w, heq, -, hother⟩ := setDoneFlag_spec { s with op := .begin }
    rw [heq]
    exact ⟨.inl rfl, h.func, (hother _ rfl).trans h.transfer, (hother _ rfl).trans h.go⟩
  · exact h

/-- Polling a controller that runs no command. -/
theorem Waiting.poll (h : Waiting s) (hs : iteration (readReg RXCS_ADDR) s = some s') :
    Waiting s' := h.controllerStep hs

/-- No byte is asked for. -/
theorem Waiting.filling (h : Waiting s) (hfill : Filling s bs s') : bs = [] := by
  induction hfill with
  | done _ _ => rfl
  | poll hread _ _ ih => exact ih (h.poll hread)
  | byte _ _ hxfer _ _ _ _ => exact absurd h.transfer hxfer

/-- A command hangs, or the function is not supported. -/
theorem command_hung_or_waiting (hop : s.op = .begin ∨ s.op = .done) (hfunc : s.func = .idle)
    (hidx : s.bufferIdx = 0) (function : Word) :
    Hung (command function s) ∨ Waiting (command function s) := by
  have hflag : ∀ k, s.clearAllFlags.rxcs &&& k = 0 := clearAllFlags_and _
  unfold DiskState.command
  dsimp only
  split
  · obtain ⟨w, heq, hup, hother⟩ := setTransferFlag_spec
      { s.clearAllFlags with op := .fill, func := .fillBuffer }
    rw [heq]
    exact .inl ⟨(hother _ rfl).trans (hflag _), .inl ⟨rfl, rfl, hup⟩⟩
  · split
    · exact .inl ⟨hflag _, .inr (.inl ⟨rfl, rfl, .inl hidx⟩)⟩
    · split
      · obtain ⟨w, heq, hup, hother⟩ := setTransferFlag_spec
          { s.clearAllFlags with op := .sector, func := .writeSector }
        rw [heq]
        exact .inl ⟨(hother _ rfl).trans (hflag _), .inr (.inr ⟨rfl, .inr rfl, hup⟩)⟩
      · split
        · obtain ⟨w, heq, hup, hother⟩ := setTransferFlag_spec
            { s.clearAllFlags with op := .sector, func := .readSector }
          rw [heq]
          exact .inl ⟨(hother _ rfl).trans (hflag _), .inr (.inr ⟨rfl, .inl rfl, hup⟩)⟩
        · exact .inr ⟨hop, hfunc, hflag _, hflag _⟩

/-- GO with FILL starts a command that hangs, or none. -/
theorem Idle.go (h : Idle s) (hs : iteration (writeReg RXCS_ADDR GO_FILL) s = some s') :
    Hung s' ∨ Waiting s' := by
  have hgo : (s.rxcs ||| (GO_FILL &&& RXCS_WRITE_MASK)) &&& RXCS_FLAG_GO ≠ 0 := by
    intro hzero
    rw [BitVec.and_or_distrib_right] at hzero
    exact absurd (BitVec.or_eq_zero_iff.mp hzero).2 (by decide)
  have hstep : DiskState.iteration (writeReg RXCS_ADDR GO_FILL) s
      = some (command (((s.setStatusRegister GO_FILL).rxcs &&& RXCS_FLAG_FS) >>> 1)
          (s.setStatusRegister GO_FILL)) := by
    have hcmd : (s.setStatusRegister GO_FILL).rxcs &&& RXCS_FLAG_GO ≠ 0 := hgo
    have hop : (s.setStatusRegister GO_FILL).op = .begin ∨
        (s.setStatusRegister GO_FILL).op = .done := h.op
    simp only [DiskState.iteration, pendingBusRequests, writeReg, if_true, DiskState.controllerStep,
      if_pos (And.intro hcmd hop)]
  obtain rfl := Option.some.inj (hstep.symm.trans hs)
  -- what is left in the function field may make it another command
  exact command_hung_or_waiting h.op h.func h.idx _

/-- FILL never takes all of its bytes. -/
theorem Idle.not_filling (h : Idle s) {s₁ : DiskState}
    (hs : iteration (writeReg RXCS_ADDR GO_FILL) s = some s₁) (hbs : bs ≠ []) :
    ¬ Filling s₁ bs s' := by
  rcases h.go hs with hhung | hwait
  · exact hhung.not_filling
  · exact fun hfill => hbs (hwait.filling hfill)

/-- **FILL and EMPTY give nothing back.**  From no idle controller, in no order
    of polls, does the host get 128 bytes into the buffer. -/
theorem fill_empty_never (h : Idle s) (hlen : bs.length = 128) : ¬ GivesBack s bs := by
  rintro ⟨s₁, s₂, -, -, hgo, hfill, -⟩
  exact h.not_filling hgo (fun hnil => by rw [hnil] at hlen; cases hlen) hfill

theorem idle_initDisk (buffer : Fin BUFFER_SIZE → Word) (media : Option File) :
    Idle (initDisk buffer media) :=
  ⟨.inl rfl, rfl, rfl, BitVec.zero_and⟩

/-- The bytes 0 to 127, with something in the buffer and an image. -/
theorem fill_empty_never_counting :
    ¬ GivesBack (initDisk counting (some blankImage)) ((List.range 128).map (BitVec.ofNat 8)) :=
  fill_empty_never (idle_initDisk _ _) (by rw [List.length_map, List.length_range])

/-- The first FILL after `init_disk`. -/
theorem first_fill_hangs : ¬ GivesBack (initDisk (fun _ => 0) none) (List.replicate 128 0xA5) := by
  rintro ⟨s₁, s₂, -, -, hgo, hfill, -⟩
  exact (idle_initDisk _ _).not_filling hgo (List.cons_ne_nil _ _) hfill

end Host

end DiskState

end XMachine.Disk
