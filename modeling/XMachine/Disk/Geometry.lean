import Mathlib.Order.Interval.Set.Basic
import XMachine.Disk.Commands

namespace XMachine.Disk

open XMachine.Lib XMachine.Cpu XMachine.Unibus

/-!
# Geometry — where a sector command goes on the image

READ SECTOR and WRITE SECTOR take the sector and the track from RXDB, in two
turns, and put the offset together from them.  Neither number is checked
against the 26 sectors of a track or the 77 tracks of the medium; but both turns
wait for the host to take the transfer flag down, which it cannot.

* `transferred` — the bytes of the image that a step of the controller moves;
* `controllerStep_frame` — the step changes and reads no others;
* `wellAddressed_run` — in all runs they are on the medium, and apart.
-/

namespace DiskState

/-! ### The transfer -/

/-- A sector command has both numbers. -/
def AtImage (s : DiskState) : Prop :=
  s.op = .writeSector ∧ (s.func = .readSector ∨ s.func = .writeSector)

instance (s : DiskState) : Decidable s.AtImage := inferInstanceAs (Decidable (_ ∧ _))

/-- The bytes of the image that the controller moves in its step: behind the
    `lseek` a `write` moves all of them, a `read` those that are there. -/
def transferred (s : DiskState) : Set ℕ :=
  if s.AtImage then
    match s.diskMedia with
    | none => ∅
    | some file =>
      let off := s.diskOffset.toNat
      let n := if s.func = .readSector then (readAt file off SECTOR_SIZE).length else SECTOR_SIZE
      Set.Ico off (off + n)
  else ∅

section Frame

variable {s s' : DiskState}

theorem transferred_of_file (h : s.AtImage) {file : File} (hfile : s.diskMedia = some file) :
    s.transferred = Set.Ico s.diskOffset.toNat (s.diskOffset.toNat +
      if s.func = .readSector then (readAt file s.diskOffset.toNat SECTOR_SIZE).length
      else SECTOR_SIZE) := by
  rw [transferred, if_pos h, hfile]

/-- The flags are in the registers. -/
theorem setTransferFlag_media (s : DiskState) : s.setTransferFlag.diskMedia = s.diskMedia := by
  obtain ⟨w, heq, -⟩ := setTransferFlag_spec s
  rw [heq]

theorem finish_media (s : DiskState) : s.finish.diskMedia = s.diskMedia := by
  obtain ⟨w, heq, -⟩ := setDoneFlag_spec s.clearAllFlags
  rw [finish, heq]
  rfl

theorem command_media (function : Word) (s : DiskState) :
    (command function s).diskMedia = s.diskMedia := by
  unfold command
  dsimp only
  split_ifs <;> first | rfl | exact setTransferFlag_media _

theorem fillBuffer_media (h : s.fillBuffer = some s') : s'.diskMedia = s.diskMedia := by
  unfold fillBuffer at h
  split_ifs at h
  · rw [← Option.some.inj h]
  · rw [← Option.some.inj h]
  · rw [← Option.some.inj h]
    dsimp only
    split
    · exact setTransferFlag_media _
    · exact finish_media _

theorem emptyBuffer_media (h : s.emptyBuffer = some s') : s'.diskMedia = s.diskMedia := by
  unfold emptyBuffer at h
  split_ifs at h
  · rw [← Option.some.inj h]
  · rw [← Option.some.inj h]
  · rw [← Option.some.inj h]
    dsimp only
    split
    · exact setTransferFlag_media _
    · exact finish_media _

theorem sectorCommand_media (io : DiskState → DiskState) (s : DiskState) :
    (sectorCommand io s).diskMedia
      = if s.op = .writeSector then (io s).diskMedia else s.diskMedia := by
  unfold sectorCommand
  split
  · next hop =>
    rw [setTransferFlag_media, if_neg (by rw [hop.1]; decide)]
  · split
    · next hop => rw [if_neg (by rw [hop.1]; decide)]
    · split <;> rfl

/-- Only WRITE SECTOR with both numbers writes to the image. -/
theorem controllerStep_media (h : s.controllerStep = some s') :
    s'.diskMedia = s.diskMedia ∨
      s.op = .writeSector ∧ s.func = .writeSector ∧ s'.diskMedia = s.writeMedia.diskMedia := by
  unfold controllerStep at h
  split_ifs at h with hgo hfill hempty hread hwrite hdone
  · rw [← Option.some.inj h]
    exact .inl (command_media _ s)
  · exact .inl (fillBuffer_media h)
  · exact .inl (emptyBuffer_media h)
  · obtain ⟨b, hb⟩ := readMedia_spec s
    rw [← Option.some.inj h, readSector, sectorCommand_media, hb, ite_self]
    exact .inl rfl
  · rw [← Option.some.inj h, writeSector, sectorCommand_media]
    by_cases hop : s.op = .writeSector
    · rw [if_pos hop]
      exact .inr ⟨hop, hwrite, rfl⟩
    · rw [if_neg hop]
      exact .inl rfl
  · obtain ⟨w, hw, -⟩ := setDoneFlag_spec { s with op := .begin }
    rw [← Option.some.inj h, hw]
    exact .inl rfl
  · rw [← Option.some.inj h]
    exact .inl rfl

/-- A byte of the image that is not transferred is not written. -/
theorem controllerStep_frame (h : s.controllerStep = some s') {file : File}
    (hfile : s.diskMedia = some file) {k : ℕ} (hk : k ∉ s.transferred) (hlt : k < file.length) :
    imageCell s'.diskMedia k = imageCell s.diskMedia k := by
  rcases controllerStep_media h with heq | ⟨hop, hfunc, hwritten⟩
  · rw [heq]
  · rw [transferred_of_file ⟨hop, .inr hfunc⟩ hfile,
      if_neg (by rw [hfunc]; decide), Set.mem_Ico, not_and_or, not_le, not_lt] at hk
    have hmedia : s.writeMedia.diskMedia
        = some (writeAt file s.diskOffset.toNat (rawBytes s.internalBuffer SECTOR_SIZE)) := by
      rw [writeMedia, hfile]
    rw [hwritten, hmedia, hfile, imageCell, Option.bind_some,
      writeAt_getElem?_of_lt hlt (by rwa [length_rawBytes])]
    rfl

/-- Where READ SECTOR transfers nothing, it reads nothing into the buffer. -/
theorem readMedia_of_not_transferred (h : s.AtImage) (hfunc : s.func = .readSector)
    (hnone : s.transferred = ∅) : s.readMedia = s := by
  cases hfile : s.diskMedia with
  | none => rw [readMedia, hfile]
  | some file =>
    rw [transferred_of_file h hfile, if_pos hfunc, Set.Ico_eq_empty_iff, not_lt] at hnone
    have hempty : readAt file s.diskOffset.toNat SECTOR_SIZE = [] :=
      List.eq_nil_of_length_eq_zero (by omega)
    have hbuffer : storeRaw s.internalBuffer [] = s.internalBuffer :=
      funext fun c => storeRaw_of_length_le (Nat.zero_le _)
    rw [readMedia, hfile]
    dsimp only
    rw [hempty, hbuffer, ← hfile]

end Frame

/-! ### Runs -/

/-- The controller takes its step in `t`, in some turn of a run from `s₀`. -/
def Turn (s₀ t : DiskState) : Prop :=
  ∃ reqs req s, execute reqs s₀ = some s ∧ t = (pendingBusRequests req s).1

/-- The commands touch the medium only, and with different numbers not the same bytes. -/
structure WellAddressed (s₀ : DiskState) : Prop where
  onMedium : ∀ t, Turn s₀ t → ∀ k ∈ t.transferred, k < 256256
  disjoint : ∀ t t', Turn s₀ t → Turn s₀ t' → (t.track, t.sector) ≠ (t'.track, t'.sector) →
    ∀ k ∈ t.transferred, k ∉ t'.transferred

/-- Between turns no command has both numbers. -/
theorem Settled.not_atImage {s : DiskState} (h : Settled s) : s.op ≠ .writeSector := by
  rcases h.waits with hhung | hwait
  · rcases hhung.waits with ⟨hop, -⟩ | ⟨hop, -⟩ | ⟨hop, -⟩ <;> rw [hop] <;> decide
  · rcases hwait.op with hop | hop <;> rw [hop] <;> decide

/-- A request does not help: nothing is transferred. -/
theorem Settled.transferred_eq_empty {s : DiskState} (h : Settled s) (req : Xfer) :
    (pendingBusRequests req s).1.transferred = ∅ := by
  obtain ⟨w, d, heq, -⟩ := pendingBusRequests_spec s req
  rw [heq]
  exact if_neg fun hat => h.not_atImage hat.1

theorem transferred_of_turn {buffer : Fin BUFFER_SIZE → Word} {media : Option File}
    {t : DiskState} (h : Turn (initDisk buffer media) t) : t.transferred = ∅ := by
  obtain ⟨reqs, req, s, hs, rfl⟩ := h
  exact ((settled_init buffer media).execute hs).transferred_eq_empty req

/-- **Sectors are on the medium and apart**, whatever the host gives for the
    sector and the track and whatever the image: the controller never gets as
    far as to take either, and no command transfers. -/
theorem wellAddressed_run (buffer : Fin BUFFER_SIZE → Word) (media : Option File) :
    WellAddressed (initDisk buffer media) where
  onMedium t ht k hk := by
    rw [transferred_of_turn ht] at hk
    exact absurd hk (Set.notMem_empty k)
  disjoint t t' ht _ _ k hk := by
    rw [transferred_of_turn ht] at hk
    exact absurd hk (Set.notMem_empty k)

end DiskState

end XMachine.Disk
