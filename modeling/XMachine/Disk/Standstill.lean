import XMachine.Disk.Commands

namespace XMachine.Disk

open XMachine.Lib XMachine.Cpu XMachine.Unibus

/-!
# Standstill — what the disk does in a whole run

`clear_transfer_flag` keeps the transfer flag, so every supported command waits
for a flag that never goes down.  Here that is followed through all runs from
`init_disk`.

* `Untouched` — the image, the buffer and the sector registers as they were;
* `Hung.execute` — a command that hangs is the last;
* `standstill` — no run moves a byte between the image, the buffer and the host,
  but for the first byte of EMPTY.
-/

namespace DiskState

/-- Nothing has been transferred; at most one byte of the buffer has been shown to the host. -/
structure Untouched (buffer : Fin BUFFER_SIZE → Word) (media : Option File) (s : DiskState) :
    Prop where
  buffer : s.internalBuffer = buffer
  media : s.diskMedia = media
  sector : s.sector = 0
  track : s.track = 0
  idx : s.bufferIdx ≤ 1

/-- The same command, or none in both. -/
structure SameCommand (s s' : DiskState) : Prop where
  op : s'.op = s.op
  func : s'.func = s.func

section Turns

variable {s s' : DiskState} {req : Xfer} {buffer : Fin BUFFER_SIZE → Word} {media : Option File}

theorem untouched_init (buffer : Fin BUFFER_SIZE → Word) (media : Option File) :
    Untouched buffer media (initDisk buffer media) := ⟨rfl, rfl, rfl, rfl, Nat.zero_le 1⟩

/-- The registers are not part of it. -/
theorem Untouched.registers (h : Untouched buffer media s) (w d : Word) :
    Untouched buffer media { s with rxcs := w, rxdb := d } :=
  ⟨h.buffer, h.media, h.sector, h.track, h.idx⟩

theorem Untouched.setTransferFlag (h : Untouched buffer media s) :
    Untouched buffer media s.setTransferFlag := by
  obtain ⟨w, heq, -⟩ := setTransferFlag_spec s
  rw [heq]
  exact h.registers w s.rxdb

theorem Untouched.setDoneFlag (h : Untouched buffer media s) :
    Untouched buffer media s.setDoneFlag := by
  obtain ⟨w, heq, -⟩ := setDoneFlag_spec s
  rw [heq]
  exact h.registers w s.rxdb

theorem Untouched.request (h : Untouched buffer media s) (req : Xfer) :
    Untouched buffer media (pendingBusRequests req s).1 := by
  obtain ⟨w, d, heq, -⟩ := pendingBusRequests_spec s req
  rw [heq]
  exact h.registers w d

/-- A controller that hangs takes no step, but for the first byte of EMPTY. -/
theorem Hung.controllerStep_cases (h : Hung s) (hlt : s.bufferIdx < BUFFER_SIZE) :
    s.controllerStep = some s ∨ (s.bufferIdx = 0 ∧ s.controllerStep = some
      ({ s with rxdb := s.internalBuffer ⟨s.bufferIdx, hlt⟩,
                bufferIdx := s.bufferIdx + 1 } : DiskState).setTransferFlag) := by
  have hset : s.rxcs &&& RXCS_FLAG_XFER ≠ 0 → s.isTransferFlagSet = true :=
    (isTransferFlagSet_iff s).mpr
  rcases h.waits with ⟨hop, hfunc, hx⟩ | ⟨hop, hfunc, hx⟩ | ⟨hop, hfunc, hx⟩
  · left
    simp [DiskState.controllerStep, hop, hfunc, DiskState.fillBuffer, hset hx]
  · have hstep : s.controllerStep = s.emptyBuffer := by
      simp [DiskState.controllerStep, hop, hfunc]
    rw [hstep, DiskState.emptyBuffer]
    cases hflag : s.isTransferFlagSet with
    | true =>
      left
      rw [if_pos rfl, ite_self]
    | false =>
      have hidx : s.bufferIdx = 0 := hx.resolve_right fun hx => by
        rw [hset hx] at hflag
        cases hflag
      refine .inr ⟨hidx, ?_⟩
      rw [if_neg (show s.bufferIdx ≠ SECTOR_SIZE by rw [hidx]; decide),
        if_neg Bool.false_ne_true, dif_pos hlt]
      exact congrArg some (if_pos (show s.bufferIdx + 1 ≠ SECTOR_SIZE by rw [hidx]; decide))
  · left
    rcases hfunc with hfunc | hfunc <;>
      simp [DiskState.controllerStep, hop, hfunc, DiskState.readSector, DiskState.writeSector,
        sectorCommand, hset hx]

/-- A turn of a controller that hangs changes the registers, and counts one byte at most. -/
theorem Hung.turn (h : Hung s) (hc : Controlled s) (hs : DiskState.iteration req s = some s') :
    ∃ w d i, s' = { s with rxcs := w, rxdb := d, bufferIdx := i } ∧
      (s.bufferIdx ≤ 1 → i ≤ 1) := by
  have hreq := h.request req
  obtain ⟨w, d, heq, -⟩ := pendingBusRequests_spec s req
  rw [DiskState.iteration] at hs
  rw [heq] at hs hreq
  have hlt : s.bufferIdx < BUFFER_SIZE := hc.idx
  rcases hreq.controllerStep_cases hlt with hstep | ⟨hidx, hstep⟩
  · obtain rfl := Option.some.inj (hstep.symm.trans hs)
    exact ⟨w, d, s.bufferIdx, rfl, id⟩
  · obtain rfl := Option.some.inj (hstep.symm.trans hs)
    obtain ⟨w', heq', -⟩ := setTransferFlag_spec
      { s with rxcs := w, rxdb := s.internalBuffer ⟨s.bufferIdx, hlt⟩,
               bufferIdx := s.bufferIdx + 1 }
    refine ⟨w', _, s.bufferIdx + 1, heq', fun _ => ?_⟩
    dsimp only at hidx
    rw [hidx]

/-- A command starts without a transfer. -/
theorem Untouched.command (h : Untouched buffer media s) (function : Word) :
    Untouched buffer media (command function s) := by
  have hstart (op : DiskOp) (func : DiskFunc) :
      Untouched buffer media { s.clearAllFlags with op := op, func := func } :=
    ⟨h.buffer, h.media, h.sector, h.track, h.idx⟩
  unfold DiskState.command
  dsimp only
  split
  · exact (hstart .fill .fillBuffer).setTransferFlag
  · split
    · exact hstart .empty .emptyBuffer
    · split
      · exact (hstart .sector .writeSector).setTransferFlag
      · split
        · exact (hstart .sector .readSector).setTransferFlag
        · exact hstart s.op s.func

theorem Untouched.iteration (h : Untouched buffer media s) (hset : Settled s)
    (hs : DiskState.iteration req s = some s') : Untouched buffer media s' := by
  rcases hset.waits with hhung | hwait
  · obtain ⟨w, d, i, rfl, hidx⟩ := hhung.turn hset.controlled hs
    exact ⟨h.buffer, h.media, h.sector, h.track, hidx h.idx⟩
  -- no command runs: GO starts one, or the done flag goes up
  have hreq := h.request req
  obtain ⟨w, d, heq, -⟩ := pendingBusRequests_spec s req
  rw [DiskState.iteration, heq] at hs
  rw [heq] at hreq
  by_cases hgo : w &&& RXCS_FLAG_GO = 0
  · have hstep : DiskState.controllerStep { s with rxcs := w, rxdb := d }
        = some (if s.op = .done then
            ({ s with rxcs := w, rxdb := d, op := .begin } : DiskState).setDoneFlag
          else { s with rxcs := w, rxdb := d }) := by
      rcases hwait.op with hop | hop <;> simp [DiskState.controllerStep, hgo, hop, hwait.func]
    obtain rfl := Option.some.inj (hstep.symm.trans hs)
    split
    · exact Untouched.setDoneFlag ⟨h.buffer, h.media, h.sector, h.track, h.idx⟩
    · exact hreq
  · obtain rfl := Option.some.inj ((if_pos ⟨hgo, hwait.op⟩).symm.trans hs)
    exact hreq.command _

theorem Untouched.execute (h : Untouched buffer media s) (hset : Settled s) {reqs : List Xfer}
    (hs : execute reqs s = some s') : Untouched buffer media s' := by
  induction reqs generalizing s with
  | nil =>
    obtain rfl := Option.some.inj hs
    exact h
  | cons req reqs ih =>
    obtain ⟨s₁, hs₁, hrest⟩ := Option.bind_eq_some_iff.mp hs
    exact ih (h.iteration hset hs₁) (hset.iteration hs₁) hrest

theorem Hung.execute (h : Hung s) (hc : Controlled s) {reqs : List Xfer}
    (hs : execute reqs s = some s') : Hung s' ∧ SameCommand s s' := by
  induction reqs generalizing s with
  | nil =>
    obtain rfl := Option.some.inj hs
    exact ⟨h, rfl, rfl⟩
  | cons req reqs ih =>
    obtain ⟨s₁, hs₁, hrest⟩ := Option.bind_eq_some_iff.mp hs
    have hset : Settled s₁ := Settled.iteration ⟨hc, .inl h⟩ hs₁
    obtain ⟨hhung, hsame⟩ := ih (h.iteration hs₁) hset.controlled hrest
    obtain ⟨w, d, i, rfl, -⟩ := h.turn hc hs₁
    exact ⟨hhung, hsame.op, hsame.func⟩

end Turns

/-! ### The command that hangs -/

/-- The supported functions. -/
def started (function : Word) : DiskFunc :=
  if function = 0 then .fillBuffer
  else if function = 1 then .emptyBuffer
  else if function = 2 then .writeSector
  else .readSector

section Commands

variable {s s' : DiskState} {function : Word}

theorem started_ne_idle (function : Word) : started function ≠ .idle := by
  unfold started
  split_ifs <;> decide

theorem command_func (h : function < 4) : (command function s).func = started function := by
  have hcases : function = 0 ∨ function = 1 ∨ function = 2 ∨ function = 3 := by
    bv_omega
  have hset (t : DiskState) : t.setTransferFlag.func = t.func := by
    obtain ⟨w, heq, -⟩ := setTransferFlag_spec t
    rw [heq]
  rcases hcases with rfl | rfl | rfl | rfl <;> simp [DiskState.command, started, hset]

/-- A supported command hangs from its first turn on. -/
theorem hung_of_accepted (hset : Settled s) {req : Xfer}
    (hacc : accepted (pendingBusRequests req s).1 = some function) (h : function < 4)
    (hs : iteration req s = some s') : Hung s' ∧ s'.func = started function := by
  have hfunc : s'.func = started function := by
    rw [iteration, controllerStep_of_accepted hacc] at hs
    obtain rfl := Option.some.inj hs
    exact command_func h
  rcases (hset.iteration hs).waits with hhung | hwait
  · exact ⟨hhung, hfunc⟩
  · exact absurd (hfunc.symm.trans hwait.func) (started_ne_idle function)

end Commands

/-- **The disk stands still.**  Whatever the host does from `init_disk` on, the
    image and the buffer keep what they hold and no more than the first byte of
    the buffer is shown; and once a supported command has been accepted, it runs
    for ever: DONE never goes up and no other command is accepted. -/
theorem standstill (buffer : Fin BUFFER_SIZE → Word) (media : Option File) (reqs : List Xfer) :
    ∃ s, execute reqs (initDisk buffer media) = some s ∧ Untouched buffer media s ∧
      ∀ req function, accepted (pendingBusRequests req s).1 = some function → function < 4 →
        ∀ more t, execute (req :: more) s = some t →
          Untouched buffer media t ∧ t.func = started function ∧ t.rxcs &&& RXCS_FLAG_DONE = 0 ∧
            ∀ req', accepted (pendingBusRequests req' t).1 = none := by
  obtain ⟨s, hs, -⟩ := (controlled_init buffer media).execute reqs
  have hset := (settled_init buffer media).execute hs
  have hun := (untouched_init buffer media).execute (settled_init buffer media) hs
  refine ⟨s, hs, hun, fun req function hacc hlt more t ht => ?_⟩
  have htouch := hun.execute hset ht
  obtain ⟨s₁, hs₁, hrest⟩ := Option.bind_eq_some_iff.mp ht
  obtain ⟨hhung, hfunc⟩ := hung_of_accepted hset hacc hlt hs₁
  obtain ⟨hlast, hsame⟩ := hhung.execute (hset.iteration hs₁).controlled hrest
  exact ⟨htouch, hsame.func.trans hfunc, hlast.notDone, fun req' =>
    (hlast.request req').not_accepted⟩

/-- A READ SECTOR is accepted and never done. -/
example : (iteration (writeReg RXCS_ADDR 0o7) (initDisk (fun _ => 0) none)).map
    (fun s => (s.op, s.func, s.rxcs)) = some (.sector, .readSector, RXCS_FLAG_XFER) := by
  decide

end DiskState

end XMachine.Disk
