import XMachine.Disk.Transfer

namespace XMachine.Disk

open XMachine.Lib XMachine.Cpu XMachine.Unibus

/-!
# Commands — what GO starts

A write to RXCS puts bits up and takes none down, so what the controller finds
in the function field when it sees GO is more than the value just written.

* `Settled` — between turns the controller waits for GO or hangs in a command;
* `Waiting.accepted_iff` — hence a command is accepted in the turn that writes GO;
* `runsAsWritten_iff` — when the function is the one written.
-/

namespace DiskState

/-- The value that a request writes to RXCS. -/
def rxcsWrite (req : Xfer) : Option Word :=
  if (req.op = .rBlockOut ∨ req.op = .rBlockOutb) ∧ req.addr = RXCS_ADDR then some req.value
  else none

/-- The value last written to RXCS. -/
def lastRxcsWrite (reqs : List Xfer) : Option Word := (reqs.filterMap rxcsWrite).getLast?

/-- The function field. -/
def functionSelect (w : Word) : Word := (w &&& RXCS_FLAG_FS) >>> 1

/-- The function of the command that the controller accepts, if it accepts one. -/
def accepted (s : DiskState) : Option Word :=
  if s.rxcs &&& RXCS_FLAG_GO ≠ 0 ∧ (s.op = .begin ∨ s.op = .done) then some (functionSelect s.rxcs)
  else none

/-- In each turn of `execute` the function accepted is that of the value last
    written to RXCS, and the value has GO. -/
def RunsAsWritten (s₀ : DiskState) (reqs : List Xfer) : Prop :=
  ∀ u req w, reqs = u ++ req :: w → ∀ s, execute u s₀ = some s →
    ∀ function, accepted (pendingBusRequests req s).1 = some function →
      ∃ v, lastRxcsWrite (u ++ [req]) = some v ∧ v &&& RXCS_FLAG_GO ≠ 0 ∧
        function = functionSelect v

/-- Each time GO is written to a controller in BEGIN or DONE, the value has all
    the function bits that RXCS has at that time. -/
def LeftoversCovered (s₀ : DiskState) (reqs : List Xfer) : Prop :=
  ∀ u req w, reqs = u ++ req :: w → ∀ s, execute u s₀ = some s →
    ∀ v, rxcsWrite req = some v → v &&& RXCS_FLAG_GO ≠ 0 → (s.op = .begin ∨ s.op = .done) →
      s.rxcs &&& RXCS_FLAG_FS &&& ~~~v = 0

section Requests

variable {s : DiskState} {req : Xfer} {v : Word}

/-- The step of the controller is then that command. -/
theorem controllerStep_of_accepted {function : Word} (h : accepted s = some function) :
    s.controllerStep = some (command function s) := by
  unfold accepted at h
  split at h
  · next hgo =>
    obtain rfl := Option.some.inj h
    exact if_pos hgo
  · cases h

theorem pendingBusRequests_of_rxcsWrite (h : rxcsWrite req = some v) :
    (pendingBusRequests req s).1 = s.setStatusRegister v := by
  unfold rxcsWrite at h
  split at h
  · next hw =>
    obtain rfl := Option.some.inj h
    rcases hw.1 with hop | hop <;> simp only [pendingBusRequests, hop, if_pos hw.2]
  · cases h

/-- Only a write to RXCS puts GO up. -/
theorem go_down_of_rxcsWrite_none (h : rxcsWrite req = none) (hgo : s.rxcs &&& RXCS_FLAG_GO = 0) :
    (pendingBusRequests req s).1.rxcs &&& RXCS_FLAG_GO = 0 := by
  have hclear : s.rxcs &&& RXCS_FLAG_XFER &&& RXCS_FLAG_GO = 0 := and_and_of_disjoint rfl
  have haddr (hop : req.op = .rBlockOut ∨ req.op = .rBlockOutb) : req.addr ≠ RXCS_ADDR := by
    intro hne
    rw [rxcsWrite, if_pos ⟨hop, hne⟩] at h
    cases h
  unfold pendingBusRequests
  split
  · split_ifs
    · exact hgo
    · exact hclear
    · exact hgo
  · next hop =>
    rw [if_neg (haddr (.inl hop))]
    split_ifs
    · exact hclear
    · exact hgo
  · next hop =>
    rw [if_neg (haddr (.inr hop))]
    split_ifs
    · exact hclear
    · exact hgo
  · exact hgo

theorem setStatusRegister_go (hgo : s.rxcs &&& RXCS_FLAG_GO = 0) :
    (s.setStatusRegister v).rxcs &&& RXCS_FLAG_GO = v &&& RXCS_FLAG_GO := by
  show (s.rxcs ||| v &&& RXCS_WRITE_MASK) &&& RXCS_FLAG_GO = _
  rw [BitVec.and_or_distrib_right, hgo, BitVec.and_assoc]
  exact BitVec.zero_or

/-- The function field after a write is the one written when that covers what was there. -/
theorem functionSelect_setStatusRegister_iff :
    functionSelect (s.setStatusRegister v).rxcs = functionSelect v ↔
      s.rxcs &&& RXCS_FLAG_FS &&& ~~~v = 0 := by
  have hlow : ∀ x : Word, ∀ i < 1, (x &&& RXCS_FLAG_FS).getLsbD i = false := by
    intro x i hi
    obtain rfl : i = 0 := by omega
    simp [RXCS_FLAG_FS]
  have hfield : (s.setStatusRegister v).rxcs &&& RXCS_FLAG_FS
      = s.rxcs &&& RXCS_FLAG_FS ||| v &&& RXCS_FLAG_FS := by
    show (s.rxcs ||| v &&& RXCS_WRITE_MASK) &&& RXCS_FLAG_FS = _
    rw [BitVec.and_or_distrib_right, BitVec.and_assoc v]
    rfl
  have hnot : s.rxcs &&& RXCS_FLAG_FS &&& ~~~(v &&& RXCS_FLAG_FS)
      = s.rxcs &&& RXCS_FLAG_FS &&& ~~~v := by
    rw [BitVec.not_and, BitVec.and_or_distrib_left,
      and_and_of_disjoint (m := RXCS_FLAG_FS) (k := ~~~RXCS_FLAG_FS) rfl]
    exact BitVec.or_zero
  rw [functionSelect, functionSelect, ushiftRight_inj (hlow _) (hlow _), hfield, or_eq_right_iff,
    hnot]

theorem lastRxcsWrite_append (u : List Xfer) (h : rxcsWrite req = some v) :
    lastRxcsWrite (u ++ [req]) = some v := by
  simp [lastRxcsWrite, List.filterMap_append, h]

end Requests

/-! ### Between turns -/

/-- The controller waits for a command, GO down, or hangs in one. -/
structure Settled (s : DiskState) : Prop where
  controlled : Controlled s
  waits : Hung s ∨ Waiting s

theorem settled_init (buffer : Fin BUFFER_SIZE → Word) (media : Option File) :
    Settled (initDisk buffer media) :=
  ⟨controlled_init buffer media, .inr ⟨.inl rfl, rfl, BitVec.zero_and, BitVec.zero_and⟩⟩

section Turns

variable {s s' : DiskState} {req : Xfer}

theorem Hung.not_idle (h : Hung s) : ¬ (s.op = .begin ∨ s.op = .done) := by
  rcases h.waits with ⟨hop, -⟩ | ⟨hop, -⟩ | ⟨hop, -⟩ <;> rw [hop] <;> decide

theorem Hung.not_accepted (h : Hung s) : accepted s = none := if_neg fun hgo => h.not_idle hgo.2

/-- A command is accepted in the turn that writes GO, with what is in the function field then. -/
theorem Waiting.accepted_iff (h : Waiting s) {function : Word} :
    accepted (pendingBusRequests req s).1 = some function ↔
      ∃ v, rxcsWrite req = some v ∧ v &&& RXCS_FLAG_GO ≠ 0 ∧
        function = functionSelect (s.setStatusRegister v).rxcs := by
  cases hw : rxcsWrite req with
  | none =>
    have hgo := go_down_of_rxcsWrite_none hw h.go
    simp [accepted, hgo]
  | some v =>
    have hop : (s.setStatusRegister v).op = .begin ∨ (s.setStatusRegister v).op = .done := h.op
    rw [pendingBusRequests_of_rxcsWrite hw]
    rw [accepted, setStatusRegister_go h.go]
    simp only [hop, and_true]
    simp [eq_comm]

theorem Settled.iteration (h : Settled s) (hs : iteration req s = some s') : Settled s' := by
  have hreq := h.controlled.request req
  refine ⟨?_, ?_⟩
  · obtain ⟨s₁, hs₁, h₁⟩ := hreq.controllerStep
    obtain rfl := Option.some.inj (hs₁.symm.trans hs)
    exact h₁
  rcases h.waits with hhung | hwait
  · exact .inl (hhung.iteration hs)
  obtain ⟨w, d, heq, hxfer, -⟩ := pendingBusRequests_spec s req
  rw [DiskState.iteration] at hs
  rw [heq] at hreq hs
  by_cases hgo : w &&& RXCS_FLAG_GO = 0
  · have hwait' : Waiting { s with rxcs := w, rxdb := d } :=
      ⟨hwait.op, hwait.func, hxfer.trans hwait.transfer, hgo⟩
    exact .inr (hwait'.controllerStep hs)
  · obtain rfl := Option.some.inj ((if_pos ⟨hgo, hwait.op⟩).symm.trans hs)
    refine command_hung_or_waiting (s := { s with rxcs := w, rxdb := d }) hwait.op hwait.func ?_ _
    -- no byte has been moved where no command runs
    exact h.controlled.idx_of_idle hwait.op

theorem Settled.execute (h : Settled s) {reqs : List Xfer} (hs : execute reqs s = some s') :
    Settled s' := by
  induction reqs generalizing s with
  | nil =>
    obtain rfl := Option.some.inj hs
    exact h
  | cons req reqs ih =>
    obtain ⟨s₁, hs₁, hrest⟩ := Option.bind_eq_some_iff.mp hs
    exact ih (h.iteration hs₁) hrest

/-- One turn takes the command as written exactly when what is left is covered. -/
theorem Settled.asWritten_iff (h : Settled s) (u : List Xfer) :
    (∀ function, accepted (pendingBusRequests req s).1 = some function →
      ∃ v, lastRxcsWrite (u ++ [req]) = some v ∧ v &&& RXCS_FLAG_GO ≠ 0 ∧
        function = functionSelect v) ↔
      ∀ v, rxcsWrite req = some v → v &&& RXCS_FLAG_GO ≠ 0 → (s.op = .begin ∨ s.op = .done) →
        s.rxcs &&& RXCS_FLAG_FS &&& ~~~v = 0 := by
  rcases h.waits with hhung | hwait
  · refine iff_of_true (fun function hf => ?_) (fun v _ _ hop => absurd hop hhung.not_idle)
    rw [(hhung.request req).not_accepted] at hf
    cases hf
  · constructor
    · intro hwritten v hv hgo _
      obtain ⟨v', hlast, -, hfun⟩ := hwritten _ (hwait.accepted_iff.mpr ⟨v, hv, hgo, rfl⟩)
      rw [lastRxcsWrite_append u hv] at hlast
      obtain rfl := Option.some.inj hlast
      exact functionSelect_setStatusRegister_iff.mp hfun
    · intro hcovered function hf
      obtain ⟨v, hv, hgo, rfl⟩ := hwait.accepted_iff.mp hf
      exact ⟨v, lastRxcsWrite_append u hv, hgo,
        functionSelect_setStatusRegister_iff.mpr (hcovered v hv hgo hwait.op)⟩

end Turns

/-- **The command written is the command run** exactly when no write of GO meets
    function bits in RXCS that its value does not have: bits of earlier writes
    without GO stay up until an access of RXDB or a command takes them down. -/
theorem runsAsWritten_iff (buffer : Fin BUFFER_SIZE → Word) (media : Option File)
    (reqs : List Xfer) :
    RunsAsWritten (initDisk buffer media) reqs ↔ LeftoversCovered (initDisk buffer media) reqs := by
  refine forall_congr' fun u => forall_congr' fun req => forall_congr' fun w =>
    forall_congr' fun _ => forall_congr' fun s => forall_congr' fun hs => ?_
  exact ((settled_init buffer media).execute hs).asWritten_iff u

/-- Function 2 written without GO, then GO with EMPTY: the controller takes it
    for function 3, READ SECTOR. -/
theorem empty_reads_sector :
    ¬ RunsAsWritten (initDisk (fun _ => 0) none)
      [writeReg RXCS_ADDR 0o4, writeReg RXCS_ADDR GO_EMPTY] := by
  intro h
  obtain ⟨v, hlast, -, hfun⟩ := h [writeReg RXCS_ADDR 0o4] (writeReg RXCS_ADDR GO_EMPTY) [] rfl
    _ rfl 3 rfl
  obtain rfl := Option.some.inj hlast
  exact absurd hfun (by decide)

end DiskState

end XMachine.Disk
