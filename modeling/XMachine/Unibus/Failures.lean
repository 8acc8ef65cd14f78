import XMachine.Unibus.Descriptors

namespace XMachine.Unibus.Sockets.Descriptors

open XMachine.Lib

/-!
# Failures — what is left of a handler whose system calls fail

The handlers return in the middle when `write` fails, go on when `connect` does,
and write to the descriptor their field held before the socket was opened.

* `Sound` — a datagram goes out on the socket opened for it, and every socket
  opened is closed again;
* `sockets_run_iff` — the runs in which all messages are handled so;
* `retried_iff` — the outcomes after which a request is neither forgotten nor on
  its way unknown to the device.
-/

/-! ### Sockets opened and closed -/

/-- The side a handler forwards a message to, or answers it on. -/
def chosen (pr : Pr) (req : PrReq) : Direction :=
  match req.sig with
  | .bg =>
    if pr.flags.brIssued && req.assertion then getFdDirection pr req true
    else if pr.flags.sackAsserted && !req.assertion then .none
    else getFdDirection pr req false
  | .npg => getFdDirection pr req pr.flags.nprIssued
  | _ => getFdDirection pr req false

/-- Every socket opened is closed as often. -/
def Balanced (calls : List SysCall) : Prop :=
  ∀ fd, fd ≠ -1 → calls.count (.socket fd) ≤ calls.count (.close fd)

/-- The datagrams go out on a socket opened and connected to `dir` just before. -/
def WritesOwn (dir : Direction) (calls : List SysCall) : Prop :=
  ∀ u fd req ok w, calls = u ++ .write fd req ok :: w →
    .socket fd ∈ u ∧ .connect fd dir true ∈ u ∧ .close fd ∉ u

/-- What a handler is to do with its sockets. -/
structure Sound (pr : Pr) (req : PrReq) (calls : List SysCall) : Prop where
  own : chosen pr req ≠ .none → WritesOwn (chosen pr req) calls
  closed : Balanced calls

/-- One message, and what the system returns while it is handled. -/
abbrev Message := PrReq × Outcomes

/-- What `priority_bus_mgr` does between two messages belongs to a run too: the
    device has a request out, or the bus, only if its flags have been polled. -/
inductive Event
  | message (m : Message)
  /-- The flags are polled, as the main thread has left them. -/
  | poll (reqMaster relMaster : Bool) (sys sys' : Outcomes)

def handle (e : Event) (pr : Pr) : Pr :=
  match e with
  | .message m => (processPrEvents m.2 pr m.1).1
  | .poll reqMaster relMaster sys sys' =>
    (pollFlags sys sys' { pr with flags := { pr.flags with
      reqMaster := reqMaster, relMaster := relMaster } }).1

/-- A message that comes is handled soundly. -/
def HandledSoundly (pr : Pr) : Event → Prop
  | .message m => Sound pr m.1 (processPrEvents m.2 pr m.1).2
  | .poll _ _ _ _ => True

/-- Every message of the run is handled soundly. -/
def AllSound (es : List Event) (pr : Pr) : Prop :=
  ∀ u e w, es = u ++ e :: w → HandledSoundly (runActs handle u pr) e

/-- The message makes the device announce that it takes the bus. -/
def Announces (pr : Pr) (req : PrReq) : Prop :=
  req.sig = .bg ∧ req.assertion = NEGATED ∧ pr.flags.sackAsserted = true ∧
    pr.flags.bbsyAsserted = false

/-- A side of an announcement: no neighbour, no socket, or no failure. -/
def SideHolds (sys : Outcomes) (dir : Direction) (pr : Pr) : Prop :=
  getFd pr dir = -1 ∨ (sys dir).socket = -1 ∨
    (sys dir).connect = true ∧ (sys dir).write = true

/-- When a message is handled soundly.  To forward or to answer, `socket` has to
    return the very number that the field holds already. -/
def CallsHold (pr : Pr) (m : Message) : Prop :=
  match chosen pr m.1 with
  | .none => Announces pr m.1 → SideHolds m.2 .left pr ∧ SideHolds m.2 .right pr
  | dir => (m.2 dir).socket = getFd pr dir ∧ (m.2 dir).connect = true ∧ (m.2 dir).write = true

/-- Polling the flags is not handling a message. -/
def EventHolds (pr : Pr) : Event → Prop
  | .message m => CallsHold pr m
  | .poll _ _ _ _ => True

section

variable {sys : Outcomes} {dir : Direction} {pr : Pr} {req : PrReq} {calls calls' : List SysCall}

theorem balanced_nil : Balanced [] := fun _ _ => Nat.le_refl 0

/-- Nothing is closed that was not opened. -/
def NoExtra (calls : List SysCall) : Prop :=
  ∀ fd, calls.count (.close fd) ≤ calls.count (.socket fd)

theorem balanced_append (h : NoExtra calls) (h' : NoExtra calls') :
    Balanced (calls ++ calls') ↔ Balanced calls ∧ Balanced calls' := by
  simp only [Balanced, List.count_append]
  constructor
  · intro hb
    refine ⟨fun fd hfd => ?_, fun fd hfd => ?_⟩
    · have := hb fd hfd
      have := h' fd
      omega
    · have := hb fd hfd
      have := h fd
      omega
  · rintro ⟨hb, hb'⟩ fd hfd
    exact Nat.add_le_add (hb fd hfd) (hb' fd hfd)

theorem noExtra_sendLine (hdir : dir ≠ .none) : NoExtra (sendLine sys dir req pr).2.2 := by
  intro fd
  rw [sendLine_eq hdir, connectSide]
  split
  · simp
  · split
    · simp
    · dsimp only
      split
      · split
        · simp [List.count_cons, hdir]
        · simp [List.count_cons]
      · simp [List.count_cons]

theorem balanced_sendLine (hdir : dir ≠ .none) :
    Balanced (sendLine sys dir req pr).2.2 ↔ SideHolds sys dir pr := by
  rw [sendLine_eq hdir, SideHolds]
  by_cases hfd : getFd pr dir = -1
  · rw [connectSide, if_pos hfd]
    exact iff_of_true balanced_nil (.inl hfd)
  · by_cases hs : (sys dir).socket = -1
    · rw [connectSide, if_neg hfd, if_pos hs]
      refine iff_of_true (fun fd hne => ?_) (.inr (.inl hs))
      simp [Ne.symm hne]
    · rw [connectSide_open hfd hs]
      dsimp only
      rw [getFd_setFd hdir]
      by_cases hc : (sys dir).connect = true
      · by_cases hw : (sys dir).write = true
        · rw [if_pos hc, if_pos hw]
          refine iff_of_true (fun fd _ => ?_) (.inr (.inr ⟨hc, hw⟩))
          simp [List.count_cons]
        · -- the handler returns before the socket is closed
          rw [if_pos hc, if_neg hw]
          refine iff_of_false (fun hb => ?_) (by simp [hfd, hs, hw])
          simpa [List.count_cons] using hb _ hs
      · -- the socket is left open
        rw [if_neg hc]
        refine iff_of_false (fun hb => ?_) (by simp [hfd, hs, hc])
        simpa [List.count_cons] using hb _ hs

/-- A failed `write` ends the announcement. -/
theorem sendLine_stops (hdir : dir ≠ .none) (h : (sendLine sys dir req pr).2.1 = false) :
    ¬ SideHolds sys dir pr := by
  rw [sendLine_eq hdir] at h
  rintro (hfd | hs | ⟨hc, hw⟩)
  · rw [connectSide, if_pos hfd] at h
    cases h
  · by_cases hfd : getFd pr dir = -1
    · rw [connectSide, if_pos hfd] at h
      cases h
    · rw [connectSide, if_neg hfd, if_pos hs] at h
      cases h
  · dsimp only at h
    rw [if_pos hw] at h
    split at h <;> cases h

theorem getFd_sendLine_left : getFd (sendLine sys .left req pr).1 .right = getFd pr .right := by
  rw [sendLine_eq (by decide), connectSide]
  dsimp only
  split
  · rfl
  · split
    · rfl
    · dsimp only
      split
      · split <;> rfl
      · rfl

theorem balanced_broadcast (sig : Signal) (b : Bool) :
    Balanced (broadcast sys sig b pr).2.2 ↔ SideHolds sys .left pr ∧ SideHolds sys .right pr := by
  unfold broadcast
  dsimp only
  split
  · dsimp only
    rw [balanced_append (noExtra_sendLine (by decide)) (noExtra_sendLine (by decide)),
      balanced_sendLine (by decide), balanced_sendLine (by decide)]
    simp only [SideHolds, getFd_sendLine_left]
  · next hstop =>
    have hleft := sendLine_stops (by decide) (Bool.eq_false_iff.mpr hstop)
    exact iff_of_false (fun hb => hleft ((balanced_sendLine (by decide)).mp hb)) fun h => hleft h.1

/-- To forward a message soundly takes the number the field held before. -/
theorem sendOut_sound (hfd : getFd pr dir ≠ -1) :
    WritesOwn dir (sendOut sys dir req pr).2.2 ∧ Balanced (sendOut sys dir req pr).2.2 ↔
      (sys dir).socket = getFd pr dir ∧ (sys dir).connect = true ∧ (sys dir).write = true := by
  have hdir : dir ≠ .none := fun h => hfd (by rw [h]; rfl)
  rw [sendOut_eq hdir]
  constructor
  · rintro ⟨hown, hb⟩
    -- what is written goes to the descriptor the field held before
    have hcalls : .socket (getFd pr dir) ∈ (connectSide dir (sys dir) pr).2.2 ∧
        .connect (getFd pr dir) dir true ∈ (connectSide dir (sys dir) pr).2.2 := by
      by_cases hw : (sys dir).write = true
      · rw [if_pos hw] at hown
        obtain ⟨hs, hc, -⟩ := hown _ _ _ _ _ rfl
        exact ⟨hs, hc⟩
      · rw [if_neg hw] at hown
        obtain ⟨hs, hc, -⟩ := hown _ _ _ _ _ rfl
        exact ⟨hs, hc⟩
    by_cases hs : (sys dir).socket = -1
    · rw [connectSide, if_neg hfd, if_pos hs] at hcalls
      simp at hcalls
    · rw [connectSide_open hfd hs] at hcalls hb
      obtain ⟨hsock, hconn⟩ : getFd pr dir = (sys dir).socket ∧ (sys dir).connect = true := by
        simpa using hcalls
      refine ⟨hsock.symm, hconn, by_contra fun hw => ?_⟩
      dsimp only at hb
      rw [if_neg hw] at hb
      simpa [List.count_cons] using hb _ hs
  · rintro ⟨hs, hc, hw⟩
    rw [connectSide_open hfd (hs ▸ hfd)]
    dsimp only
    rw [if_pos hw, getFd_setFd hdir, hs, hc]
    constructor
    · intro u fd r ok w hcalls
      -- the third call is the only `write`
      simp [List.cons_eq_append_iff] at hcalls
      obtain ⟨rfl, ⟨rfl, -, -⟩, -⟩ := hcalls
      simp
    · intro fd _
      simp [List.count_cons]

/-- An announcement, and nothing to forward. -/
theorem announces_calls (h : Announces pr req) : chosen pr req = .none ∧
    (processPrEvents sys pr req).2 = (broadcast sys .bbsy ASSERTED pr).2.2 := by
  obtain ⟨hsig, hneg, hsack, hbbsy⟩ := h
  have hcalls : (handleBg sys pr req).2 = (broadcast sys .bbsy ASSERTED pr).2.2 := by
    simp [handleBg, assertBbsy, commit, hneg, hsack, hbbsy]
  simp [chosen, processPrEvents, hsig, hneg, hsack, hcalls]

/-- Any other message is sent out to the chosen side. -/
theorem sends_calls (h : ¬ Announces pr req) : ∃ r pr', getFd pr' = getFd pr ∧
    (processPrEvents sys pr req).2 = (sendOut sys (chosen pr req) r pr').2.2 := by
  obtain ⟨field, sig, b⟩ := req
  cases sig with
  | br => exact ⟨_, pr, rfl, rfl⟩
  | npr => exact ⟨_, pr, rfl, rfl⟩
  | sack => exact ⟨_, pr, rfl, rfl⟩
  | bbsy =>
    refine ⟨_, { pr with flags := { pr.flags with bbsyAsserted := b } }, ?_, rfl⟩
    funext dir
    cases dir <;> rfl
  | bg =>
    show ∃ r pr', _ ∧ (handleBg sys pr _).2 = (sendOut sys (chosen pr ⟨field, .bg, b⟩) r pr').2.2
    unfold handleBg chosen
    dsimp only
    split
    · exact ⟨_, pr, rfl, rfl⟩
    · split
      · next hsack =>
        rw [Bool.and_eq_true, Bool.not_eq_true'] at hsack
        have hbbsy : pr.flags.bbsyAsserted = true := by
          by_contra hno
          exact h ⟨rfl, hsack.2, hsack.1, Bool.eq_false_iff.mpr hno⟩
        refine ⟨⟨field, .bg, b⟩, pr, rfl, ?_⟩
        rw [assertBbsy, if_pos hbbsy]
        rfl
      · exact ⟨_, pr, rfl, rfl⟩
  | npg =>
    show ∃ r pr', _ ∧ (handleNpg sys pr _).2 = (sendOut sys (chosen pr ⟨field, .npg, b⟩) r pr').2.2
    unfold handleNpg chosen
    dsimp only
    split
    · next hnpr =>
      rw [hnpr]
      exact ⟨_, pr, rfl, rfl⟩
    · next hnpr =>
      rw [Bool.eq_false_iff.mpr hnpr]
      exact ⟨_, pr, rfl, rfl⟩

theorem getFd_chosen (h : chosen pr req ≠ .none) : getFd pr (chosen pr req) ≠ -1 := by
  unfold chosen at h ⊢
  split at h
  · split_ifs at h ⊢
    · exact getFd_of_direction rfl h
    · exact absurd rfl h
    · exact getFd_of_direction rfl h
  · exact getFd_of_direction rfl h
  · exact getFd_of_direction rfl h

/-- **One message** is handled soundly exactly when `CallsHold`. -/
theorem sound_iff (e : Message) (pr : Pr) :
    Sound pr e.1 (processPrEvents e.2 pr e.1).2 ↔ CallsHold pr e := by
  by_cases hann : Announces pr e.1
  · obtain ⟨hnone, hcalls⟩ := announces_calls hann
    have hhold : CallsHold pr e ↔ SideHolds e.2 .left pr ∧ SideHolds e.2 .right pr := by
      rw [CallsHold, hnone]
      exact ⟨fun h => h hann, fun h _ => h⟩
    rw [hcalls, hhold, ← balanced_broadcast]
    exact ⟨fun h => h.closed, fun h => ⟨fun hne => absurd hnone hne, h⟩⟩
  · obtain ⟨r, pr', hfd, hcalls⟩ := sends_calls hann
    rw [hcalls]
    by_cases hnone : chosen pr e.1 = .none
    · -- nothing is sent
      have hhold : CallsHold pr e := by
        rw [CallsHold, hnone]
        exact fun h => absurd h hann
      rw [hnone]
      exact iff_of_true ⟨fun hne => absurd hnone hne, balanced_nil⟩ hhold
    · have hhold : CallsHold pr e ↔ (e.2 (chosen pr e.1)).socket = getFd pr (chosen pr e.1) ∧
          (e.2 (chosen pr e.1)).connect = true ∧ (e.2 (chosen pr e.1)).write = true := by
        unfold CallsHold
        cases hdir : chosen pr e.1 with
        | left => rfl
        | right => rfl
        | none => exact absurd hdir hnone
      have hne : getFd pr' (chosen pr e.1) ≠ -1 := hfd ▸ getFd_chosen hnone
      rw [hhold, ← congrFun hfd, ← sendOut_sound hne]
      exact ⟨fun h => ⟨h.own hnone, h.closed⟩, fun h => ⟨fun _ => h.1, h.2⟩⟩

end

theorem handledSoundly_iff (e : Event) (pr : Pr) : HandledSoundly pr e ↔ EventHolds pr e := by
  cases e with
  | message m => exact sound_iff m pr
  | poll reqMaster relMaster sys sys' => exact Iff.rfl

/-- A run is sound when every message of it is, from whatever state. -/
theorem allSound_iff_runMeets (es : List Event) (pr : Pr) :
    AllSound es pr ↔ RunMeets handle EventHolds es pr := by
  induction es generalizing pr with
  | nil =>
    refine iff_of_true (fun u e w h => ?_) trivial
    simp at h
  | cons e es ih =>
    rw [RunMeets, ← handledSoundly_iff, ← ih]
    exact forall_place_cons

/-- **Sockets in every run from the start.**  Whatever the memory of a new
    `pr_state` held, every datagram goes out on a socket of its own, and every
    socket is closed, exactly in the runs whose messages all meet `CallsHold`,
    wherever the flags are polled between them. -/
theorem sockets_run_iff (mem : Pr) (b : BusNames) (es : List Event) :
    AllSound es (initPr mem b) ↔ RunMeets handle EventHolds es (initPr mem b) :=
  allSound_iff_runMeets es _

/-- The device between the arbiter and a disk. -/
def between : BusNames := ⟨some NAME, ['m', 'e', 'm'], some ['d', 'i', 's', 'k']⟩

/-- Memory from `malloc` that holds zeros. -/
def zeroMemory : Pr := ⟨[], [], [], 0, 0, initDevice⟩

/-- The first message passed on: the socket is 5, and the datagram is written to
    what the field held before, 0. -/
theorem first_forward_unsound : ¬ ∀ (mem : Pr) (b : BusNames) (ms : List Message),
    b.lSock ≠ none ∨ b.rSock ≠ none → (∀ m ∈ ms, Succeeds m.2) →
      AllSound (ms.map .message) (initPr mem b) := by
  intro h
  have hsucc : Succeeds fun _ => ⟨5, true, true⟩ := fun _ =>
    ⟨show (5 : ℤ) ≠ -1 by decide, rfl, rfl⟩
  have hsound : Sound (initPr zeroMemory between) ⟨prSocket NAME, .br, ASSERTED⟩ _ :=
    h zeroMemory between [(⟨prSocket NAME, .br, ASSERTED⟩, fun _ => ⟨5, true, true⟩)]
      (.inl (Option.some_ne_none _)) (fun e he => by rwa [List.mem_singleton.mp he]) [] _ [] rfl
  have hdir : chosen (initPr zeroMemory between) ⟨prSocket NAME, .br, ASSERTED⟩ = .right := by
    decide +kernel
  have hown := hsound.own (by rw [hdir]; decide)
  -- the second call connects 5, the third writes to 0
  have hcalls : (processPrEvents (fun _ => ⟨5, true, true⟩) (initPr zeroMemory between)
      ⟨prSocket NAME, .br, ASSERTED⟩).2 = [.socket 5, .connect 5 .right true,
        .write 0 ⟨fromSelf (initPr zeroMemory between), .br, ASSERTED⟩ true, .close 5] := by
    decide +kernel
  obtain ⟨hsock, -, -⟩ := hown [.socket 5, .connect 5 .right true] 0 _ true [.close 5] hcalls
  simp at hsock

/-! ### A request that cannot be sent -/

/-- The request was written to a neighbour. -/
def Handed (pr : Pr) (calls : List SysCall) : Prop :=
  (⟨fromSelf pr, .br, ASSERTED⟩ : PrReq) ∈ written calls

instance (pr : Pr) (calls : List SysCall) : Decidable (Handed pr calls) :=
  inferInstanceAs (Decidable (_ ∈ written calls))

/-- A request that the main thread need not make again is on its way and known to
    the device; and none is on its way without the device knowing. -/
structure Retried (pr : Pr) (r : Pr × List SysCall) : Prop where
  cleared : r.1.flags.reqMaster = false → r.1.flags.brIssued = true ∧ Handed pr r.2
  issued : Handed pr r.2 → r.1.flags.brIssued = true

/-- There is a neighbour on this side, and a socket connected to it. -/
def Reached (sys : Outcomes) (dir : Direction) (pr : Pr) : Prop :=
  getFd pr dir ≠ -1 ∧ (sys dir).socket ≠ -1 ∧ (sys dir).connect = true

/-- The left neighbour gets the request and a failing `write` to the right makes
    no difference; or the left one is not reached and the right one gets it. -/
def RequestHolds (sys : Outcomes) (pr : Pr) : Prop :=
  Reached sys .left pr ∧ (sys .left).write = true ∧
      (Reached sys .right pr → (sys .right).write = true ∨ pr.flags.brIssued = true) ∨
    ¬ Reached sys .left pr ∧ Reached sys .right pr ∧ (sys .right).write = true

section

variable {sys : Outcomes} {dir : Direction} {pr : Pr} {req : PrReq}

theorem sendLine_reached (hdir : dir ≠ .none) (h : Reached sys dir pr) (req : PrReq) :
    let r := sendLine sys dir req pr
    r.2.1 = (sys dir).write ∧ written r.2.2 = (if (sys dir).write then [req] else []) ∧
      r.1.flags = pr.flags := by
  obtain ⟨hfd, hs, hc⟩ := h
  rw [sendLine_eq hdir, connectSide_open hfd hs]
  dsimp only
  rw [if_pos hc]
  split
  · next hw => exact ⟨hw.symm, rfl, setFd_flags _⟩
  · next hw => exact ⟨(Bool.eq_false_iff.mpr hw).symm, rfl, setFd_flags _⟩

theorem sendLine_unreached (hdir : dir ≠ .none) (h : ¬ Reached sys dir pr) (req : PrReq) :
    let r := sendLine sys dir req pr
    r.2.1 = true ∧ written r.2.2 = [] ∧ r.1.flags = pr.flags := by
  rw [sendLine_eq hdir]
  by_cases hfd : getFd pr dir = -1
  · rw [connectSide, if_pos hfd]
    exact ⟨rfl, rfl, rfl⟩
  · by_cases hs : (sys dir).socket = -1
    · rw [connectSide, if_neg hfd, if_pos hs]
      exact ⟨rfl, rfl, setFd_flags _⟩
    · have hc : ¬ (sys dir).connect = true := fun hc => h ⟨hfd, hs, hc⟩
      rw [connectSide_open hfd hs]
      dsimp only
      rw [if_neg hc]
      exact ⟨rfl, rfl, setFd_flags _⟩

/-- What comes of one side. -/
theorem sendLine_outcome (sys : Outcomes) (hdir : dir ≠ .none) (req : PrReq) (pr : Pr) :
    let r := sendLine sys dir req pr
    r.1.flags = pr.flags ∧
      (r.2.1 = true ↔ (Reached sys dir pr → (sys dir).write = true)) ∧
      (req ∈ written r.2.2 ↔ Reached sys dir pr ∧ (sys dir).write = true) := by
  dsimp only
  by_cases h : Reached sys dir pr
  · obtain ⟨hend, hw, hflags⟩ := sendLine_reached hdir h req
    refine ⟨hflags, by simp [hend, h], ?_⟩
    rw [hw]
    split <;> simp [*]
  · obtain ⟨hend, hw, hflags⟩ := sendLine_unreached hdir h req
    refine ⟨hflags, by simp [hend, h], ?_⟩
    simp [hw, h]

/-- What comes of a line of the device's own. -/
theorem broadcast_outcome (sys : Outcomes) (sig : Signal) (b : Bool) (pr : Pr) :
    let r := broadcast sys sig b pr
    r.1.flags = pr.flags ∧
      (r.2.1 = true ↔ (Reached sys .left pr → (sys .left).write = true) ∧
        (Reached sys .right pr → (sys .right).write = true)) ∧
      (⟨fromSelf pr, sig, b⟩ ∈ written r.2.2 ↔
        Reached sys .left pr ∧ (sys .left).write = true ∨
        (Reached sys .left pr → (sys .left).write = true) ∧
          Reached sys .right pr ∧ (sys .right).write = true) := by
  obtain ⟨hlf, hlend, hlw⟩ := sendLine_outcome sys (show Direction.left ≠ .none by decide)
    ⟨fromSelf pr, sig, b⟩ pr
  have hright : Reached sys .right (sendLine sys .left ⟨fromSelf pr, sig, b⟩ pr).1 ↔
      Reached sys .right pr := by
    rw [Reached, getFd_sendLine_left, Reached]
  unfold broadcast
  dsimp only
  split
  · next hend =>
    obtain ⟨hrf, hrend, hrw⟩ := sendLine_outcome sys (show Direction.right ≠ .none by decide)
      ⟨fromSelf pr, sig, b⟩ (sendLine sys .left ⟨fromSelf pr, sig, b⟩ pr).1
    have hleft := hlend.mp hend
    refine ⟨hrf.trans hlf, ?_, ?_⟩
    · rw [hrend, hright]
      exact ⟨fun h => ⟨hleft, h⟩, fun h => h.2⟩
    · rw [written_append, List.mem_append, hlw, hrw, hright]
      exact or_congr_right ⟨fun h => ⟨hleft, h⟩, fun h => h.2⟩
  · next hstop =>
    -- the left `write` failed
    have hleft : ¬ (Reached sys .left pr → (sys .left).write = true) := fun h => hstop (hlend.mpr h)
    refine ⟨hlf, ?_, ?_⟩
    · exact iff_of_false hstop fun h => hleft h.1
    · rw [hlw]
      exact ⟨.inl, fun h => h.resolve_right fun h => hleft h.1⟩

/-- The state `request_master` leaves while the bus is free. -/
theorem requestMaster_outcome (sys : Outcomes) (hbbsy : pr.flags.bbsyAsserted = false) :
    let r := requestMaster sys pr
    r.2 = (broadcast sys .br ASSERTED pr).2.2 ∧ r.1.flags.reqMaster = false ∧
      (r.1.flags.brIssued = true ↔
        (broadcast sys .br ASSERTED pr).2.1 = true ∨ pr.flags.brIssued = true) := by
  obtain ⟨hflags, -, -⟩ := broadcast_outcome sys .br ASSERTED pr
  have hbr : assertBr sys pr
      = commit (fun d => { d with brIssued := true }) (broadcast sys .br ASSERTED pr) := by
    rw [assertBr, hbbsy, Bool.false_and, if_neg Bool.false_ne_true]
  rw [requestMaster, hbbsy, if_neg Bool.false_ne_true, hbr]
  refine ⟨rfl, rfl, ?_⟩
  unfold commit
  dsimp only
  split
  · next hend => exact iff_of_true rfl (.inl hend)
  · next hend => rw [hflags, or_iff_right hend]

end

/-- **A failed request** is neither forgotten nor on its way unknown to the device
    exactly for the outcomes of `RequestHolds`. -/
theorem retried_iff {sys : Outcomes} {pr : Pr} (hbbsy : pr.flags.bbsyAsserted = false) :
    Retried pr (requestMaster sys pr) ↔ RequestHolds sys pr := by
  obtain ⟨-, hend, hsent⟩ := broadcast_outcome sys .br ASSERTED pr
  obtain ⟨hcalls, hreq, hbr⟩ := requestMaster_outcome sys hbbsy
  have hboth : Retried pr (requestMaster sys pr) ↔
      (requestMaster sys pr).1.flags.brIssued = true ∧ Handed pr (requestMaster sys pr).2 :=
    ⟨fun h => h.cleared hreq, fun h => ⟨fun _ => h, fun _ => h.1⟩⟩
  rw [hboth, hbr, hend, Handed, hcalls, hsent, RequestHolds]
  by_cases hl : Reached sys .left pr <;> by_cases hr : Reached sys .right pr <;>
    cases (sys .left).write <;> cases (sys .right).write <;> simp [hl, hr]

/-- Both neighbours take the request. -/
theorem retried_iff_both : Retried (initPr zeroMemory between)
    (requestMaster (fun _ => ⟨5, true, true⟩) (initPr zeroMemory between)) :=
  (retried_iff rfl).mpr
    (.inl ⟨⟨show (0 : ℤ) ≠ -1 by decide, show (5 : ℤ) ≠ -1 by decide, rfl⟩, rfl, fun _ => .inl rfl⟩)

/-- No neighbour is bound yet: the request is forgotten. -/
theorem request_lost : ¬ ∀ (sys : Outcomes) (pr : Pr), pr.flags.bbsyAsserted = false →
    pr.flags.reqMaster = true → Retried pr (requestMaster sys pr) := by
  intro h
  have hlost := (h (fun _ => ⟨5, false, false⟩)
    (initPr { zeroMemory with flags := { initDevice with reqMaster := true } } between)
    rfl rfl).cleared rfl
  exact absurd hlost.2 (by decide +kernel)

end XMachine.Unibus.Sockets.Descriptors
