import XMachine.Lib.Simulation
import XMachine.Unibus.Sockets

namespace XMachine.Unibus.Sockets.Descriptors

open XMachine.Lib

/-!
# Descriptors — the priority bus with its system calls

The handlers of `priority_bus_mgr` a third time, now with the two descriptor
fields of `pr_state` and with system calls that may fail.  A field is the
descriptor of the socket last opened to that side and, being `-1`, the mark for a
missing neighbour.

* `Outcome` — what `socket`, `connect` and `write` return in one call of a handler;
* `SysCall` — the calls a handler makes, in order;
* `processPrEvents_succeeds`, `pollFlags_succeeds` — where no call fails, flags
  and datagrams are those of the handlers in `Sockets`.
-/

/-- `pr_state`.  The addresses are those in the two `sun_path`. -/
structure Pr where
  outAddrL : CString
  inAddr : CString
  outAddrR : CString
  busOutL : ℤ
  busOutR : ℤ
  flags : Device

/-- What the system returns to a handler that tries one side: the number from
    `socket`, and whether `connect` and `write` succeed. -/
structure Outcome where
  socket : ℤ
  connect : Bool
  write : Bool

/-- No handler tries a side twice. -/
abbrev Outcomes := Direction → Outcome

inductive SysCall
  | socket (fd : ℤ)
  | connect (fd : ℤ) (dir : Direction) (ok : Bool)
  | write (fd : ℤ) (req : PrReq) (ok : Bool)
  | close (fd : ℤ)
  deriving DecidableEq

/-- `init_pr_state`, on memory from `malloc` that holds `mem`.  A descriptor is
    set only where there is no neighbour. -/
def initPr (mem : Pr) (b : BusNames) : Pr where
  outAddrL := (b.lSock.map prSocket).getD mem.outAddrL
  inAddr := prSocket b.sock
  outAddrR := (b.rSock.map prSocket).getD mem.outAddrR
  busOutL := if b.lSock = none then -1 else mem.busOutL
  busOutR := if b.rSock = none then -1 else mem.busOutR
  flags := { mem.flags with
    nprIssued := false, brIssued := false, bbsyAsserted := false, sackAsserted := false }

/-! ### Connecting and closing -/

def getFd (pr : Pr) : Direction → ℤ
  | .left => pr.busOutL
  | .right => pr.busOutR
  | .none => -1

def Pr.setFd (pr : Pr) (fd : ℤ) : Direction → Pr
  | .left => { pr with busOutL := fd }
  | .right => { pr with busOutR := fd }
  | .none => pr

/-- The common text of `pr_connect_l` and `pr_connect_r`, and whether it succeeds. -/
def connectSide (dir : Direction) (o : Outcome) (pr : Pr) : Pr × Bool × List SysCall :=
  if getFd pr dir = -1 then (pr, false, [])
  else if o.socket = -1 then (pr.setFd (-1) dir, false, [.socket (-1)])
  else (pr.setFd o.socket dir, o.connect, [.socket o.socket, .connect o.socket dir o.connect])

def prConnectL : Outcome → Pr → Pr × Bool × List SysCall := connectSide .left

def prConnectR : Outcome → Pr → Pr × Bool × List SysCall := connectSide .right

def prConnect (dir : Direction) (sys : Outcomes) (pr : Pr) : Pr × Bool × List SysCall :=
  match dir with
  | .left => prConnectL (sys .left) pr
  | .right => prConnectR (sys .right) pr
  | .none => (pr, false, [])

/-- The descriptor stays in its field. -/
def prCloseL (pr : Pr) : List SysCall := [.close pr.busOutL]

def prCloseR (pr : Pr) : List SysCall := [.close pr.busOutR]

def prClose (dir : Direction) (pr : Pr) : List SysCall :=
  match dir with
  | .left => prCloseL pr
  | .right => prCloseR pr
  | .none => []

/-! ### Sending -/

def getFdDirection (pr : Pr) (req : PrReq) (reply : Bool) : Direction :=
  if pr.busOutL = -1 ∧ pr.busOutR = -1 then .none
  else if pr.busOutL = -1 then (if reply then .right else .none)
  else if pr.busOutR = -1 then (if reply then .left else .none)
  else if strncmpEq SOCK_NAME_LEN req.fromField pr.outAddrL then (if reply then .left else .right)
  else (if reply then .right else .left)

/-- The device's own path as a `from` field. -/
def fromSelf (pr : Pr) : List Char := strncpy SOCK_NAME_LEN pr.inAddr

def updateFromAddr (pr : Pr) (req : PrReq) : PrReq := { req with fromField := fromSelf pr }

/-- What all handlers do to forward or to answer, and whether they come to its
    end.  The descriptor is read before the side is connected. -/
def sendOut (sys : Outcomes) (dir : Direction) (req : PrReq) (pr : Pr) :
    Pr × Bool × List SysCall :=
  match dir with
  | .none => (pr, false, [])
  | dir =>
    let outFd := getFd pr dir
    let c := prConnect dir sys pr
    if (sys dir).write then
      (c.1, true, c.2.2 ++ .write outFd req true :: prClose dir c.1)
    else (c.1, false, c.2.2 ++ [.write outFd req false])

/-- One side of a line of the device's own; `false` is a return after a failed `write`. -/
def sendLine (sys : Outcomes) (dir : Direction) (req : PrReq) (pr : Pr) :
    Pr × Bool × List SysCall :=
  let c := prConnect dir sys pr
  if c.2.1 then
    if (sys dir).write then
      (c.1, true, c.2.2 ++ .write (getFd c.1 dir) req true :: prClose dir c.1)
    else (c.1, false, c.2.2 ++ [.write (getFd c.1 dir) req false])
  else (c.1, true, c.2.2)

/-- A line of the device's own: to the left, then to the right. -/
def broadcast (sys : Outcomes) (sig : Signal) (assertion : Bool) (pr : Pr) :
    Pr × Bool × List SysCall :=
  let req : PrReq := ⟨fromSelf pr, sig, assertion⟩
  let l := sendLine sys .left req pr
  if l.2.1 then
    let r := sendLine sys .right req l.1
    (r.1, r.2.1, l.2.2 ++ r.2.2)
  else l

/-- New flags, for a send that came to its end. -/
def commit (f : Device → Device) (r : Pr × Bool × List SysCall) : Pr × List SysCall :=
  (if r.2.1 then { r.1 with flags := f r.1.flags } else r.1, r.2.2)

/-! ### The device's own lines -/

def assertBr (sys : Outcomes) (pr : Pr) : Pr × List SysCall :=
  if pr.flags.bbsyAsserted && !pr.flags.brIssued then (pr, [])
  else commit (fun d => { d with brIssued := true }) (broadcast sys .br ASSERTED pr)

def assertBbsy (sys : Outcomes) (pr : Pr) : Pr × List SysCall :=
  if pr.flags.bbsyAsserted then (pr, [])
  else
    commit (fun d => { d with bbsyAsserted := true, isMaster := true, reqMaster := false })
      (broadcast sys .bbsy ASSERTED pr)

def negateSack (sys : Outcomes) (pr : Pr) : Pr × List SysCall :=
  if !pr.flags.sackAsserted then (pr, [])
  else
    commit (fun d => { d with sackAsserted := false, isMaster := false, reqMaster := false })
      (broadcast sys .sack NEGATED pr)

def negateBbsy (sys : Outcomes) (pr : Pr) : Pr × List SysCall :=
  if !pr.flags.bbsyAsserted then (pr, [])
  else
    commit
      (fun d =>
        { d with bbsyAsserted := false, isMaster := false, reqMaster := false, relMaster := false })
      (broadcast sys .bbsy NEGATED pr)

def requestMaster (sys : Outcomes) (pr : Pr) : Pr × List SysCall :=
  if pr.flags.bbsyAsserted then (pr, [])
  else
    let br := assertBr sys pr
    ({ br.1 with flags := { br.1.flags with reqMaster := false } }, br.2)

/-- Two lines one after the other; each has outcomes of its own. -/
def releaseMaster (sys sys' : Outcomes) (pr : Pr) : Pr × List SysCall :=
  let sack := negateSack sys pr
  let bbsy := negateBbsy sys' sack.1
  (bbsy.1, sack.2 ++ bbsy.2)

/-! ### Handlers -/

/-- Pass a message on, away from the node it came from. -/
def pass (sys : Outcomes) (pr : Pr) (req : PrReq) : Pr × List SysCall :=
  commit id (sendOut sys (getFdDirection pr req false) (updateFromAddr pr req) pr)

/-- Answer a grant. -/
def acknowledge (sys : Outcomes) (f : Device → Device) (pr : Pr) (req : PrReq) :
    Pr × List SysCall :=
  commit f (sendOut sys (getFdDirection pr req true) ⟨fromSelf pr, .sack, ASSERTED⟩ pr)

def handleBr (sys : Outcomes) (pr : Pr) (req : PrReq) : Pr × List SysCall := pass sys pr req

def handleNpr (sys : Outcomes) (pr : Pr) (req : PrReq) : Pr × List SysCall := pass sys pr req

def handleSack (sys : Outcomes) (pr : Pr) (req : PrReq) : Pr × List SysCall := pass sys pr req

def handleBbsy (sys : Outcomes) (pr : Pr) (req : PrReq) : Pr × List SysCall :=
  pass sys { pr with flags := { pr.flags with bbsyAsserted := req.assertion } } req

def handleBg (sys : Outcomes) (pr : Pr) (req : PrReq) : Pr × List SysCall :=
  if pr.flags.brIssued && req.assertion then
    acknowledge sys (fun d => { d with brIssued := false, sackAsserted := true }) pr req
  else if pr.flags.sackAsserted && !req.assertion then assertBbsy sys pr
  else pass sys pr req

def handleNpg (sys : Outcomes) (pr : Pr) (req : PrReq) : Pr × List SysCall :=
  if pr.flags.nprIssued then
    acknowledge sys (fun d => { d with nprIssued := false, sackAsserted := true }) pr req
  else pass sys pr req

def processPrEvents (sys : Outcomes) (pr : Pr) (req : PrReq) : Pr × List SysCall :=
  match req.sig with
  | .br => handleBr sys pr req
  | .bg => handleBg sys pr req
  | .npr => handleNpr sys pr req
  | .npg => handleNpg sys pr req
  | .sack => handleSack sys pr req
  | .bbsy => handleBbsy sys pr req

def pollFlags (sys sys' : Outcomes) (pr : Pr) : Pr × List SysCall :=
  if pr.flags.reqMaster && !pr.flags.isMaster then requestMaster sys pr
  else if pr.flags.relMaster && pr.flags.isMaster then releaseMaster sys sys' pr
  else (pr, [])

/-! ### One side -/

section

variable {sys : Outcomes} {dir : Direction} {pr : Pr} {req : PrReq} {reply : Bool}

@[simp] theorem setFd_flags (fd : ℤ) : (pr.setFd fd dir).flags = pr.flags := by cases dir <;> rfl
@[simp] theorem setFd_inAddr (fd : ℤ) : (pr.setFd fd dir).inAddr = pr.inAddr := by cases dir <;> rfl

@[simp] theorem getFd_setFd (h : dir ≠ .none) (fd : ℤ) : getFd (pr.setFd fd dir) dir = fd := by
  cases dir with
  | left => rfl
  | right => rfl
  | none => exact absurd rfl h

theorem prConnect_eq (h : dir ≠ .none) : prConnect dir sys pr = connectSide dir (sys dir) pr := by
  cases dir with
  | left => rfl
  | right => rfl
  | none => exact absurd rfl h

theorem prClose_eq (h : dir ≠ .none) : prClose dir pr = [.close (getFd pr dir)] := by
  cases dir with
  | left => rfl
  | right => rfl
  | none => exact absurd rfl h

/-- A message is only sent to a side with a neighbour. -/
theorem getFd_of_direction (h : getFdDirection pr req reply = dir) (hdir : dir ≠ .none) :
    getFd pr dir ≠ -1 := by
  subst h
  unfold getFdDirection at hdir ⊢
  split_ifs at hdir ⊢ with hboth hl <;>
    first | exact absurd rfl hdir | assumption | exact fun hr => hboth ⟨hl, hr⟩

/-- `connect` after `socket`. -/
theorem connectSide_open {o : Outcome} (hfd : getFd pr dir ≠ -1) (hs : o.socket ≠ -1) :
    connectSide dir o pr
      = (pr.setFd o.socket dir, o.connect,
          [.socket o.socket, .connect o.socket dir o.connect]) := by
  rw [connectSide, if_neg hfd, if_neg hs]

theorem sendOut_eq (h : dir ≠ .none) : sendOut sys dir req pr =
    let c := connectSide dir (sys dir) pr
    if (sys dir).write then
      (c.1, true, c.2.2 ++ [.write (getFd pr dir) req true, .close (getFd c.1 dir)])
    else (c.1, false, c.2.2 ++ [.write (getFd pr dir) req false]) := by
  cases dir with
  | left => rfl
  | right => rfl
  | none => exact absurd rfl h

theorem sendLine_eq (h : dir ≠ .none) : sendLine sys dir req pr =
    let c := connectSide dir (sys dir) pr
    if c.2.1 then
      if (sys dir).write then
        (c.1, true, c.2.2 ++ [.write (getFd c.1 dir) req true, .close (getFd c.1 dir)])
      else (c.1, false, c.2.2 ++ [.write (getFd c.1 dir) req false])
    else (c.1, true, c.2.2) := by
  rw [sendLine, prConnect_eq h]
  dsimp only
  rw [prClose_eq h]

end

/-! ### Where no call fails -/

/-- The fields of `pr_state` for the addresses `p`. -/
structure Fits (p : PrState) (pr : Pr) : Prop where
  left : pr.busOutL = -1 ↔ p.prOutAddrL = none
  right : pr.busOutR = -1 ↔ p.prOutAddrR = none
  addrL : ∀ l, p.prOutAddrL = some l → pr.outAddrL = l
  self : pr.inAddr = p.prInAddr

/-- No call returns `-1`. -/
def Succeeds (sys : Outcomes) : Prop :=
  ∀ dir, (sys dir).socket ≠ -1 ∧ (sys dir).connect = true ∧ (sys dir).write = true

/-- The datagrams written. -/
def written (calls : List SysCall) : List PrReq :=
  calls.filterMap fun
    | .write _ req true => some req
    | _ => none

/-- The handler with system calls does what the one without does. -/
structure Agrees (p : PrState) (r : Pr × List SysCall) (r' : Device × Outbox) : Prop where
  flags : r.1.flags = r'.1
  sent : written r.2 = r'.2.map Prod.snd
  fits : Fits p r.1

section

variable {p : PrState} {sys : Outcomes} {dir : Direction} {pr : Pr} {req : PrReq} {reply : Bool}

/-- What `init_pr_state` builds, unless the memory held `-1` in a field. -/
theorem fits_initPr (mem : Pr) (b : BusNames) (hl : mem.busOutL ≠ -1) (hr : mem.busOutR ≠ -1) :
    Fits (initPrState b) (initPr mem b) where
  left := by cases h : b.lSock <;> simp [initPr, initPrState, h, hl]
  right := by cases h : b.rSock <;> simp [initPr, initPrState, h, hr]
  addrL l h := by
    obtain ⟨name, hname, rfl⟩ := Option.map_eq_some_iff.mp h
    simp [initPr, hname]
  self := rfl

theorem Fits.getFdDirection (F : Fits p pr) :
    getFdDirection pr req reply = Sockets.getFdDirection p req reply := by
  unfold Descriptors.getFdDirection Sockets.getFdDirection
  cases hl : p.prOutAddrL with
  | none =>
    cases hr : p.prOutAddrR with
    | none => simp [F.left.mpr hl, F.right.mpr hr]
    | some r =>
      have hr' : pr.busOutR ≠ -1 := fun h => by simp [F.right.mp h] at hr
      simp [F.left.mpr hl, hr']
  | some l =>
    have hl' : pr.busOutL ≠ -1 := fun h => by simp [F.left.mp h] at hl
    cases hr : p.prOutAddrR with
    | none => simp [hl', F.right.mpr hr]
    | some r =>
      have hr' : pr.busOutR ≠ -1 := fun h => by simp [F.right.mp h] at hr
      simp [hl', hr', F.addrL l hl]

theorem Fits.fromSelf (F : Fits p pr) : fromSelf pr = Sockets.fromSelf p := by
  rw [Descriptors.fromSelf, F.self, Sockets.fromSelf]

theorem Fits.setFd (F : Fits p pr) (hfd : getFd pr dir ≠ -1) {fd : ℤ} (h : fd ≠ -1) :
    Fits p (pr.setFd fd dir) := by
  cases dir with
  | left =>
    refine ⟨iff_of_false h fun hp => hfd (F.left.mpr hp), F.right, F.addrL, F.self⟩
  | right =>
    refine ⟨F.left, iff_of_false h fun hp => hfd (F.right.mpr hp), F.addrL, F.self⟩
  | none => exact F

/-- A side with a neighbour is written to. -/
theorem Fits.write (F : Fits p pr) (hfd : getFd pr dir ≠ -1) :
    (Sockets.write p dir req).map Prod.snd = [req] := by
  cases dir with
  | left =>
    cases hl : p.prOutAddrL with
    | none => exact absurd (F.left.mpr hl) hfd
    | some l => simp [Sockets.write, hl]
  | right =>
    cases hr : p.prOutAddrR with
    | none => exact absurd (F.right.mpr hr) hfd
    | some r => simp [Sockets.write, hr]
  | none => exact absurd rfl hfd

/-- A side without a neighbour is not. -/
theorem Fits.write_none (F : Fits p pr) (hfd : getFd pr dir = -1) :
    Sockets.write p dir req = [] := by
  cases dir with
  | left => simp [Sockets.write, F.left.mp hfd]
  | right => simp [Sockets.write, F.right.mp hfd]
  | none => rfl

theorem sendOut_succeeds (F : Fits p pr) (hsys : Succeeds sys) (hfd : getFd pr dir ≠ -1) :
    let r := sendOut sys dir req pr
    r.2.1 = true ∧ r.1.flags = pr.flags ∧ Fits p r.1 ∧
      written r.2.2 = (Sockets.write p dir req).map Prod.snd := by
  have hdir : dir ≠ .none := fun h => hfd (by rw [h]; rfl)
  obtain ⟨hs, hc, hw⟩ := hsys dir
  rw [sendOut_eq hdir, connectSide_open hfd hs]
  dsimp only
  rw [if_pos hw, F.write hfd]
  exact ⟨rfl, setFd_flags _, F.setFd hfd hs, rfl⟩

theorem sendLine_succeeds (F : Fits p pr) (hsys : Succeeds sys) (dir : Direction)
    (hdir : dir ≠ .none) (req : PrReq) :
    let r := sendLine sys dir req pr
    r.2.1 = true ∧ r.1.flags = pr.flags ∧ Fits p r.1 ∧
      written r.2.2 = (Sockets.write p dir req).map Prod.snd := by
  obtain ⟨hs, hc, hw⟩ := hsys dir
  rw [sendLine_eq hdir]
  by_cases hfd : getFd pr dir = -1
  · rw [connectSide, if_pos hfd, F.write_none hfd]
    exact ⟨rfl, rfl, F, rfl⟩
  · rw [connectSide_open hfd hs]
    dsimp only
    rw [if_pos hc, if_pos hw, F.write hfd]
    exact ⟨rfl, setFd_flags _, F.setFd hfd hs, rfl⟩

theorem written_append (calls calls' : List SysCall) :
    written (calls ++ calls') = written calls ++ written calls' := List.filterMap_append

theorem broadcast_succeeds (F : Fits p pr) (hsys : Succeeds sys) (sig : Signal) (b : Bool) :
    let r := broadcast sys sig b pr
    r.2.1 = true ∧ r.1.flags = pr.flags ∧ Fits p r.1 ∧
      written r.2.2 = (Sockets.broadcast p sig b).map Prod.snd := by
  obtain ⟨hl, hlf, hlfits, hlw⟩ := sendLine_succeeds F hsys .left (by decide) _
  obtain ⟨hr, hrf, hrfits, hrw⟩ := sendLine_succeeds hlfits hsys .right (by decide) _
  unfold broadcast
  dsimp only
  rw [if_pos hl]
  refine ⟨hr, hrf.trans hlf, hrfits, ?_⟩
  rw [written_append, hlw, hrw, Sockets.broadcast, List.map_append, F.fromSelf]

/-- A send that comes to its end, with the flags it then sets. -/
theorem agrees_commit {r : Pr × Bool × List SysCall} {out : Outbox} (f : Device → Device)
    (h : r.2.1 = true ∧ r.1.flags = pr.flags ∧ Fits p r.1 ∧ written r.2.2 = out.map Prod.snd) :
    Agrees p (commit f r) (f pr.flags, out) := by
  obtain ⟨hend, hflags, hfits, hw⟩ := h
  rw [commit, if_pos hend]
  exact ⟨congrArg f hflags, hw, hfits.left, hfits.right, hfits.addrL, hfits.self⟩

theorem Fits.agrees (F : Fits p pr) : Agrees p (pr, []) (pr.flags, []) := ⟨rfl, rfl, F⟩

theorem Fits.setFlags (F : Fits p pr) (d : Device) : Fits p { pr with flags := d } :=
  ⟨F.left, F.right, F.addrL, F.self⟩

theorem assertBr_succeeds (F : Fits p pr) (hsys : Succeeds sys) :
    Agrees p (assertBr sys pr) (Sockets.assertBr p pr.flags) := by
  unfold assertBr Sockets.assertBr
  split
  · exact F.agrees
  · exact agrees_commit _ (broadcast_succeeds F hsys .br ASSERTED)

theorem assertBbsy_succeeds (F : Fits p pr) (hsys : Succeeds sys) :
    Agrees p (assertBbsy sys pr) (Sockets.assertBbsy p pr.flags) := by
  unfold assertBbsy Sockets.assertBbsy
  split
  · exact F.agrees
  · exact agrees_commit _ (broadcast_succeeds F hsys .bbsy ASSERTED)

theorem negateSack_succeeds (F : Fits p pr) (hsys : Succeeds sys) :
    Agrees p (negateSack sys pr) (Sockets.negateSack p pr.flags) := by
  unfold negateSack Sockets.negateSack
  split
  · exact F.agrees
  · exact agrees_commit _ (broadcast_succeeds F hsys .sack NEGATED)

theorem negateBbsy_succeeds (F : Fits p pr) (hsys : Succeeds sys) :
    Agrees p (negateBbsy sys pr) (Sockets.negateBbsy p pr.flags) := by
  unfold negateBbsy Sockets.negateBbsy
  split
  · exact F.agrees
  · exact agrees_commit _ (broadcast_succeeds F hsys .bbsy NEGATED)

theorem pass_succeeds (F : Fits p pr) (hsys : Succeeds sys) :
    Agrees p (pass sys pr req) (pr.flags, Sockets.pass p req) := by
  rw [pass, F.getFdDirection, Sockets.pass, updateFromAddr, Sockets.updateFromAddr, F.fromSelf]
  by_cases hdir : Sockets.getFdDirection p req false = .none
  · rw [hdir]
    exact F.agrees
  · have hfd := getFd_of_direction F.getFdDirection hdir
    exact agrees_commit id (sendOut_succeeds F hsys hfd)

/-- A grant answered, or not where there is no neighbour. -/
theorem acknowledge_succeeds (F : Fits p pr) (hsys : Succeeds sys) (f : Device → Device) :
    Agrees p (acknowledge sys f pr req)
      (match Sockets.getFdDirection p req true with
        | .none => (pr.flags, [])
        | dir => (f pr.flags, Sockets.write p dir ⟨Sockets.fromSelf p, .sack, ASSERTED⟩)) := by
  rw [acknowledge, F.getFdDirection, F.fromSelf]
  cases hdir : Sockets.getFdDirection p req true with
  | none => exact F.agrees
  | left =>
    have hfd := getFd_of_direction (F.getFdDirection.trans hdir) (by decide)
    exact agrees_commit f (sendOut_succeeds F hsys hfd)
  | right =>
    have hfd := getFd_of_direction (F.getFdDirection.trans hdir) (by decide)
    exact agrees_commit f (sendOut_succeeds F hsys hfd)

/-- **Where no call fails**, one datagram: the flags and the datagrams of `Sockets`. -/
theorem processPrEvents_succeeds (F : Fits p pr) (hsys : Succeeds sys) (req : PrReq) :
    Agrees p (processPrEvents sys pr req) (Sockets.processPrEvents p pr.flags req) := by
  unfold processPrEvents Sockets.processPrEvents
  cases req.sig with
  | br => exact pass_succeeds F hsys
  | npr => exact pass_succeeds F hsys
  | sack => exact pass_succeeds F hsys
  | bbsy => exact pass_succeeds (F.setFlags _) hsys
  | bg =>
    show Agrees p (handleBg sys pr req) (Sockets.handleBg p pr.flags req)
    unfold handleBg Sockets.handleBg
    split
    · exact acknowledge_succeeds F hsys _
    · split
      · exact assertBbsy_succeeds F hsys
      · exact pass_succeeds F hsys
  | npg =>
    show Agrees p (handleNpg sys pr req) (Sockets.handleNpg p pr.flags req)
    unfold handleNpg Sockets.handleNpg
    split
    · exact acknowledge_succeeds F hsys _
    · exact pass_succeeds F hsys

/-- **Where no call fails**, the flags polled. -/
theorem pollFlags_succeeds {sys' : Outcomes} (F : Fits p pr) (hsys : Succeeds sys)
    (hsys' : Succeeds sys') :
    Agrees p (pollFlags sys sys' pr) (Sockets.pollFlags p pr.flags) := by
  unfold pollFlags Sockets.pollFlags
  split
  · unfold requestMaster Sockets.requestMaster
    split
    · exact F.agrees
    · have h := assertBr_succeeds F hsys
      exact ⟨congrArg (fun d : Device => { d with reqMaster := false }) h.flags, h.sent,
        h.fits.setFlags _⟩
  · split
    · have hsack := negateSack_succeeds F hsys
      have hbbsy := negateBbsy_succeeds hsack.fits hsys'
      rw [hsack.flags] at hbbsy
      refine ⟨hbbsy.flags, ?_, hbbsy.fits⟩
      rw [releaseMaster, Sockets.releaseMaster]
      dsimp only
      rw [written_append, hsack.sent, hbbsy.sent, List.map_append]
    · exact F.agrees

end

end XMachine.Unibus.Sockets.Descriptors
