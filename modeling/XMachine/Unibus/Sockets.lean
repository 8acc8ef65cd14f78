import Mathlib.Tactic.IntervalCases
import XMachine.Lib.CString
import XMachine.Unibus.Chain

namespace XMachine.Unibus.Sockets

open XMachine.Lib

/-!
# Sockets — the priority bus with socket paths

The handlers of `priority_bus_mgr` once more, with what the numbers of the chain
stand for: a datagram carries its sender's path in a field of `SOCK_NAME_LEN`
characters, a device knows its neighbours by their paths, and the direction of a
message comes from a `strncmp` of the two.

* `Chained` — devices whose names make a chain;
* `Wired` — what the handlers need of it;
* `processPrEvents_chain`, `pollFlags_chain` — in a chain these handlers do what
  the numbered ones do.
-/

abbrev SOCK_NAME_LEN : ℕ := 100

/-- `sizeof(sun_path)`. -/
abbrev SUN_PATH_LEN : ℕ := 108

/-- The path of a priority socket: `/tmp/xmachine/%s_pr.socket`. -/
def prSocket (name : CString) : CString :=
  ['/', 't', 'm', 'p', '/', 'x', 'm', 'a', 'c', 'h', 'i', 'n', 'e', '/'] ++ name ++
    ['_', 'p', 'r', '.', 's', 'o', 'c', 'k', 'e', 't']

/-- The arbiter's `NAME`. -/
def NAME : CString := ['c', 'p', 'u']

/-- `pr_bus_req_t`. -/
structure PrReq where
  fromField : List Char
  sig : Signal
  assertion : Bool
  deriving DecidableEq

/-- The names a device is started with; `none` is NULL. -/
structure BusNames where
  lSock : Option CString
  sock : CString
  rSock : Option CString

/-- The addresses of a `pr_state`.  Where there is no neighbour, its descriptor
    is `-1`. -/
structure PrState where
  prOutAddrL : Option CString
  prInAddr : CString
  prOutAddrR : Option CString

def initPrState (b : BusNames) : PrState where
  prOutAddrL := b.lSock.map prSocket
  prInAddr := prSocket b.sock
  prOutAddrR := b.rSock.map prSocket

/-- Datagrams on their way, each with the path it is sent to. -/
abbrev Outbox := List (CString × PrReq)

/-! ### Handlers -/

def getFdDirection (pr : PrState) (req : PrReq) (reply : Bool) : Direction :=
  match pr.prOutAddrL, pr.prOutAddrR with
  | none, none => .none
  | none, some _ => if reply then .right else .none
  | some _, none => if reply then .left else .none
  | some l, some _ =>
    if strncmpEq SOCK_NAME_LEN req.fromField l then (if reply then .left else .right)
    else (if reply then .right else .left)

/-- Connect in the given direction, write, close. -/
def write (pr : PrState) (dir : Direction) (req : PrReq) : Outbox :=
  match dir with
  | .left => (pr.prOutAddrL.map fun l => (l, req)).toList
  | .right => (pr.prOutAddrR.map fun r => (r, req)).toList
  | .none => []

/-- The device's own path as a `from` field. -/
def fromSelf (pr : PrState) : List Char := strncpy SOCK_NAME_LEN pr.prInAddr

def updateFromAddr (pr : PrState) (req : PrReq) : PrReq := { req with fromField := fromSelf pr }

def pass (pr : PrState) (req : PrReq) : Outbox :=
  write pr (getFdDirection pr req false) (updateFromAddr pr req)

def broadcast (pr : PrState) (sig : Signal) (assertion : Bool) : Outbox :=
  write pr .left ⟨fromSelf pr, sig, assertion⟩ ++ write pr .right ⟨fromSelf pr, sig, assertion⟩

def assertBr (pr : PrState) (d : Device) : Device × Outbox :=
  if d.bbsyAsserted && !d.brIssued then (d, [])
  else ({ d with brIssued := true }, broadcast pr .br ASSERTED)

def assertBbsy (pr : PrState) (d : Device) : Device × Outbox :=
  if d.bbsyAsserted then (d, [])
  else ({ d with bbsyAsserted := true, isMaster := true, reqMaster := false },
    broadcast pr .bbsy ASSERTED)

def negateSack (pr : PrState) (d : Device) : Device × Outbox :=
  if !d.sackAsserted then (d, [])
  else ({ d with sackAsserted := false, isMaster := false, reqMaster := false },
    broadcast pr .sack NEGATED)

def negateBbsy (pr : PrState) (d : Device) : Device × Outbox :=
  if !d.bbsyAsserted then (d, [])
  else ({ d with bbsyAsserted := false, isMaster := false, reqMaster := false, relMaster := false },
    broadcast pr .bbsy NEGATED)

def requestMaster (pr : PrState) (d : Device) : Device × Outbox :=
  if d.bbsyAsserted then (d, [])
  else
    let br := assertBr pr d
    ({ br.1 with reqMaster := false }, br.2)

def releaseMaster (pr : PrState) (d : Device) : Device × Outbox :=
  let sack := negateSack pr d
  let bbsy := negateBbsy pr sack.1
  (bbsy.1, sack.2 ++ bbsy.2)

def handleBr (pr : PrState) (d : Device) (req : PrReq) : Device × Outbox := (d, pass pr req)

def handleNpr (pr : PrState) (d : Device) (req : PrReq) : Device × Outbox := (d, pass pr req)

def handleSack (pr : PrState) (d : Device) (req : PrReq) : Device × Outbox := (d, pass pr req)

def handleBbsy (pr : PrState) (d : Device) (req : PrReq) : Device × Outbox :=
  ({ d with bbsyAsserted := req.assertion }, pass pr req)

def handleBg (pr : PrState) (d : Device) (req : PrReq) : Device × Outbox :=
  if d.brIssued && req.assertion then
    match getFdDirection pr req true with
    | .none => (d, [])
    | dir => ({ d with brIssued := false, sackAsserted := true },
        write pr dir ⟨fromSelf pr, .sack, ASSERTED⟩)
  else if d.sackAsserted && !req.assertion then assertBbsy pr d
  else (d, pass pr req)

def handleNpg (pr : PrState) (d : Device) (req : PrReq) : Device × Outbox :=
  if d.nprIssued then
    match getFdDirection pr req true with
    | .none => (d, [])
    | dir => ({ d with nprIssued := false, sackAsserted := true },
        write pr dir ⟨fromSelf pr, .sack, ASSERTED⟩)
  else (d, pass pr req)

def processPrEvents (pr : PrState) (d : Device) (req : PrReq) : Device × Outbox :=
  match req.sig with
  | .br => handleBr pr d req
  | .bg => handleBg pr d req
  | .npr => handleNpr pr d req
  | .npg => handleNpg pr d req
  | .sack => handleSack pr d req
  | .bbsy => handleBbsy pr d req

def pollFlags (pr : PrState) (d : Device) : Device × Outbox :=
  if d.reqMaster && !d.isMaster then requestMaster pr d
  else if d.relMaster && d.isMaster then releaseMaster pr d
  else (d, [])

/-! ### Chains -/

/-- The name of node `i`: the arbiter's, or that of a device. -/
def nodeName (dev : ℕ → BusNames) : ℕ → CString
  | 0 => NAME
  | i + 1 => (dev (i + 1)).sock

/-- The path node `i` is bound to. -/
def nodePath (dev : ℕ → BusNames) (i : ℕ) : CString := prSocket (nodeName dev i)

/-- The devices `1` to `n` make a chain behind the arbiter. -/
structure Chained (n : ℕ) (dev : ℕ → BusNames) : Prop where
  first : (dev 1).lSock = some NAME
  last : (dev n).rSock = none
  right : ∀ i, 1 ≤ i → i < n → (dev i).rSock = some (dev (i + 1)).sock
  left : ∀ i, 1 ≤ i → i < n → (dev (i + 1)).lSock = some (dev i).sock
  /-- Every node binds a path of its own. -/
  distinct : ∀ i j, i ≤ n → j ≤ n → nodeName dev i = nodeName dev j → i = j
  short : ∀ i, i ≤ n → (nodePath dev i).length < SOCK_NAME_LEN
  noNul : ∀ i, i ≤ n → NUL ∉ nodeName dev i

/-- The same with paths as long as `sun_path` can hold: `sprintf` writes a longer
    one past its end. -/
structure Wired (n : ℕ) (dev : ℕ → BusNames) : Prop where
  first : (dev 1).lSock = some NAME
  last : (dev n).rSock = none
  right : ∀ i, 1 ≤ i → i < n → (dev i).rSock = some (dev (i + 1)).sock
  left : ∀ i, 1 ≤ i → i < n → (dev (i + 1)).lSock = some (dev i).sock
  distinct : ∀ i j, i ≤ n → j ≤ n → nodeName dev i = nodeName dev j → i = j
  fits : ∀ i, i ≤ n → (nodePath dev i).length < SUN_PATH_LEN
  noNul : ∀ i, i ≤ n → NUL ∉ nodeName dev i

/-- A numbered datagram as it is sent. -/
def real (dev : ℕ → BusNames) (req : Unibus.PrReq) : PrReq where
  fromField := strncpy SOCK_NAME_LEN (nodePath dev req.fromNode)
  sig := req.sig
  assertion := req.assertion

def realOut (dev : ℕ → BusNames) (out : Unibus.Outbox) : Outbox :=
  out.map fun e => (nodePath dev e.1, real dev e.2)

theorem prSocket_injective : Function.Injective prSocket := by
  intro s t h
  rw [prSocket, prSocket] at h
  exact List.append_cancel_left (List.append_cancel_right h)

theorem nul_notMem_prSocket {name : CString} (h : NUL ∉ name) : NUL ∉ prSocket name := by
  simp only [prSocket, List.mem_append, not_or]
  exact ⟨⟨by decide, h⟩, by decide⟩

/-- `_` stands at the beginning of the suffix only. -/
theorem suffix_getElem?_ne {d : ℕ} (hd : 0 < d) :
    ['_', 'p', 'r', '.', 's', 'o', 'c', 'k', 'e', 't'][d]? ≠ some '_' := by
  by_cases h : d < 10
  · interval_cases d <;> decide
  · rw [List.getElem?_eq_none (by simpa using h)]
    exact (Option.some_ne_none _).symm

/-- What the field holds of a path tells the names apart: only the end of the
    suffix can be cut off. -/
theorem eq_of_prSocket_take {a b : CString} (ha : (prSocket a).length < SUN_PATH_LEN)
    (hb : (prSocket b).length < SUN_PATH_LEN)
    (h : (prSocket a).take SOCK_NAME_LEN = (prSocket b).take SOCK_NAME_LEN) : a = b := by
  wlog hle : a.length ≤ b.length generalizing a b
  · exact (this hb ha h.symm (Nat.le_of_not_le hle)).symm
  have hb' : b.length ≤ 83 := by
    simp only [prSocket, SUN_PATH_LEN, List.length_append, List.length_cons, List.length_nil] at hb
    omega
  -- the characters of the field after the directory
  have hat : ∀ i, i < 86 → (a ++ ['_', 'p', 'r', '.', 's', 'o', 'c', 'k', 'e', 't'])[i]?
      = (b ++ ['_', 'p', 'r', '.', 's', 'o', 'c', 'k', 'e', 't'])[i]? := by
    intro i hi
    have hget := congrArg (fun l : List Char => l[14 + i]?) h
    simp [prSocket, Nat.add_comm 14 i] at hget
    rwa [List.getElem?_take_of_lt hi, List.getElem?_take_of_lt hi] at hget
  have hlen : a.length = b.length := by
    by_contra hne
    -- at the end of `b` the suffix begins, and in `a` it began earlier
    have hend := hat b.length (by omega)
    rw [List.getElem?_append_right (by omega), List.getElem?_append_right (by omega),
      Nat.sub_self] at hend
    exact suffix_getElem?_ne (by omega) hend
  refine List.ext_getElem? fun i => ?_
  by_cases hi : i < a.length
  · have hc := hat i (by omega)
    rwa [List.getElem?_append_left hi, List.getElem?_append_left (by omega)] at hc
  · rw [List.getElem?_eq_none (by omega), List.getElem?_eq_none (by omega)]

theorem Chained.wired {n : ℕ} {dev : ℕ → BusNames} (C : Chained n dev) : Wired n dev where
  first := C.first
  last := C.last
  right := C.right
  left := C.left
  distinct := C.distinct
  fits i hi := Nat.lt_of_lt_of_le (C.short i hi) (by decide)
  noNul := C.noNul

namespace Wired

variable {n i j : ℕ} {dev : ℕ → BusNames}

theorem nodePath_inj (W : Wired n dev) (hi : i ≤ n) (hj : j ≤ n) :
    nodePath dev i = nodePath dev j ↔ i = j := by
  constructor
  · intro h
    exact W.distinct i j hi hj (prSocket_injective h)
  · rintro rfl
    rfl

/-- The `from` field tells the nodes apart. -/
theorem strncmpEq_iff (W : Wired n dev) (hi : i ≤ n) (hj : j ≤ n) :
    strncmpEq SOCK_NAME_LEN (strncpy SOCK_NAME_LEN (nodePath dev i)) (nodePath dev j) = true ↔
      i = j := by
  rw [nodePath, nodePath, strncmpEq_strncpy (nul_notMem_prSocket (W.noNul i hi))
    (nul_notMem_prSocket (W.noNul j hj))]
  refine ⟨fun h => ?_, fun h => by rw [h]⟩
  exact W.distinct i j hi hj (eq_of_prSocket_take (W.fits i hi) (W.fits j hj) h)

/-- What `init_pr_state` makes of the names of device `i`. -/
theorem initPrState_eq (W : Wired n dev) (h1 : 1 ≤ i) (hn : i ≤ n) :
    initPrState (dev i) = ⟨some (nodePath dev (i - 1)), nodePath dev i,
      if i < n then some (nodePath dev (i + 1)) else none⟩ := by
  obtain ⟨i, rfl⟩ := Nat.exists_eq_add_of_le' h1
  -- the left neighbour of the first device is the arbiter
  have hleft : (dev (i + 1)).lSock = some (nodeName dev i) := by
    cases i with
    | zero => exact W.first
    | succ i => exact W.left (i + 1) (by omega) (by omega)
  have hright : (dev (i + 1)).rSock
      = if i + 1 < n then some (nodeName dev (i + 1 + 1)) else none := by
    split
    · next hlt => exact W.right (i + 1) h1 hlt
    · next hge =>
      obtain rfl : i + 1 = n := by omega
      exact W.last
  rw [initPrState, hleft, hright, PrState.mk.injEq]
  refine ⟨rfl, rfl, ?_⟩
  split <;> rfl

end Wired

/-! ### The numbered handlers are these -/

section Numbers

variable {n i : ℕ} {dev : ℕ → BusNames}

theorem getFdDirection_chain (W : Wired n dev) (h1 : 1 ≤ i) (hn : i ≤ n)
    (req : Unibus.PrReq) (hfrom : req.fromNode ≤ n) (reply : Bool) :
    getFdDirection (initPrState (dev i)) (real dev req) reply
      = Unibus.getFdDirection (wiring n i) req reply := by
  rw [W.initPrState_eq h1 hn]
  by_cases hlt : i < n
  · have hiff := W.strncmpEq_iff hfrom (show i - 1 ≤ n by omega)
    simp only [getFdDirection, Unibus.getFdDirection, wiring, hlt, if_true, real, hiff]
  · simp [getFdDirection, Unibus.getFdDirection, wiring, hlt]

theorem write_chain (W : Wired n dev) (h1 : 1 ≤ i) (hn : i ≤ n) (dir : Direction)
    (req : Unibus.PrReq) :
    write (initPrState (dev i)) dir (real dev req)
      = realOut dev (Unibus.write (wiring n i) dir req) := by
  rw [W.initPrState_eq h1 hn]
  cases dir with
  | left => rfl
  | right =>
    simp only [write, Unibus.write, wiring]
    split <;> rfl
  | none => rfl

/-- A datagram of the device's own. -/
theorem real_self (W : Wired n dev) (h1 : 1 ≤ i) (hn : i ≤ n) (sig : Signal) (b : Bool) :
    (⟨fromSelf (initPrState (dev i)), sig, b⟩ : PrReq) = real dev ⟨i, sig, b⟩ := by
  rw [fromSelf, W.initPrState_eq h1 hn]
  rfl

theorem pass_chain (W : Wired n dev) (h1 : 1 ≤ i) (hn : i ≤ n) (req : Unibus.PrReq)
    (hfrom : req.fromNode ≤ n) :
    pass (initPrState (dev i)) (real dev req) = realOut dev (Unibus.pass (wiring n i) req) := by
  rw [pass, getFdDirection_chain W h1 hn req hfrom, updateFromAddr]
  -- what is passed on carries the device's own path
  have hself := real_self W h1 hn req.sig req.assertion
  exact (congrArg (write _ _) hself).trans (write_chain W h1 hn _ _)

theorem broadcast_chain (W : Wired n dev) (h1 : 1 ≤ i) (hn : i ≤ n) (sig : Signal) (b : Bool) :
    broadcast (initPrState (dev i)) sig b
      = realOut dev (Unibus.broadcast (wiring n i) sig b) := by
  rw [broadcast, real_self W h1 hn, write_chain W h1 hn, write_chain W h1 hn, Unibus.broadcast,
    realOut, realOut, realOut, List.map_append]
  rfl

/-- The result of a numbered handler as it is sent. -/
def realPost (dev : ℕ → BusNames) (r : Device × Unibus.Outbox) : Device × Outbox :=
  (r.1, realOut dev r.2)

theorem assertBr_chain (W : Wired n dev) (h1 : 1 ≤ i) (hn : i ≤ n) (d : Device) :
    assertBr (initPrState (dev i)) d = realPost dev (Unibus.assertBr (wiring n i) d) := by
  unfold assertBr Unibus.assertBr
  rw [broadcast_chain W h1 hn]
  split <;> rfl

theorem assertBbsy_chain (W : Wired n dev) (h1 : 1 ≤ i) (hn : i ≤ n) (d : Device) :
    assertBbsy (initPrState (dev i)) d = realPost dev (Unibus.assertBbsy (wiring n i) d) := by
  unfold assertBbsy Unibus.assertBbsy
  rw [broadcast_chain W h1 hn]
  split <;> rfl

theorem negateSack_chain (W : Wired n dev) (h1 : 1 ≤ i) (hn : i ≤ n) (d : Device) :
    negateSack (initPrState (dev i)) d = realPost dev (Unibus.negateSack (wiring n i) d) := by
  unfold negateSack Unibus.negateSack
  rw [broadcast_chain W h1 hn]
  split <;> rfl

theorem negateBbsy_chain (W : Wired n dev) (h1 : 1 ≤ i) (hn : i ≤ n) (d : Device) :
    negateBbsy (initPrState (dev i)) d = realPost dev (Unibus.negateBbsy (wiring n i) d) := by
  unfold negateBbsy Unibus.negateBbsy
  rw [broadcast_chain W h1 hn]
  split <;> rfl

/-- An acknowledgement in the direction `dir`, if there is one. -/
theorem reply_chain (W : Wired n dev) (h1 : 1 ≤ i) (hn : i ≤ n) (d d' : Device)
    (dir : Direction) :
    (match dir with
      | .none => (d, [])
      | dir => (d', write (initPrState (dev i)) dir ⟨fromSelf (initPrState (dev i)), .sack, true⟩))
    = realPost dev (match dir with
      | .none => (d, [])
      | dir => (d', Unibus.write (wiring n i) dir ⟨i, .sack, true⟩)) := by
  rw [real_self W h1 hn]
  cases dir with
  | left => exact congrArg (Prod.mk d') (write_chain W h1 hn .left _)
  | right => exact congrArg (Prod.mk d') (write_chain W h1 hn .right _)
  | none => rfl

/-- **In a chain the handlers of paths are those of numbers**: one datagram. -/
theorem processPrEvents_chain (W : Wired n dev) (h1 : 1 ≤ i) (hn : i ≤ n) (d : Device)
    (req : Unibus.PrReq) (hfrom : req.fromNode ≤ n) :
    processPrEvents (initPrState (dev i)) d (real dev req)
      = realPost dev (Unibus.processPrEvents (wiring n i) d req) := by
  have hpass := pass_chain W h1 hn req hfrom
  obtain ⟨src, sig, b⟩ := req
  cases sig with
  | br => exact congrArg (Prod.mk _) hpass
  | npr => exact congrArg (Prod.mk _) hpass
  | sack => exact congrArg (Prod.mk _) hpass
  | bbsy => exact congrArg (Prod.mk _) hpass
  | bg =>
    show handleBg _ d _ = realPost dev (Unibus.handleBg _ d _)
    unfold handleBg Unibus.handleBg
    -- direction, BBSY and passing on agree; the branches are the same
    rw [getFdDirection_chain W h1 hn _ hfrom, assertBbsy_chain W h1 hn, hpass]
    by_cases hbr : (d.brIssued && b) = true
    · have hbr' : (d.brIssued && (real dev ⟨src, .bg, b⟩).assertion) = true := hbr
      rw [if_pos hbr', if_pos hbr]
      exact reply_chain W h1 hn d _ _
    · have hbr' : ¬ (d.brIssued && (real dev ⟨src, .bg, b⟩).assertion) = true := hbr
      rw [if_neg hbr', if_neg hbr]
      split
      · next hsack => exact congrArg (realPost dev) (if_pos hsack).symm
      · next hsack =>
        show realPost dev (d, Unibus.pass (wiring n i) ⟨src, .bg, b⟩) = _
        exact congrArg (realPost dev) (if_neg hsack).symm
  | npg =>
    show handleNpg _ d _ = realPost dev (Unibus.handleNpg _ d _)
    unfold handleNpg Unibus.handleNpg
    rw [getFdDirection_chain W h1 hn _ hfrom, hpass]
    split
    · exact reply_chain W h1 hn d _ _
    · rfl

/-- **In a chain the handlers of paths are those of numbers**: the flags polled. -/
theorem pollFlags_chain (W : Wired n dev) (h1 : 1 ≤ i) (hn : i ≤ n) (d : Device) :
    pollFlags (initPrState (dev i)) d = realPost dev (Unibus.pollFlags (wiring n i) d) := by
  unfold pollFlags Unibus.pollFlags
  split
  · unfold requestMaster Unibus.requestMaster
    rw [assertBr_chain W h1 hn]
    split <;> rfl
  · split
    · simp only [releaseMaster, Unibus.releaseMaster, negateSack_chain W h1 hn, realPost,
        negateBbsy_chain W h1 hn, realOut, List.map_append]
    · rfl

end Numbers

end XMachine.Unibus.Sockets
