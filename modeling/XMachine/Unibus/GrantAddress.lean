import XMachine.Lib.Simulation
import XMachine.Unibus.Sockets

namespace XMachine.Unibus.Sockets

open XMachine.Lib

/-!
# Grant address — where the arbiter's datagrams go

The arbiter keeps the path it is bound to and the address of its client, which
`init_arb` fills with the arbiter's name and nothing changes later.  Every grant
is sent to that address and carries it in `from`: `grant_to_client`.  A path of
the bus is never a bare name, so no grant reaches a device.
-/

/-- `arb_state`: the lines and the two addresses. -/
structure Arb where
  lines : ArbState
  socket : CString
  currentClient : CString

/-- `sizeof(sun_path) - 1`. -/
abbrev SUN_PATH_MAX : ℕ := 107

/-- `init_arb(n_sock)` and `setup_arb_socket()`. -/
def initArbSockets (nSock : CString) : Arb where
  lines := initArb
  socket := prSocket NAME
  currentClient := nSock.take SUN_PATH_MAX

/-- The state `bus_arb_mgr` starts with. -/
def startArb : Arb := initArbSockets NAME

/-- A grant handed to `sendto`. -/
def sendGrant (a : Arb) (g : Grant) : CString × PrReq :=
  (a.currentClient, ⟨strncpy SOCK_NAME_LEN a.currentClient, g.1, g.2⟩)

/-- One message taken by `listen_priority`, which looks at its line and level only. -/
def listenPriority (a : Arb) (req : PrReq) : Arb × Option (CString × PrReq) :=
  let r := Unibus.listenPriority a.lines ⟨0, req.sig, req.assertion⟩
  ({ a with lines := r.1 }, r.2.map (sendGrant a))

/-- The grants sent for a sequence of messages, each with the message it answers. -/
def grants : Arb → List PrReq → List (PrReq × CString × PrReq)
  | _, [] => []
  | a, req :: reqs =>
    (((listenPriority a req).2.map fun out => (req, out)).toList) ++
      grants (listenPriority a req).1 reqs

/-- The grant goes to the neighbour that sent the message it answers, from the
    arbiter's own path. -/
def ToBus (e : PrReq × CString × PrReq) : Prop :=
  ∃ name, e.1.fromField = strncpy SOCK_NAME_LEN (prSocket name) ∧ e.2.1 = prSocket name ∧
    e.2.2.fromField = strncpy SOCK_NAME_LEN (prSocket NAME)

/-- The level of SACK after the messages: that of the last one, or negated. -/
def sackLevel : Bool → List PrReq → Bool
  | level, [] => level
  | level, req :: reqs => sackLevel (if req.sig = .sack then req.assertion else level) reqs

/-- Every request among the messages is taken while SACK is asserted. -/
def Refused (level : Bool) (reqs : List PrReq) : Prop :=
  ∀ u req w, reqs = u ++ req :: w → req.sig = .br ∨ req.sig = .npr →
    sackLevel level u = ASSERTED

section

variable {a : Arb} {req : PrReq} {reqs : List PrReq}

/-- In every run all grants go to the arbiter's client and carry its address. -/
theorem grant_to_client {e : PrReq × CString × PrReq} (he : e ∈ grants a reqs) :
    e.2.1 = a.currentClient ∧ e.2.2.fromField = strncpy SOCK_NAME_LEN a.currentClient := by
  induction reqs generalizing a with
  | nil => cases he
  | cons req reqs ih =>
    rcases List.mem_append.mp he with he | he
    · obtain ⟨out, hout, rfl⟩ := Option.map_eq_some_iff.mp (Option.mem_toList.mp he)
      obtain ⟨g, -, rfl⟩ := Option.map_eq_some_iff.mp hout
      exact ⟨rfl, rfl⟩
    · exact ih (a := (listenPriority a req).1) he

theorem currentClient_startArb : startArb.currentClient = NAME := rfl

/-- A bare name is not a path of the bus. -/
theorem not_toBus_of_client {e : PrReq × CString × PrReq} (h : e.2.1 = NAME) : ¬ ToBus e := by
  rintro ⟨name, -, hpath, -⟩
  rw [h] at hpath
  cases hpath

theorem arbHandleSack_sack (l : ArbState) (req : Unibus.PrReq) :
    (arbHandleSack l req).1.sack = req.assertion := by
  unfold arbHandleSack
  split
  · dsimp only
    split
    · rfl
    · split <;> rfl
  · next hup =>
    split
    · rfl
    · next hdown =>
      -- neither edge: the line has this level already
      cases hs : l.sack <;> cases hb : req.assertion <;> simp_all

/-- The arbiter's SACK line has the level of the last SACK taken. -/
theorem listenPriority_sack (a : Arb) (req : PrReq) :
    (listenPriority a req).1.lines.sack
      = if req.sig = .sack then req.assertion else a.lines.sack := by
  obtain ⟨field, sig, b⟩ := req
  cases sig with
  | sack => exact arbHandleSack_sack a.lines ⟨0, .sack, b⟩
  | br =>
    simp only [listenPriority, Unibus.listenPriority, assertBusGrant]
    split <;> rfl
  | npr =>
    simp only [listenPriority, Unibus.listenPriority, assertNpGrant]
    split <;> rfl
  | bbsy =>
    show (arbHandleBbsy a.lines ⟨0, .bbsy, b⟩).1.sack = a.lines.sack
    unfold arbHandleBbsy
    split
    · rfl
    · split <;> rfl
  | bg => rfl
  | npg => rfl

/-- With no grant outstanding, a grant is sent exactly for a request that is
    taken while SACK is negated. -/
theorem listenPriority_silent (hbg : a.lines.outstandingBg = false)
    (hnpg : a.lines.outstandingNpg = false)
    (hreq : req.sig = .br ∨ req.sig = .npr → a.lines.sack = true) :
    (listenPriority a req).2 = none ∧ (listenPriority a req).1.lines.outstandingBg = false ∧
      (listenPriority a req).1.lines.outstandingNpg = false := by
  obtain ⟨field, sig, b⟩ := req
  cases sig with
  | sack =>
    simp only [listenPriority, Unibus.listenPriority, arbHandleSack]
    split_ifs <;> simp_all
  | br => simp [listenPriority, Unibus.listenPriority, assertBusGrant, hreq (.inl rfl), hbg, hnpg]
  | npr => simp [listenPriority, Unibus.listenPriority, assertNpGrant, hreq (.inr rfl), hbg, hnpg]
  | bbsy =>
    simp only [listenPriority, Unibus.listenPriority, arbHandleBbsy]
    split_ifs <;> exact ⟨rfl, hbg, hnpg⟩
  | bg => exact ⟨rfl, hbg, hnpg⟩
  | npg => exact ⟨rfl, hbg, hnpg⟩

theorem listenPriority_grants (hreq : req.sig = .br ∨ req.sig = .npr)
    (hsack : a.lines.sack = false) : (listenPriority a req).2 ≠ none := by
  obtain ⟨field, sig, b⟩ := req
  rcases hreq with rfl | rfl
  · simp [listenPriority, Unibus.listenPriority, assertBusGrant, hsack]
  · simp [listenPriority, Unibus.listenPriority, assertNpGrant, hsack]

theorem refused_cons (level : Bool) :
    Refused level (req :: reqs) ↔
      (req.sig = .br ∨ req.sig = .npr → level = ASSERTED) ∧
        Refused (if req.sig = .sack then req.assertion else level) reqs := forall_place_cons

/-- With no grant outstanding, nothing is sent exactly when every request is refused. -/
theorem grants_eq_nil_iff (hbg : a.lines.outstandingBg = false)
    (hnpg : a.lines.outstandingNpg = false) :
    grants a reqs = [] ↔ Refused a.lines.sack reqs := by
  induction reqs generalizing a with
  | nil =>
    refine ⟨fun _ u req w h => ?_, fun _ => rfl⟩
    simp at h
  | cons req reqs ih =>
    rw [refused_cons, ← listenPriority_sack, grants, List.append_eq_nil_iff]
    by_cases hreq : req.sig = .br ∨ req.sig = .npr → a.lines.sack = true
    · obtain ⟨hnone, hbg', hnpg'⟩ := listenPriority_silent hbg hnpg hreq
      rw [hnone, ih hbg' hnpg']
      exact and_congr_left fun _ => ⟨fun _ => hreq, fun _ => rfl⟩
    · push Not at hreq
      obtain ⟨hsig, hsack⟩ := hreq
      have hsome := listenPriority_grants hsig (Bool.eq_false_iff.mpr hsack)
      constructor
      · rintro ⟨hnil, -⟩
        refine absurd ?_ hsome
        simpa using hnil
      · rintro ⟨h, -⟩
        exact absurd (h hsig) hsack

end

/-- **No grant goes to the bus.**  Over any sequence of messages, all grants go
    to the neighbour that asked and carry the arbiter's path exactly when none is
    sent: when every request comes while SACK is asserted. -/
theorem grants_toBus_iff (reqs : List PrReq) :
    (∀ e ∈ grants startArb reqs, ToBus e) ↔ Refused NEGATED reqs := by
  have hsent : grants startArb reqs = [] ↔ Refused NEGATED reqs := grants_eq_nil_iff rfl rfl
  rw [← hsent]
  constructor
  · intro h
    refine List.eq_nil_iff_forall_not_mem.mpr fun e he => ?_
    exact not_toBus_of_client ((grant_to_client he).1.trans currentClient_startArb) (h e he)
  · intro h e he
    rw [h] at he
    cases he

/-- A bus request from the memory, answered to `cpu`. -/
theorem grant_not_toBus :
    ¬ ∀ e ∈ grants startArb
        [⟨strncpy SOCK_NAME_LEN (prSocket ['m', 'e', 'm']), .br, ASSERTED⟩], ToBus e := by
  intro h
  exact not_toBus_of_client rfl (h _ List.mem_cons_self)

end XMachine.Unibus.Sockets
