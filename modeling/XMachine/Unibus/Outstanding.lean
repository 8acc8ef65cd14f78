import XMachine.Unibus.GrantAddress

namespace XMachine.Unibus.Sockets

open XMachine.Lib

/-!
# Outstanding grants — how many the arbiter has out

`listen_priority` over any sequence of messages, and the grants it sends.

* `OneGrant` — assertion and negation of one line alternate, the two flags are
  never up together, and no flag is up while SACK is;
* `OneAtATime` — every request that gets a grant is acknowledged before the next
  request comes.

A request is not refused while a grant is out, and an acknowledgement takes back
one grant of two, so the first holds exactly on the sequences of the second.
-/

/-- The grants sent for a sequence of messages, as line and level. -/
def grantLines (a : Arb) (reqs : List PrReq) : List Grant :=
  (grants a reqs).map fun e => (e.2.2.sig, e.2.2.assertion)

/-- The arbiter after a sequence of messages. -/
def arbAfter (a : Arb) (reqs : List PrReq) : Arb :=
  runActs (fun req a => (listenPriority a req).1) reqs a

/-- The grant that is out is taken back before the next one is made. -/
def Alternates : Option Signal → List Grant → Prop
  | _, [] => True
  | none, (line, level) :: gs => level = ASSERTED ∧ Alternates (some line) gs
  | some out, (line, level) :: gs => line = out ∧ level = NEGATED ∧ Alternates none gs

/-- The flags of at most one grant, and of none while SACK is asserted. -/
def AtMostOne (l : ArbState) : Prop :=
  ¬ (l.outstandingBg = true ∧ l.outstandingNpg = true) ∧
    (l.sack = ASSERTED → l.outstandingBg = false ∧ l.outstandingNpg = false)

/-- The arbiter has at most one grant out, at all times. -/
structure OneGrant (reqs : List PrReq) : Prop where
  alternate : Alternates none (grantLines startArb reqs)
  flags : ∀ u w, reqs = u ++ w → AtMostOne (arbAfter startArb u).lines

def PrReq.IsRequest (req : PrReq) : Prop := req.sig = .br ∨ req.sig = .npr

def PrReq.IsAck (req : PrReq) : Prop := req.sig = .sack ∧ req.assertion = ASSERTED

/-- An acknowledgement comes before the next request. -/
def AckFirst (reqs : List PrReq) : Prop :=
  ∀ v req w, reqs = v ++ req :: w → req.IsRequest → ∃ ack ∈ v, ack.IsAck

/-- After a request that comes while SACK is negated, its acknowledgement comes
    before the next request. -/
def OneAtATime (level : Bool) (reqs : List PrReq) : Prop :=
  ∀ u req w, reqs = u ++ req :: w → req.IsRequest → sackLevel level u = NEGATED → AckFirst w

/-! ### One message -/

/-- No grant is out. -/
def Idle (l : ArbState) : Prop := l.outstandingBg = false ∧ l.outstandingNpg = false

/-- The grant `line` is out, and SACK is negated. -/
def Out (line : Signal) (l : ArbState) : Prop :=
  l.sack = NEGATED ∧ (line = .bg ∧ l.outstandingBg = true ∧ l.outstandingNpg = false ∨
    line = .npg ∧ l.outstandingBg = false ∧ l.outstandingNpg = true)

section

variable {l : ArbState} {line : Signal} {out : Option Signal} {a : Arb} {req : PrReq}
  {reqs : List PrReq} {level : Bool}

/-- What the arbiter makes of a message. -/
def answer (l : ArbState) (req : PrReq) : ArbState × Option Grant :=
  Unibus.listenPriority l ⟨0, req.sig, req.assertion⟩

theorem Idle.atMostOne (h : Idle l) : AtMostOne l :=
  ⟨fun hboth => absurd (h.1.symm.trans hboth.1) Bool.false_ne_true, fun _ => h⟩

theorem Out.atMostOne (h : Out line l) : AtMostOne l := by
  obtain ⟨hsack, ⟨-, -, hnpg⟩ | ⟨-, hbg, -⟩⟩ := h
  · exact ⟨fun hboth => absurd (hnpg.symm.trans hboth.2) Bool.false_ne_true,
      fun hup => absurd (hsack.symm.trans hup) Bool.false_ne_true⟩
  · exact ⟨fun hboth => absurd (hbg.symm.trans hboth.1) Bool.false_ne_true,
      fun hup => absurd (hsack.symm.trans hup) Bool.false_ne_true⟩

/-- BBSY only moves its own line. -/
theorem arbHandleBbsy_eq (l : ArbState) (req : Unibus.PrReq) :
    arbHandleBbsy l req = ({ l with bbsy := req.assertion }, none) := by
  obtain ⟨sack, bbsy, bg, npg⟩ := l
  obtain ⟨src, sig, b⟩ := req
  cases bbsy <;> cases b <;> rfl

/-- With no grant out, a request is granted unless SACK is asserted. -/
theorem answer_idle (h : Idle l) (req : PrReq) :
    req.IsRequest ∧ l.sack = NEGATED ∧
      (∃ line, (answer l req).2 = some (line, ASSERTED) ∧ Out line (answer l req).1) ∨
    (req.IsRequest → l.sack = ASSERTED) ∧ (answer l req).2 = none ∧ Idle (answer l req).1 := by
  obtain ⟨sack, bbsy, bg, npg⟩ := l
  obtain ⟨rfl, rfl⟩ : bg = false ∧ npg = false := h
  obtain ⟨field, sig, b⟩ := req
  cases sig <;> cases sack <;> cases b <;>
    simp [answer, Unibus.listenPriority, assertBusGrant, assertNpGrant, arbHandleSack,
      arbHandleBbsy_eq, PrReq.IsRequest, Idle, Out]

/-- With a grant out, any request is granted too, and only an acknowledgement
    takes the grant back. -/
theorem answer_out (h : Out line l) (req : PrReq) :
    req.IsRequest ∧ (∃ line', (answer l req).2 = some (line', ASSERTED)) ∨
    req.IsAck ∧ (answer l req).2 = some (line, NEGATED) ∧ Idle (answer l req).1 ∨
    ¬ req.IsRequest ∧ ¬ req.IsAck ∧ (answer l req).2 = none ∧ Out line (answer l req).1 := by
  obtain ⟨sack, bbsy, bg, npg⟩ := l
  obtain ⟨field, sig, b⟩ := req
  obtain ⟨rfl, ⟨rfl, rfl, rfl⟩ | ⟨rfl, rfl, rfl⟩⟩ := h <;> cases sig <;> cases b <;>
    simp [answer, Unibus.listenPriority, assertBusGrant, assertNpGrant, arbHandleSack,
      negateBusGrant, negateNpGrant, arbHandleBbsy_eq, PrReq.IsRequest, PrReq.IsAck, Idle, Out]

/-! ### The conditions on the messages -/

theorem PrReq.IsRequest.ne_sack (h : req.IsRequest) : req.sig ≠ .sack := by
  rcases h with h | h <;> rw [h] <;> decide

theorem ackFirst_cons : AckFirst (req :: reqs) ↔ req.IsAck ∨ ¬ req.IsRequest ∧ AckFirst reqs := by
  constructor
  · intro h
    by_cases hack : req.IsAck
    · exact .inl hack
    · refine .inr ⟨fun hreq => ?_, fun v r w hr hreq => ?_⟩
      · obtain ⟨ack, hmem, -⟩ := h [] req reqs rfl hreq
        cases hmem
      · obtain ⟨ack, hmem, hisAck⟩ := h (req :: v) r w (congrArg (req :: ·) hr) hreq
        rcases List.mem_cons.mp hmem with rfl | hmem
        · exact absurd hisAck hack
        · exact ⟨ack, hmem, hisAck⟩
  · rintro h v r w hr hreq
    cases v with
    | nil =>
      obtain ⟨rfl, -⟩ := List.cons.inj hr
      rcases h with hack | ⟨hno, -⟩
      · exact absurd hack.1 hreq.ne_sack
      · exact absurd hreq hno
    | cons e v =>
      obtain ⟨rfl, rfl⟩ := List.cons.inj hr
      rcases h with hack | ⟨-, hrest⟩
      · exact ⟨req, List.mem_cons_self, hack⟩
      · obtain ⟨ack, hmem, hack⟩ := hrest v r w rfl hreq
        exact ⟨ack, List.mem_cons_of_mem req hmem, hack⟩

theorem oneAtATime_cons : OneAtATime level (req :: reqs) ↔
    (req.IsRequest → level = NEGATED → AckFirst reqs) ∧
      OneAtATime (if req.sig = .sack then req.assertion else level) reqs := forall_place_cons

/-! ### Runs -/

/-- A run from `a`, with the grant `out` already made, has one grant out at most. -/
def Orderly (out : Option Signal) (a : Arb) (reqs : List PrReq) : Prop :=
  Alternates out (grantLines a reqs) ∧
    ∀ u w, reqs = u ++ w → AtMostOne (arbAfter a u).lines

theorem grantLines_cons : grantLines a (req :: reqs)
    = (answer a.lines req).2.toList ++ grantLines (listenPriority a req).1 reqs := by
  rw [grantLines, grants, List.map_append]
  congr 1
  show (((answer a.lines req).2.map (sendGrant a)).map _).toList.map _ = _
  cases (answer a.lines req).2 <;> rfl

theorem flags_cons : (∀ u w, req :: reqs = u ++ w → AtMostOne (arbAfter a u).lines) ↔
    AtMostOne a.lines ∧
      ∀ u w, reqs = u ++ w → AtMostOne (arbAfter (listenPriority a req).1 u).lines :=
  forall_moment_cons

theorem orderly_cons : Orderly out a (req :: reqs) ↔ AtMostOne a.lines ∧
    Alternates out ((answer a.lines req).2.toList ++ grantLines (listenPriority a req).1 reqs) ∧
      ∀ u w, reqs = u ++ w → AtMostOne (arbAfter (listenPriority a req).1 u).lines := by
  rw [Orderly, flags_cons, grantLines_cons]
  exact and_left_comm

theorem orderly_nil : Orderly out a [] ↔ AtMostOne a.lines := by
  have halt : Alternates out (grantLines a []) := by
    cases out <;> trivial
  refine ⟨fun h => h.2 [] [] rfl, fun h => ⟨halt, fun u w hw => ?_⟩⟩
  obtain ⟨rfl, -⟩ := List.append_eq_nil_iff.mp hw.symm
  exact h

/-- What the arbiter keeps track of is what the condition asks of the messages to come. -/
structure ReadsOff (a : Arb) (reqs : List PrReq) : Prop where
  idle : Idle a.lines → (Orderly none a reqs ↔ OneAtATime a.lines.sack reqs)
  out : ∀ line, Out line a.lines →
    (Orderly (some line) a reqs ↔ OneAtATime NEGATED reqs ∧ AckFirst reqs)

theorem readsOff_nil (a : Arb) : ReadsOff a [] := by
  have hone (level : Bool) : OneAtATime level [] := fun u req w h => by simp at h
  have hack : AckFirst [] := fun v req w h => by simp at h
  exact ⟨fun h => orderly_nil.trans (iff_of_true h.atMostOne (hone _)),
    fun line h => orderly_nil.trans (iff_of_true h.atMostOne ⟨hone _, hack⟩)⟩

theorem ReadsOff.cons_idle (ih : ReadsOff (listenPriority a req).1 reqs) (h : Idle a.lines) :
    Orderly none a (req :: reqs) ↔ OneAtATime a.lines.sack (req :: reqs) := by
  rw [orderly_cons, oneAtATime_cons]
  rcases answer_idle h req with ⟨hreq, hneg, line, hsent, hout⟩ | ⟨hreq, hnone, hidle⟩
  · -- the request is granted and waits for its acknowledgement
    have hnext := ih.out line hout
    rw [hsent, if_neg hreq.ne_sack, hneg]
    constructor
    · rintro ⟨-, ⟨-, halt⟩, hflags⟩
      obtain ⟨hone, hack⟩ := hnext.mp ⟨halt, hflags⟩
      exact ⟨fun _ _ => hack, hone⟩
    · rintro ⟨hack, hone⟩
      obtain ⟨halt, hflags⟩ := hnext.mpr ⟨hone, hack hreq rfl⟩
      exact ⟨h.atMostOne, ⟨rfl, halt⟩, hflags⟩
  · -- nothing is sent
    have hnext := ih.idle hidle
    rw [listenPriority_sack] at hnext
    rw [hnone]
    constructor
    · rintro ⟨-, hrest⟩
      refine ⟨fun hr hneg => ?_, hnext.mp hrest⟩
      exact absurd ((hreq hr).symm.trans hneg) (by decide)
    · rintro ⟨-, hrest⟩
      exact ⟨h.atMostOne, hnext.mpr hrest⟩

theorem ReadsOff.cons_out (ih : ReadsOff (listenPriority a req).1 reqs) (h : Out line a.lines) :
    Orderly (some line) a (req :: reqs) ↔
      OneAtATime NEGATED (req :: reqs) ∧ AckFirst (req :: reqs) := by
  rw [orderly_cons, oneAtATime_cons, ackFirst_cons]
  rcases answer_out h req with ⟨hreq, line', hsent⟩ | ⟨hack, hsent, hidle⟩ |
    ⟨hnoreq, hnoack, hnone, hout⟩
  · -- a second grant, before the first is taken back
    rw [hsent]
    constructor
    · rintro ⟨-, ⟨-, hneg, -⟩, -⟩
      exact absurd hneg (by decide)
    · rintro ⟨-, hack | ⟨hno, -⟩⟩
      · exact absurd hack.1 hreq.ne_sack
      · exact absurd hreq hno
  · -- the grant is taken back
    have hnext := ih.idle hidle
    rw [listenPriority_sack, if_pos hack.1, hack.2] at hnext
    rw [hsent, if_pos hack.1, hack.2]
    constructor
    · rintro ⟨-, ⟨-, -, halt⟩, hflags⟩
      exact ⟨⟨fun hreq => absurd hack.1 hreq.ne_sack, hnext.mp ⟨halt, hflags⟩⟩, .inl hack⟩
    · rintro ⟨⟨-, hone⟩, -⟩
      obtain ⟨halt, hflags⟩ := hnext.mpr hone
      exact ⟨h.atMostOne, ⟨rfl, rfl, halt⟩, hflags⟩
  · -- the grant stays out
    have hlevel : (if req.sig = .sack then req.assertion else NEGATED) = NEGATED := by
      split
      · next hsig => exact Bool.eq_false_iff.mpr fun hb => hnoack ⟨hsig, hb⟩
      · rfl
    rw [hnone, hlevel]
    constructor
    · rintro ⟨-, hrest⟩
      obtain ⟨hone, hack⟩ := (ih.out line hout).mp hrest
      exact ⟨⟨fun hreq => absurd hreq hnoreq, hone⟩, .inr ⟨hnoreq, hack⟩⟩
    · rintro ⟨⟨-, hone⟩, hack | ⟨-, hack⟩⟩
      · exact absurd hack hnoack
      · exact ⟨h.atMostOne, (ih.out line hout).mpr ⟨hone, hack⟩⟩

theorem readsOff (reqs : List PrReq) (a : Arb) : ReadsOff a reqs := by
  induction reqs generalizing a with
  | nil => exact readsOff_nil a
  | cons req reqs ih => exact ⟨(ih _).cons_idle, fun line h => (ih _).cons_out h⟩

end

/-- **At most one grant is out** over a sequence of messages exactly when every
    request that gets a grant is acknowledged before the next request comes. -/
theorem oneGrant_iff (reqs : List PrReq) : OneGrant reqs ↔ OneAtATime NEGATED reqs := by
  have hrun := (readsOff reqs startArb).idle ⟨rfl, rfl⟩
  rw [← show startArb.lines.sack = NEGATED from rfl, ← hrun]
  exact ⟨fun h => ⟨h.alternate, h.flags⟩, fun h => ⟨h.1, h.2⟩⟩

/-- A bus request and a non-processor request before the acknowledgement: both
    grants are out. -/
theorem two_grants_out : ¬ ∀ reqs, OneGrant reqs := by
  intro h
  have hboth := ((h [⟨prSocket NAME, .br, ASSERTED⟩, ⟨prSocket NAME, .npr, ASSERTED⟩]).flags _ []
    (List.append_nil _).symm).1
  exact hboth ⟨rfl, rfl⟩

end XMachine.Unibus.Sockets
