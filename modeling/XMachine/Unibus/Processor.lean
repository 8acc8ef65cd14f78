import XMachine.Unibus.Program

namespace XMachine.Unibus.BusMemory.Processor

open XMachine.Lib XMachine.Cpu XMachine.Mem

/-!
# Processor — `cpu` runs its program over the bus

The system of `BusMemory` with the text of `Program` in the main thread of
`cpu`: each call of the loop body of `execute` is posted, travels and returns as
there, and the loop goes on with what it returned.  The ideal machine, with the
store inside, runs beside it.

* `Lost` — a call above the store: its request is dropped and the wait for the
  response has no end;
* `Served` — the loop body of the ideal machine calls the store only;
* `Place` — where a run of the system stands beside the ideal run;
* `retires_ideal`, `retires_iff`, `halts_ideal` — the states after the loop
  bodies, how many of them end, and where the emulator halts.
-/

/-! ### A call that nobody answers -/

/-- The call is on its way, or its request is dropped already. -/
inductive Lost (call : Call) (st : ByteStore Addr) (s : BusMemory.Sys) : Prop
  | posted (hcpu : CpuAt call none .posted s.cpu) (hmem : MemAt call none st .rest s.mem)
      (hout : s.toMem = []) (hin : s.toCpu = [])
  | taken (hcpu : CpuAt call none .taken s.cpu) (hmem : MemAt call none st .rest s.mem)
      (hout : s.toMem = []) (hin : s.toCpu = [])
  | sent (m : DataBusReq) (hm : BusMemory.Asks call m) (hcpu : CpuAt call none .out s.cpu)
      (hmem : MemAt call none st .rest s.mem) (hout : s.toMem = [m]) (hin : s.toCpu = [])
  | dropped (hcpu : CpuAt call none .out s.cpu) (hmem : MemAt call none st .rest s.mem)
      (hout : s.toMem = []) (hin : s.toCpu = [])

section Lost

variable {call : Call} {st : ByteStore Addr} {s : BusMemory.Sys} (uninit : DataBusReq)

/-- mem drops a request above its store. -/
theorem data_ignored {v : Option Word} {d : ServerSide MemDev} (h : MemAt call v st .rest d)
    {m : DataBusReq} (hm : BusMemory.Asks call m) (hfar : MEMBYTES < call.addr.toNat)
    (hcheck : d.node.pc = .check false) :
    (d.data true (some isLocalAddr) uninit (some m)).2 = none ∧
      MemAt call v st .rest (d.data true (some isLocalAddr) uninit (some m)).1 := by
  have hlocal : isLocalAddr m.addr = false := by
    rw [hm.addr]
    simp [isLocalAddr]
    omega
  have hadvance : d.node.advance (some isLocalAddr) uninit (some m)
      = ⟨{ d.node with pc := .head }, none, none⟩ := by
    simp [Node.advance, hcheck, hm.msgType, examineAddress, hlocal]
  have hstep : d.data true (some isLocalAddr) uninit (some m)
      = ({ d with node := { d.node with pc := .head } }, none) := by
    simp only [ServerSide.data, hadvance, reduceCtorEq, if_false]
  rw [hstep]
  exact ⟨rfl, h.noCalls, .inl rfl, h.server, trivial, h.store⟩

theorem Lost.cpuData (h : Lost call st s) : Lost call st (step ⟨.cpuData, uninit⟩ s) := by
  cases h with
  | posted hcpu hmem hout hin =>
    have hnone : s.toCpu.head? = none := by rw [hin]; rfl
    obtain ⟨hsent, htaken | ⟨-, hposted⟩⟩ := hcpu.data_posted uninit hnone
    · obtain ⟨hout', hin'⟩ := quiet_cpuData uninit hin hsent hout
      exact .taken htaken hmem hout' hin'
    · obtain ⟨hout', hin'⟩ := quiet_cpuData uninit hin hsent hout
      exact .posted hposted hmem hout' hin'
  | taken hcpu hmem hout hin =>
    obtain ⟨m, hsent, hasks, hcpu'⟩ := hcpu.data_taken uninit s.toCpu.head?
    refine .sent m hasks hcpu' hmem ?_ ?_
    · change s.toMem ++ (s.cpu.data true uninit s.toCpu.head?).2.toList = [m]
      rw [hsent, hout]
      rfl
    · change leave s.cpu.node s.toCpu = []
      rw [hin, leave_nil]
  | sent m hm hcpu hmem hout hin =>
    obtain ⟨hcpu', hout', hin'⟩ := rest_cpuData uninit hcpu (.inr (.inl rfl)) hout hin
    exact .sent m hm hcpu' hmem hout' hin'
  | dropped hcpu hmem hout hin =>
    obtain ⟨hcpu', hout', hin'⟩ := rest_cpuData uninit hcpu (.inr (.inl rfl)) hout hin
    exact .dropped hcpu' hmem hout' hin'

theorem Lost.memData (h : Lost call st s) (hfar : MEMBYTES < call.addr.toNat) :
    Lost call st (step ⟨.memData, uninit⟩ s) := by
  cases h with
  | posted hcpu hmem hout hin =>
    obtain ⟨hmem', hout', hin'⟩ := rest_memData uninit hmem hout hin
    exact .posted hcpu hmem' hout' hin'
  | taken hcpu hmem hout hin =>
    obtain ⟨hmem', hout', hin'⟩ := rest_memData uninit hmem hout hin
    exact .taken hcpu hmem' hout' hin'
  | dropped hcpu hmem hout hin =>
    obtain ⟨hmem', hout', hin'⟩ := rest_memData uninit hmem hout hin
    exact .dropped hcpu hmem' hout' hin'
  | sent m hm hcpu hmem hout hin =>
    have hsome : s.toMem.head? = some m := by rw [hout]; rfl
    by_cases hcheck : s.mem.node.pc = .check false
    · obtain ⟨hsent, hmem'⟩ := data_ignored uninit hmem hm hfar hcheck
      rw [← hsome] at hsent hmem'
      refine .dropped hcpu hmem' ?_ ?_
      · change leave s.mem.node s.toMem = []
        rw [leave, Node.receives, hcheck, hout]
        rfl
      · change s.toCpu ++ (s.mem.data true (some isLocalAddr) uninit s.toMem.head?).2.toList = []
        rw [hsent, hin]
        rfl
    · obtain ⟨hsent, hmem', -⟩ := hmem.data_rest uninit fun h => absurd h hcheck
      refine .sent m hm hcpu hmem' ?_ ?_
      · change leave s.mem.node s.toMem = [m]
        rw [leave_of_not_receives ?_, hout]
        rcases hmem.pc with hpc | hpc | hpc
        · rw [Node.receives, hpc]
        · rw [Node.receives, hpc]
        · exact absurd hpc hcheck
      · change s.toCpu ++ (s.mem.data true (some isLocalAddr) uninit s.toMem.head?).2.toList = []
        rw [hsent, hin]
        rfl

theorem Lost.memMain (h : Lost call st s) : Lost call st (step ⟨.memMain, uninit⟩ s) := by
  cases h with
  | posted hcpu hmem hout hin => exact .posted hcpu (hmem.main_free rfl).1 hout hin
  | taken hcpu hmem hout hin => exact .taken hcpu (hmem.main_free rfl).1 hout hin
  | sent m hm hcpu hmem hout hin => exact .sent m hm hcpu (hmem.main_free rfl).1 hout hin
  | dropped hcpu hmem hout hin => exact .dropped hcpu (hmem.main_free rfl).1 hout hin

/-- The main thread goes on waiting. -/
theorem Lost.cpuMain (h : Lost call st s) :
    Lost call st (step ⟨.cpuMain, uninit⟩ s) ∧ (s.cpu.main s.todo.head?).2 = none ∧
      s.cpu.caller ≠ .idle := by
  cases h with
  | posted hcpu hmem hout hin =>
    obtain ⟨hret, hcpu', -, hidle⟩ := hcpu.main_pending nofun nofun s.todo.head?
    exact ⟨.posted hcpu' hmem hout hin, hret, hidle⟩
  | taken hcpu hmem hout hin =>
    obtain ⟨hret, hcpu', -, hidle⟩ := hcpu.main_pending nofun nofun s.todo.head?
    exact ⟨.taken hcpu' hmem hout hin, hret, hidle⟩
  | sent m hm hcpu hmem hout hin =>
    obtain ⟨hret, hcpu', -, hidle⟩ := hcpu.main_pending nofun nofun s.todo.head?
    exact ⟨.sent m hm hcpu' hmem hout hin, hret, hidle⟩
  | dropped hcpu hmem hout hin =>
    obtain ⟨hret, hcpu', -, hidle⟩ := hcpu.main_pending nofun nofun s.todo.head?
    exact ⟨.dropped hcpu' hmem hout hin, hret, hidle⟩

end Lost

/-! ### The system -/

/-- What the processor's own record has for a store; nothing looks at it. -/
def noStore : ByteStore Addr := fun _ => 0

structure Sys where
  /-- The nodes and the sockets; `todo` holds the call that the program makes next. -/
  bus : BusMemory.Sys
  /-- What is left of the loop body of `execute`. -/
  program : Program.Bus Machine
  /-- How often the loop body has ended. -/
  retired : ℕ

def start (p : Word) (dev : MemDev) : Sys where
  bus := BusMemory.start [] dev
  program := .done (Cpu.start noStore p)
  retired := 0

/-- The program once its call has returned. -/
def Sys.resume (s : Sys) (value : Option Word) : Sys :=
  let program := s.program.feed value
  { bus := { s.bus with todo := program.next.toList }
    program := program
    retired := if program.next = none then s.retired + 1 else s.retired }

/-- The value with which the main thread returns from a call in its next step. -/
def returned (bus : BusMemory.Sys) : Option (Option Word) := (bus.cpu.main bus.todo.head?).2

/-- The main thread of `cpu` is in the loop of `execute`; the others are those of the bus. -/
def step (a : Act) (s : Sys) : Sys :=
  match a.thread, s.program with
  | .cpuMain, .done m =>
    if m.halted then s
    else
      let program := Program.iteration m
      { s with bus := { s.bus with todo := program.next.toList }, program := program }
  | .cpuMain, .call _ _ =>
    let s' : Sys := { s with bus := BusMemory.step a s.bus }
    match returned s.bus with
    | none => s'
    | some value => s'.resume value
  | _, _ => { s with bus := BusMemory.step a s.bus }

/-! ### The ideal run beside it -/

/-- The calls of the loop body, `m` having the ideal store. -/
def iterationCalls (m : Machine) : List Call :=
  (Program.iteration (m.setMem noStore)).calls onStore m.mem

def InStore (call : Call) : Prop := call.addr.toNat < 0o1000

instance (call : Call) : Decidable (InStore call) := inferInstanceAs (Decidable (_ < _))

/-- The loop body runs, and every call it makes is to the store. -/
def Served (m : Machine) : Prop := m.halted = false ∧ ∀ call ∈ iterationCalls m, InStore call

/-- What the bus and the processor's record have of `m`. -/
def split (m : Machine) : ByteStore Addr × Machine := (m.mem, m.setMem noStore)

theorem run_iteration (m : Machine) :
    (Program.iteration (m.setMem noStore)).run onStore m.mem = split (iteration m) :=
  Program.implements_iteration (m.setMem noStore) m.mem

/-- In the loop body: it will end as the ideal one does from here, with `st` in
    the store. -/
structure InBody (m₀ : Machine) (s : Sys) (st : ByteStore Addr) : Prop where
  history : ∀ j < s.retired, Served (execute j m₀)
  running : (execute s.retired m₀).halted = false
  ends : s.program.run onStore st = split (iteration (execute s.retired m₀))
  calls : ∃ past, iterationCalls (execute s.retired m₀) = past ++ s.program.calls onStore st ∧
    ∀ call ∈ past, InStore call
  clear : s.program.AllCalls Program.Clear

/-- Where a run stands, with what is left to do of the loop body and the
    thread that does it. -/
inductive Place (m₀ : Machine) (s : Sys) : ℕ → Thread → Prop
  | ended (history : ∀ j < s.retired, Served (execute j m₀))
      (hprogram : s.program = .done ((execute s.retired m₀).setMem noStore))
      (hrest : Between (execute s.retired m₀).mem s.bus) :
      Place m₀ s (20 * (iterationCalls (execute s.retired m₀)).length + 1) .cpuMain
  | between (st : ByteStore Addr) (call : Call) (hbody : InBody m₀ s st)
      (hnext : s.program.next = some call) (htodo : s.bus.todo = [call])
      (hrest : Between st s.bus) :
      Place m₀ s (20 * (s.program.calls onStore st).length) .cpuMain
  | calling (st : ByteStore Addr) (call : Call) (k : ℕ) (i : Thread) (hbody : InBody m₀ s st)
      (hnext : s.program.next = some call) (hin : InStore call)
      (hcall : InCall call st s.bus k i) :
      Place m₀ s (20 * ((s.program.calls onStore st).length - 1) + k) i
  | lost (st : ByteStore Addr) (call : Call) (hbody : InBody m₀ s st)
      (hnext : s.program.next = some call) (hfar : ¬ InStore call) (hlost : Lost call st s.bus) :
      Place m₀ s 0 .cpuMain

section Steps

variable {m₀ : Machine} {s : Sys} {st : ByteStore Addr} {call : Call} {k : ℕ} {i : Thread}
  (uninit : DataBusReq)

theorem step_of_ne {j : Thread} (hj : j ≠ .cpuMain) :
    step ⟨j, uninit⟩ s = { s with bus := BusMemory.step ⟨j, uninit⟩ s.bus } := by
  unfold step
  split
  · next h _ => exact absurd h hj
  · next h _ => exact absurd h hj
  · rfl

/-- The main thread's step in a call. -/
theorem step_call (hnext : s.program.next = some call) : step ⟨.cpuMain, uninit⟩ s =
    match returned s.bus with
    | none => { s with bus := BusMemory.step ⟨.cpuMain, uninit⟩ s.bus }
    | some value =>
      ({ s with bus := BusMemory.step ⟨.cpuMain, uninit⟩ s.bus } : Sys).resume value := by
  obtain ⟨bus, program, retired⟩ := s
  cases program with
  | done m => cases hnext
  | call q k => rfl

/-- What the step appends to the results is what the call returns. -/
theorem returned_of_results {bus : BusMemory.Sys} {r : Option (Option Word)}
    (h : (BusMemory.step ⟨.cpuMain, uninit⟩ bus).results = bus.results ++ r.toList) :
    returned bus = r := by
  have happ : bus.results ++ (returned bus).toList = bus.results ++ r.toList := h
  have hlist := List.append_cancel_left happ
  cases hr : returned bus <;> cases r <;> simp_all

theorem Program.iteration_next (m : Machine) : ∃ call, (Program.iteration m).next = some call := by
  rw [Program.iteration, Program.fetchData, isInternalBusAddr_setWidth]
  exact ⟨_, rfl⟩

/-- The bus moves on beside the loop body. -/
theorem InBody.setBus (h : InBody m₀ s st) (bus : BusMemory.Sys) :
    InBody m₀ { s with bus := bus } st := ⟨h.history, h.running, h.ends, h.calls, h.clear⟩

theorem between_setTodo {bus : BusMemory.Sys} (h : Between st bus) (todo : List Call) :
    Between st { bus with todo := todo } := ⟨h.cpu, h.mem, h.toMem, h.toCpu⟩

/-- Once its call has returned the loop body goes on, or it has ended as the
    ideal one. -/
theorem InBody.resume (h : InBody m₀ s st) (hnext : s.program.next = some call)
    (hin : InStore call) {bus : BusMemory.Sys} (hbus : Between (onStore st call).1 bus) :
    let s' := ({ s with bus := bus } : Sys).resume (onStore st call).2
    ∃ k, Place m₀ s' k .cpuMain ∧ (s.retired < s'.retired ∨
      s'.retired = s.retired ∧ k = 20 * ((s.program.calls onStore st).length - 1)) := by
  have hends := (Client.run_feed onStore st hnext).trans h.ends
  have hclear := h.clear.feed (onStore st call).2
  obtain ⟨past, hcalls, hpast⟩ := h.calls
  rw [Client.calls_feed onStore st hnext] at hcalls ⊢
  have hpast' : ∀ c ∈ past ++ [call], InStore c := by
    intro c hc
    rcases List.mem_append.mp hc with hc | hc
    · exact hpast c hc
    · rwa [List.mem_singleton.mp hc]
  unfold Sys.resume
  generalize s.program.feed (onStore st call).2 = program at *
  cases program with
  | done m =>
    obtain ⟨hst, rfl⟩ := Prod.ext_iff.mp hends
    have hserved : Served (execute s.retired m₀) := by
      refine ⟨h.running, fun c hc => hpast' c ?_⟩
      rwa [hcalls] at hc
    have hsucc : execute (s.retired + 1) m₀ = iteration (execute s.retired m₀) := by
      rw [execute_succ, h.running]
      rfl
    refine ⟨_, .ended (fun j hj => ?_) ?_ ?_, .inl (Nat.lt_succ_self _)⟩
    · rcases Nat.lt_succ_iff_lt_or_eq.mp hj with hj | rfl
      · exact h.history j hj
      · exact hserved
    · exact congrArg Client.done (congrArg (Machine.setMem · noStore) hsucc.symm)
    · have hrest := between_setTodo hbus []
      change (onStore st call).1 = _ at hst
      rw [hst] at hrest
      exact hsucc ▸ hrest
  | call q k =>
    refine ⟨_, .between (onStore st call).1 q ⟨h.history, h.running, hends, ⟨past ++ [call], ?_,
      hpast'⟩, hclear⟩ rfl rfl (between_setTodo hbus [q]), .inr ⟨rfl, rfl⟩⟩
    refine hcalls.trans ?_
    rw [List.append_assoc]
    rfl

/-- A call of the loop body is to the store, or above it. -/
theorem InBody.far (h : InBody m₀ s st) (hnext : s.program.next = some call)
    (hfar : ¬ InStore call) : MEMBYTES < call.addr.toNat := by
  have hclear := (h.clear.of_next hnext).resolve_left hfar
  unfold MEMBYTES
  omega

theorem InStore.lt (h : InStore call) : call.addr.toNat + 1 < MEMBYTES := by
  unfold InStore at h
  unfold MEMBYTES
  omega

/-- The steps of the other threads leave a run where it is. -/
theorem Place.others (h : Place m₀ s k i) {j : Thread} (hj : j ≠ i) :
    Place m₀ (step ⟨j, uninit⟩ s) k i ∧ (step ⟨j, uninit⟩ s).retired = s.retired := by
  cases h with
  | ended history hprogram hrest =>
    rw [step_of_ne uninit hj]
    exact ⟨.ended history hprogram (hrest.others uninit hj), rfl⟩
  | between st call hbody hnext htodo hrest =>
    rw [step_of_ne uninit hj]
    refine ⟨.between st call (hbody.setBus _) hnext ?_ (hrest.others uninit hj), rfl⟩
    exact (step_others uninit hj).1.trans htodo
  | calling st call k i hbody hnext hin hcall =>
    by_cases hmain : j = .cpuMain
    · subst hmain
      obtain ⟨hcall', hresults, -⟩ := hcall.cpuMain uninit hj.symm
      have hret : returned s.bus = none :=
        returned_of_results uninit (by rw [hresults]; exact (List.append_nil _).symm)
      rw [step_call uninit hnext, hret]
      exact ⟨.calling st call k i (hbody.setBus _) hnext hin hcall', rfl⟩
    · have hcall' : InCall call st (BusMemory.step ⟨j, uninit⟩ s.bus) k i := by
        cases j with
        | cpuMain => exact absurd rfl hmain
        | cpuData => exact (hcall.cpuData uninit).2 hj.symm
        | memMain => exact (hcall.memMain uninit hin.lt).2 hj.symm
        | memData => exact (hcall.memData uninit hin.lt).2 hj.symm
      rw [step_of_ne uninit hmain]
      exact ⟨.calling st call k i (hbody.setBus _) hnext hin hcall', rfl⟩
  | lost st call hbody hnext hfar hlost =>
    have hlost' : Lost call st (BusMemory.step ⟨j, uninit⟩ s.bus) := by
      cases j with
      | cpuMain => exact absurd rfl hj
      | cpuData => exact hlost.cpuData uninit
      | memMain => exact hlost.memMain uninit
      | memData => exact hlost.memData uninit (hbody.far hnext hfar)
    rw [step_of_ne uninit hj]
    exact ⟨.lost st call (hbody.setBus _) hnext hfar hlost', rfl⟩

/-- A step of the helpful thread brings the run on where the loop body is served. -/
theorem Place.helped (h : Place m₀ s k i) : ∃ k' i', Place m₀ (step ⟨i, uninit⟩ s) k' i' ∧
    (Served (execute s.retired m₀) → s.retired < (step ⟨i, uninit⟩ s).retired ∨
      (step ⟨i, uninit⟩ s).retired = s.retired ∧ k' < k) := by
  cases h with
  | ended history hprogram hrest =>
    have hstep : step ⟨.cpuMain, uninit⟩ s = if (execute s.retired m₀).halted then s
        else { s with
          bus := { s.bus with
            todo := (Program.iteration ((execute s.retired m₀).setMem noStore)).next.toList }
          program := Program.iteration ((execute s.retired m₀).setMem noStore) } := by
      unfold step
      rw [hprogram]
      rfl
    by_cases hhalted : (execute s.retired m₀).halted = true
    · rw [hstep, if_pos hhalted]
      refine ⟨_, _, .ended history hprogram hrest, fun hserved => ?_⟩
      exact absurd (hhalted.symm.trans hserved.1) (by decide)
    · rw [hstep, if_neg hhalted]
      rw [Bool.not_eq_true] at hhalted
      obtain ⟨call, hnext⟩ := Program.iteration_next ((execute s.retired m₀).setMem noStore)
      refine ⟨_, _, .between _ call ⟨history, hhalted, run_iteration _, ⟨[], rfl, nofun⟩,
        Program.iteration_allCalls _⟩ hnext ?_ (between_setTodo hrest _), fun _ => .inr ⟨rfl, ?_⟩⟩
      · change (Program.iteration _).next.toList = [call]
        rw [hnext]
        rfl
      · exact Nat.lt_succ_self _
  | between st call hbody hnext htodo hrest =>
    have hpost : (s.bus.cpu.main (some call)).2 = none ∧
        CpuAt call none .posted (s.bus.cpu.main (some call)).1 := (hrest.cpu call none).main_post
    have hret : returned s.bus = none := by
      rw [returned, htodo]
      exact hpost.1
    rw [step_call uninit hnext, hret]
    have hlen := congrArg List.length (Client.calls_feed onStore st hnext)
    rw [List.length_cons] at hlen
    by_cases hin : InStore call
    · obtain ⟨⟨k, hcall⟩, -, -⟩ := hrest.post uninit htodo
      have hk := hcall.bounds
      refine ⟨_, _, .calling st call k _ (hbody.setBus _) hnext hin hcall, fun _ => .inr ⟨rfl, ?_⟩⟩
      change 20 * ((s.program.calls onStore st).length - 1) + k < _
      omega
    · -- nobody answers the call
      have hlost : Lost call st (BusMemory.step ⟨.cpuMain, uninit⟩ s.bus) := by
        refine .posted ?_ (hrest.mem call none) hrest.toMem hrest.toCpu
        change CpuAt call none .posted (s.bus.cpu.main s.bus.todo.head?).1
        rw [htodo]
        exact hpost.2
      refine ⟨_, _, .lost st call (hbody.setBus _) hnext hin hlost, fun hserved => ?_⟩
      obtain ⟨past, hcalls, -⟩ := hbody.calls
      refine absurd (hserved.2 call ?_) hin
      rw [hcalls, Client.calls_feed onStore st hnext]
      simp
  | calling st call k i hbody hnext hin hcall =>
    by_cases hmain : i = .cpuMain
    · subst hmain
      obtain ⟨hrest, hresults, -⟩ := hcall.collect uninit rfl
      have hret : returned s.bus = some (onStore st call).2 := returned_of_results uninit hresults
      obtain ⟨k', hplace, hprogress⟩ := hbody.resume hnext hin hrest
      rw [step_call uninit hnext, hret]
      have hk := hcall.bounds
      refine ⟨k', _, hplace, fun _ => hprogress.imp_right fun h => ⟨h.1, ?_⟩⟩
      omega
    · rw [step_of_ne uninit hmain]
      have hstep : ∃ k' i', k' < k ∧ InCall call st (BusMemory.step ⟨i, uninit⟩ s.bus) k' i' := by
        cases i with
        | cpuMain => exact absurd rfl hmain
        | cpuData => exact (hcall.cpuData uninit).1 rfl
        | memMain => exact (hcall.memMain uninit hin.lt).1 rfl
        | memData => exact (hcall.memData uninit hin.lt).1 rfl
      obtain ⟨k', i', hlt, hcall'⟩ := hstep
      refine ⟨_, _, .calling st call k' i' (hbody.setBus _) hnext hin hcall', fun _ =>
        .inr ⟨rfl, ?_⟩⟩
      exact Nat.add_lt_add_left hlt _
  | lost st call hbody hnext hfar hlost =>
    obtain ⟨hlost', hret, -⟩ := hlost.cpuMain uninit
    rw [step_call uninit hnext, returned, hret]
    refine ⟨_, _, .lost st call (hbody.setBus _) hnext hfar hlost', fun hserved => ?_⟩
    obtain ⟨past, hcalls, -⟩ := hbody.calls
    refine absurd (hserved.2 call ?_) hfar
    rw [hcalls, Client.calls_feed onStore st hnext]
    simp

end Steps

/-! ### Runs -/

theorem place_start (p : Word) (dev : MemDev) :
    ∃ k, Place (Cpu.start dev.image p) (start p dev) k .cpuMain :=
  ⟨_, .ended nofun rfl (between_start [] dev)⟩

theorem place_runActs (p : Word) (dev : MemDev) (as : List Act) :
    ∃ k i, Place (Cpu.start dev.image p) (runActs step as (start p dev)) k i := by
  refine runActs_invariant (I := fun s => ∃ k i, Place (Cpu.start dev.image p) s k i) ?_ as _ ?_
  · rintro s ⟨j, uninit⟩ ⟨k, i, hplace⟩
    by_cases hj : j = i
    · obtain ⟨k', i', hplace', -⟩ := hplace.helped uninit
      rw [hj]
      exact ⟨k', i', hplace'⟩
    · exact ⟨k, i, (hplace.others uninit hj).1⟩
  · obtain ⟨k, hplace⟩ := place_start p dev
    exact ⟨k, _, hplace⟩

theorem Place.history {m₀ : Machine} {s : Sys} {k : ℕ} {i : Thread} (h : Place m₀ s k i) :
    ∀ j < s.retired, Served (execute j m₀) := by
  cases h with
  | ended history => exact history
  | between st call hbody | calling st call k i hbody | lost st call hbody => exact hbody.history

theorem Place.ended_eq {m₀ : Machine} {s : Sys} {k : ℕ} {i : Thread} (h : Place m₀ s k i)
    {m : Machine} (hm : s.program = .done m) : m = (execute s.retired m₀).setMem noStore ∧
      s.bus.mem.dev.Agrees (execute s.retired m₀).mem := by
  cases h with
  | ended history hprogram hrest =>
    rw [hprogram] at hm
    exact ⟨(Client.done.inj hm).symm, (hrest.mem (.readDataIn 0) none).store⟩
  | between st call hbody hnext | calling st call k i hbody hnext | lost st call hbody hnext =>
    rw [hm] at hnext
    cases hnext

/-- Where the ideal run has halted so has this one. -/
theorem Place.done_of_halted {m₀ : Machine} {s : Sys} {k : ℕ} {i : Thread} (h : Place m₀ s k i)
    (hhalted : (execute s.retired m₀).halted = true) :
    s.program = .done ((execute s.retired m₀).setMem noStore) := by
  cases h with
  | ended history hprogram => exact hprogram
  | between st call hbody | calling st call k i hbody | lost st call hbody =>
    exact absurd (hhalted.symm.trans hbody.running) (by decide)

theorem retired_le_step (a : Act) (s : Sys) : s.retired ≤ (step a s).retired := by
  have hresume (s : Sys) (v : Option Word) : s.retired ≤ (s.resume v).retired := by
    simp only [Sys.resume]
    split <;> omega
  unfold step
  split
  · split <;> exact Nat.le_refl _
  · split
    · exact Nat.le_refl _
    · exact hresume _ _
  · exact Nat.le_refl _

theorem retired_le_trace (sched : ℕ → Act) (s : Sys) {n t : ℕ} (h : n ≤ t) :
    (trace step sched s n).retired ≤ (trace step sched s t).retired := by
  induction t, h using Nat.le_induction with
  | base => exact Nat.le_refl _
  | succ t _ ih => exact Nat.le_trans ih (retired_le_step _ _)

theorem place_trace (sched : ℕ → Act) (p : Word) (dev : MemDev) (n : ℕ) :
    ∃ k i, Place (Cpu.start dev.image p) (trace step sched (start p dev) n) k i := by
  rw [trace_eq_runActs]
  exact place_runActs p dev _

/-- The run ends its `r`-th loop body and one more, or is at most `k` steps of `i` before that. -/
def Nears (m₀ : Machine) (r : ℕ) (s : Sys) (k : ℕ) (i : Thread) : Prop :=
  r < s.retired ∨ s.retired = r ∧ ∃ k₀ < k, Place m₀ s k₀ i

/-- Where the ideal loop body is served, this one ends too. -/
theorem retires_next {sched : ℕ → Act} (hfair : FairSchedule Act.thread sched) (p : Word)
    (dev : MemDev) {n r : ℕ} (hr : (trace step sched (start p dev) n).retired = r)
    (hserved : Served (execute r (Cpu.start dev.image p))) :
    ∃ t, r < (trace step sched (start p dev) t).retired := by
  let m₀ := Cpu.start dev.image p
  have hhelp : ∀ s k i a, Nears m₀ r s k i → ¬ r < s.retired → Act.thread a = i →
      ∃ k' i', k' < k ∧ Nears m₀ r (step a s) k' i' := by
    rintro s k i ⟨j, uninit⟩ hat hgoal rfl
    obtain ⟨hr, k₀, hk₀, hplace⟩ := hat.resolve_left hgoal
    obtain ⟨k', i', hplace', hprogress⟩ := hplace.helped uninit
    rcases hprogress (hr ▸ hserved) with hmore | ⟨hsame, hlt⟩
    · exact ⟨0, i', by omega, .inl (hr ▸ hmore)⟩
    · exact ⟨k₀, i', hk₀, .inr ⟨hsame.trans hr, k', hlt, hplace'⟩⟩
  have hkeep : ∀ s k i a, Nears m₀ r s k i → ¬ r < s.retired → Act.thread a ≠ i →
      Nears m₀ r (step a s) k i ∨ ∃ k' i', k' < k ∧ Nears m₀ r (step a s) k' i' := by
    rintro s k i ⟨j, uninit⟩ hat hgoal hj
    obtain ⟨hr, k₀, hk₀, hplace⟩ := hat.resolve_left hgoal
    obtain ⟨hplace', hsame⟩ := hplace.others uninit hj
    exact .inl (.inr ⟨hsame.trans hr, k₀, hk₀, hplace'⟩)
  obtain ⟨k, i, hplace⟩ := place_trace sched p dev n
  exact eventually_of_fair hfair hhelp hkeep (.inr ⟨hr, k, Nat.lt_succ_self k, hplace⟩)

theorem retires_of_served {sched : ℕ → Act} (hfair : FairSchedule Act.thread sched) (p : Word)
    (dev : MemDev) {n : ℕ} (hserved : ∀ j < n, Served (execute j (Cpu.start dev.image p))) :
    ∃ t, n ≤ (trace step sched (start p dev) t).retired := by
  induction n with
  | zero => exact ⟨0, Nat.zero_le _⟩
  | succ n ih =>
    obtain ⟨t, ht⟩ := ih fun j hj => hserved j (Nat.lt_succ_of_lt hj)
    rcases Nat.lt_or_eq_of_le ht with hlt | heq
    · exact ⟨t, hlt⟩
    · exact retires_next hfair p dev heq.symm (hserved n (Nat.lt_succ_self n))

/-- INC (R1) at 2 and a HALT behind it. -/
def incMem : MemDev := ⟨0, 0, fun a => if a.val = 2 then 0o211 else if a.val = 3 then 0o12 else 0⟩

theorem served_incMem : ∀ j < 2, Served (execute j (Cpu.start incMem.image 2)) := by
  have hcalls : iterationCalls (execute 0 (Cpu.start incMem.image 2))
      = [.readDataIn 2, .readDataIn 0, .writeDataOut 0 1] := by decide +kernel
  have hcalls' : iterationCalls (execute 1 (Cpu.start incMem.image 2)) = [.readDataIn 4] := by
    decide +kernel
  intro j hj
  obtain rfl | rfl : j = 0 ∨ j = 1 := by omega
  · refine ⟨rfl, ?_⟩
    rw [hcalls]
    decide
  · refine ⟨by decide +kernel, ?_⟩
    rw [hcalls']
    decide

/-- **The emulator computes what the ideal machine computes.**  However the
    threads of `cpu` and `mem` take turns, whenever a loop body of `execute` has
    ended the registers are those of the ideal run after as many loop bodies, and
    the store is its store. -/
theorem retires_ideal (p : Word) (dev : MemDev) (as : List Act) {m : Machine}
    (hm : (runActs step as (start p dev)).program = .done m) :
    let s := runActs step as (start p dev)
    m = (execute s.retired (Cpu.start dev.image p)).setMem noStore ∧
      s.bus.mem.dev.Agrees (execute s.retired (Cpu.start dev.image p)).mem := by
  obtain ⟨k, i, hplace⟩ := place_runActs p dev as
  exact hplace.ended_eq hm

/-- The first word is counted up, and the program ends at the HALT. -/
theorem retires_ideal_inc :
    let s := runActs step ((List.range 230).map roundRobin) (start 2 incMem)
    ∃ m, s.program = .done m ∧ s.retired = 2 ∧
      m = (execute 2 (Cpu.start incMem.image 2)).setMem noStore ∧
      s.bus.mem.dev.Agrees (execute 2 (Cpu.start incMem.image 2)).mem := by
  have hnext : (runActs step ((List.range 230).map roundRobin) (start 2 incMem)).program.next
      = none := by decide +kernel
  have hretired : (runActs step ((List.range 230).map roundRobin) (start 2 incMem)).retired
      = 2 := by decide +kernel
  obtain ⟨m, hm⟩ := Client.done_of_next hnext
  have hideal := retires_ideal 2 incMem _ hm
  dsimp only at hideal
  rw [hretired] at hideal
  exact ⟨m, hm, hretired, hideal⟩

/-- **What brings the emulator on.**  Under any fair schedule it ends `n` loop
    bodies if and only if the ideal machine runs so many and they call the store
    only, below 01000. -/
theorem retires_iff (p : Word) (dev : MemDev) {sched : ℕ → Act}
    (hfair : FairSchedule Act.thread sched) (n : ℕ) :
    (∃ t, n ≤ (trace step sched (start p dev) t).retired) ↔
      ∀ j < n, Served (execute j (Cpu.start dev.image p)) := by
  constructor
  · rintro ⟨t, ht⟩ j hj
    obtain ⟨k, i, hplace⟩ := place_trace sched p dev t
    exact hplace.history j (Nat.lt_of_lt_of_le hj ht)
  · exact retires_of_served hfair p dev

theorem retires_iff_inc :
    ∃ t, 2 ≤ (trace step roundRobin (start 2 incMem) t).retired :=
  (retires_iff 2 incMem roundRobin_fair 2).mpr served_incMem

/-- If the ideal run halts and calls the store only, every fair schedule comes to
    its final state and stays there. -/
theorem halts_ideal (p : Word) (dev : MemDev) {sched : ℕ → Act}
    (hfair : FairSchedule Act.thread sched) {n : ℕ}
    (hserved : ∀ j < n, Served (execute j (Cpu.start dev.image p)))
    (hhalted : (execute n (Cpu.start dev.image p)).halted = true) :
    ∃ t₀, ∀ t, t₀ ≤ t → let s := trace step sched (start p dev) t
      s.program = .done ((execute n (Cpu.start dev.image p)).setMem noStore) ∧
        s.bus.mem.dev.Agrees (execute n (Cpu.start dev.image p)).mem := by
  obtain ⟨t₀, ht₀⟩ := retires_of_served hfair p dev hserved
  refine ⟨t₀, fun t ht => ?_⟩
  obtain ⟨k, i, hplace⟩ := place_trace sched p dev t
  -- no loop body after the `n`-th
  have hle : (trace step sched (start p dev) t).retired ≤ n := by
    by_contra hmore
    have hn := (hplace.history n (by omega)).1
    exact absurd (hhalted.symm.trans hn) (by decide)
  have hn : (trace step sched (start p dev) t).retired = n :=
    Nat.le_antisymm hle (Nat.le_trans ht₀ (retired_le_trace sched _ ht))
  have hdone := hplace.done_of_halted (by rw [hn]; exact hhalted)
  have hstate := (hplace.ended_eq hdone).2
  rw [hn] at hdone hstate
  exact ⟨hdone, hstate⟩

end XMachine.Unibus.BusMemory.Processor
