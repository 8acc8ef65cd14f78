import XMachine.Unibus.MasterSlave

namespace XMachine.Unibus.Completion

open XMachine.Lib XMachine.Cpu XMachine.Mem XMachine.Unibus.MasterSlave
open XMachine.Unibus.BusMemory (Asks Answers CpuStage slaveRequest Node.receives)

/-!
# Completion — the transfers reported done

* `Sound` — every call that saw `R_DONE` has its own reply of the device;
* `Meets` — the slave answers with `R_DONE` in its mailbox, and the device serves
  the request that is there;
* `sound_of_runMeets` — runs whose steps meet the second keep the first.

Where the slave finds anything else `handle_req` still sends a response, with
`ssyn` negated, and the master takes it as any other.
-/

/-! ### What is promised -/

/-- The reply is the one to the call: the device took its request after the call
    was made and before the next, and posted what it returned. -/
structure Fulfils (r : Report) (e : Reply) : Prop where
  number : e.number = r.number
  seen : e.seen = slaveRequest r.call
  value : r.value = returned r.call e.result.value

/-- Every call that saw `R_DONE` has a reply of its own, in order, and no
    response with `ssyn` negated has been taken. -/
structure Sound {σ : Type} (s : Sys σ) : Prop where
  replies : ∃ done late, s.replies = done ++ late ∧ List.Forall₂ Fulfils s.reports done
  accepted : ∀ a ∈ s.accepted, a = .asserted

section Condition

variable {σ : Type} (s : Sys σ)

/-- Back from `slave_wait`, the slave finds `R_DONE` in its mailbox. -/
def Answered : Act → Prop
  | .slaveData _ => Node.answers s.slave.node = true → s.slave.node.slave.op = .rDone
  | _ => True

/-- The device serves the request in its mailbox, as after `data_bus_check`. -/
def Checked : Act → Prop
  | .slaveMain req => s.slave.server = .woken → req = dataBusCheck s.slave.node.slave
  | _ => True

/-- The slave answers with `R_DONE`, and the device serves what it was sent. -/
def Meets (a : Act) : Prop := Answered s a ∧ Checked s a

instance (a : Act) : Decidable (Answered s a) :=
  match a with
  | .slaveData _ => inferInstanceAs (Decidable (_ → _))
  | .setMaster _ | .setSlave _ | .masterMain _ | .masterData _ | .slaveMain _ | .spurious =>
    instDecidableTrue

instance (a : Act) : Decidable (Checked s a) :=
  match a with
  | .slaveMain _ => inferInstanceAs (Decidable (_ → _))
  | .spurious | .setMaster _ | .setSlave _ | .masterMain _ | .masterData _ | .slaveData _ =>
    instDecidableTrue

instance (a : Act) : Decidable (Meets s a) := inferInstanceAs (Decidable (_ ∧ _))

end Condition

/-! ### The invariant -/

/-- The stages of the two nodes and what is on the sockets go together; the
    Boolean says that the device has posted its result. -/
inductive Joint (call : Call) (v : Option Word) :
    CpuStage → SlaveStage → Bool → List DataBusReq → List Response → Prop
  | before {g} (hg : g = .idle ∨ g = .posted ∨ g = .taken) : Joint call v g .free false [] []
  | sent {m} (hm : Asks call m) : Joint call v .out .free false [m] []
  | served {h m} (hh : h.request = some m) (hm : Asks call m) :
      Joint call v .out h h.isReplied [] []
  | answered {m} (hm : Answers call v m) : Joint call v .out .free true [] [⟨m, .asserted⟩]
  /-- The request or the response has been dropped. -/
  | lost {b} : Joint call v .out .free b [] []
  | storing {m} (hm : Answers call v m) : Joint call v (.storing m) .free true [] []
  | after {g} (hg : g = .stored ∨ g = .done) : Joint call v g .free true [] []

/-- The replies are those to the calls reported, and the one to the call on its way. -/
def Logged (call : Call) (v : Option Word) (made : ℕ) (reports : List Report)
    (replies : List Reply) : Bool → Prop
  | false => List.Forall₂ Fulfils reports replies
  | true => ∃ old e, replies = old ++ [e] ∧ List.Forall₂ Fulfils reports old ∧
      Fulfils ⟨made, call, v⟩ e

/-- A call is at some stage, `x` being the result the device posts. -/
def Inv {σ : Type} (s : Sys σ) : Prop :=
  ∃ call x g h b, MasterAt call (returned call x) g s.master ∧
    SlaveAt call x h s.made s.taken s.slave ∧
    Joint call (returned call x) g h b s.toSlave s.toMaster ∧
    Logged call (returned call x) s.made s.reports s.replies b ∧ ∀ a ∈ s.accepted, a = .asserted

section Inv

variable {σ : Type} {s : Sys σ}

/-- With the sockets named. -/
theorem inv_of {call : Call} {x : Word} {g : CpuStage} {h : SlaveStage} {b : Bool}
    {out : List DataBusReq} {back : List Response} (hout : s.toSlave = out)
    (hback : s.toMaster = back) (hm : MasterAt call (returned call x) g s.master)
    (hs : SlaveAt call x h s.made s.taken s.slave)
    (hj : Joint call (returned call x) g h b out back)
    (hlog : Logged call (returned call x) s.made s.reports s.replies b)
    (haccepted : ∀ a ∈ s.accepted, a = .asserted) : Inv s := by
  subst hout hback
  exact ⟨call, x, g, h, b, hm, hs, hj, hlog, haccepted⟩

theorem inv_start (isMaster : Bool) (dev : σ) : Inv (start isMaster dev) := by
  refine ⟨.readDataIn 0, 0, .idle, .free, false, ⟨⟨true, .inl rfl⟩, rfl, rfl, rfl, rfl⟩,
    ⟨⟨rfl, rfl, rfl⟩, ⟨true, .inl rfl⟩, trivial, .inl rfl⟩, .before (.inl rfl), .nil, ?_⟩
  exact fun a ha => absurd ha List.not_mem_nil

theorem Inv.sound (h : Inv s) : Sound s := by
  obtain ⟨call, x, g, h, b, -, -, -, hlog, haccepted⟩ := h
  refine ⟨?_, haccepted⟩
  cases b with
  | false => exact ⟨s.replies, [], (List.append_nil _).symm, hlog⟩
  | true =>
    obtain ⟨old, e, hreplies, hold, -⟩ := hlog
    exact ⟨old, [e], hreplies, hold⟩

variable (serve : σ → Xfer → σ × Option Xfer) (f : Addr → Bool)

theorem Inv.setMaster (h : Inv s) (b : Bool) : Inv (step serve f (.setMaster b) s) := by
  obtain ⟨call, x, g, h, b', hm, hs, hj, hlog, haccepted⟩ := h
  refine ⟨call, x, g, h, b', ⟨?_, hm.caller, hm.master, hm.buffer, hm.issued⟩, hs, hj, hlog,
    haccepted⟩
  cases g <;> exact hm.pc

theorem Inv.setSlave (h : Inv s) (b : Bool) : Inv (step serve f (.setSlave b) s) := by
  obtain ⟨call, x, g, h, b', hm, hs, hj, hlog, haccepted⟩ := h
  exact ⟨call, x, g, h, b', hm, ⟨hs.quiet.congr rfl rfl, hs.pc, hs.mailbox,
    hs.server⟩, hj, hlog, haccepted⟩

theorem Inv.spurious (h : Inv s) : Inv (step serve f .spurious s) := by
  obtain ⟨call, x, g, h, b, hm, hs, hj, hlog, haccepted⟩ := h
  exact ⟨call, x, g, h, b, hm, hs.signal hs.server, hj, hlog, haccepted⟩

theorem Inv.slaveMain (h : Inv s) (req : Xfer) (hchecked : Checked s (.slaveMain req)) :
    Inv (step serve f (.slaveMain req) s) := by
  obtain ⟨call, x, g, h, b, hm, hs, hj, hlog, haccepted⟩ := h
  obtain ⟨hnot, hs'⟩ | ⟨m, result, rfl, hc, htaken, hs'⟩ := hs.main serve req hchecked
  · -- Nothing is posted, and the record stays.
    have hnone : replied s = [] := by
      unfold replied
      split
      · next result hc => exact absurd hc (hnot result)
      · rfl
    refine ⟨call, x, g, h, b, hm, hs', hj, ?_, haccepted⟩
    show Logged _ _ _ _ (s.replies ++ replied s) _
    rw [hnone, List.append_nil]
    exact hlog
  · -- The device posts its result, which is the reply to the call on its way.
    have hone : replied s = [⟨s.made, slaveRequest call, result⟩] := by
      rw [replied, hc, htaken]
    have hnotWoken : (if s.slave.server = .woken then (s.made, req) else s.taken) = s.taken :=
      if_neg fun hw => by rw [hw] at hc; cases hc
    generalize hout : s.toSlave = out, hback : s.toMaster = back at hj
    cases hj with
    | served hh hasks =>
      have hm' : MasterAt call (returned call result.value) .out s.master :=
        ⟨hm.pc, hm.caller, hm.master, hm.buffer, hm.issued⟩
      have hs'' : SlaveAt call result.value (.replied m) s.made
          (if s.slave.server = .woken then (s.made, req) else s.taken)
          (serverMain serve req s.slave) := by
        rwa [hnotWoken]
      have hlog' : Logged call (returned call result.value) s.made s.reports
          (s.replies ++ replied s) true := by
        rw [hone]
        exact ⟨s.replies, _, rfl, hlog, rfl, rfl, rfl⟩
      exact inv_of hout hback hm' hs'' (.served hh hasks) hlog' haccepted

theorem step_slaveData_nil (hq : s.toSlave = []) (uninit : DataBusReq) :
    step serve f (.slaveData uninit) s = { s with
      slave := (s.slave.data false (some f) uninit none).1
      toMaster := s.toMaster ++ ((s.slave.data false (some f) uninit none).2.map
        (⟨·, slaveSsyn s.slave.node.slave⟩)).toList } := by
  simp [step, hq, leave]

/-- The data-bus thread of the slave has a request, or is free with nothing to receive. -/
theorem Inv.slaveData (h : Inv s) (uninit : DataBusReq)
    (hanswered : Answered s (.slaveData uninit)) : Inv (step serve f (.slaveData uninit) s) := by
  obtain ⟨call, x, g, h, b, hm, hs, hj, hlog, haccepted⟩ := h
  generalize hout : s.toSlave = out, hback : s.toMaster = back at hj
  -- What a step leaves that sends nothing and receives nothing.
  have hstay {h' : SlaveStage} (hq : out = [])
      (hnone : (s.slave.data false (some f) uninit none).2 = none)
      (hs' : SlaveAt call x h' s.made s.taken (s.slave.data false (some f) uninit none).1)
      (hj' : Joint call (returned call x) g h' b [] back) :
      Inv (step serve f (.slaveData uninit) s) := by
    have hq := hout.trans hq
    rw [step_slaveData_nil serve f hq, hnone]
    exact inv_of hq ((List.append_nil _).trans hback) hm hs' hj' hlog haccepted
  cases hj with
  | served hh hasks =>
    cases h with
    | free => cases hh
    | accepted m =>
      obtain rfl := Option.some.inj hh
      obtain ⟨hnone, hs'⟩ := hs.data_accepted (some f) uninit hasks
      exact hstay rfl hnone hs' (.served rfl hasks)
    | posted m =>
      obtain rfl := Option.some.inj hh
      obtain ⟨hnone, hs'⟩ := hs.data_posted (some f) uninit
      exact hstay rfl hnone hs' (.served rfl hasks)
    | asked m =>
      obtain rfl := Option.some.inj hh
      -- Without a reply the thread is still in `slave_wait`: it may not answer yet.
      have hwait : s.slave.node.pc = .beginWait m ∨ s.slave.node.pc = .waiting m := by
        rcases hs.pc with hpc | hpc | hpc
        · exact .inl hpc
        · exact .inr hpc
        · have hop : s.slave.node.slave.op = .rDone := hanswered (by rw [Node.answers, hpc])
          rw [show s.slave.node.slave = slaveRequest call from hs.mailbox] at hop
          cases call <;> cases hop
      obtain ⟨hnone, hs'⟩ := hs.data_wait (some f) uninit (.inl rfl) hwait
      exact hstay rfl hnone hs' (.served rfl hasks)
    | replied m =>
      obtain rfl := Option.some.inj hh
      have hanswer (hpc : s.slave.node.pc = .answer m) :
          Inv (step serve f (.slaveData uninit) s) := by
        obtain ⟨r, hsome, hr, hssyn, hs'⟩ := hs.data_answer (some f) uninit hpc hasks
        rw [step_slaveData_nil serve f hout, hsome, hssyn]
        exact inv_of hout (congrArg (· ++ _) hback) hm hs' (.answered hr) hlog haccepted
      have hgoes (hpc : s.slave.node.pc = .beginWait m ∨ s.slave.node.pc = .waiting m) :
          Inv (step serve f (.slaveData uninit) s) := by
        obtain ⟨hnone, hs'⟩ := hs.data_wait (some f) uninit (.inr rfl) hpc
        exact hstay rfl hnone hs' (.served rfl hasks)
      rcases hs.pc with hpc | hpc | hpc
      · exact hgoes (.inl hpc)
      · exact hgoes (.inr hpc)
      · exact hanswer hpc
  | @sent m hasks =>
    by_cases hreceives : Node.receives s.slave.node = true
    · obtain ⟨hnone, hs'⟩ := hs.data_receive (some f) uninit hasks hreceives
      have hstep : step serve f (.slaveData uninit) s = { s with
          slave := (s.slave.data false (some f) uninit (some m)).1, toSlave := [] } := by
        simp [step, hout, leave, hreceives, hnone]
      rw [hstep]
      rcases hs' with hs' | hs'
      · exact inv_of rfl hback hm hs' (.served rfl hasks) hlog haccepted
      · exact inv_of rfl hback hm hs' .lost hlog haccepted
    · -- The request stays in the socket.
      rw [Bool.not_eq_true] at hreceives
      obtain ⟨hnone, hs'⟩ := hs.data_free (some f) uninit
      have hsame : s.slave.data false (some f) uninit (some m)
          = s.slave.data false (some f) uninit none := by
        simp only [ServerSide.data, advance_of_not_receives (some f) uninit hreceives (some m)]
      have hstep : step serve f (.slaveData uninit) s = { s with
          slave := (s.slave.data false (some f) uninit none).1 } := by
        simp [step, hout, leave, hreceives, hsame, hnone]
      rw [hstep]
      exact inv_of hout hback hm hs' (.sent hasks) hlog haccepted
  | before hg =>
    obtain ⟨hnone, hs'⟩ := hs.data_free (some f) uninit
    exact hstay rfl hnone hs' (.before hg)
  | answered hr =>
    obtain ⟨hnone, hs'⟩ := hs.data_free (some f) uninit
    exact hstay rfl hnone hs' (.answered hr)
  | lost =>
    obtain ⟨hnone, hs'⟩ := hs.data_free (some f) uninit
    exact hstay rfl hnone hs' .lost
  | storing hr =>
    obtain ⟨hnone, hs'⟩ := hs.data_free (some f) uninit
    exact hstay rfl hnone hs' (.storing hr)
  | after hg =>
    obtain ⟨hnone, hs'⟩ := hs.data_free (some f) uninit
    exact hstay rfl hnone hs' (.after hg)

theorem step_masterData_nil (hq : s.toMaster = []) (uninit : DataBusReq) :
    step serve f (.masterData uninit) s = { s with
      master := (s.master.data false uninit none).1
      toSlave := s.toSlave ++ (s.master.data false uninit none).2.toList } := by
  simp [step, hq, leave]

/-- The data-bus thread of the master takes, sends, or finds what has come. -/
theorem Inv.masterData (h : Inv s) (uninit : DataBusReq) :
    Inv (step serve f (.masterData uninit) s) := by
  obtain ⟨call, x, g, h, b, hm, hs, hj, hlog, haccepted⟩ := h
  generalize hout : s.toSlave = out, hback : s.toMaster = back at hj
  -- What a step leaves that sends nothing and receives nothing.
  have hstay {g' : CpuStage} (hq : back = []) (hnone : (s.master.data false uninit none).2 = none)
      (hm' : MasterAt call (returned call x) g' (s.master.data false uninit none).1)
      (hj' : Joint call (returned call x) g' h b out []) :
      Inv (step serve f (.masterData uninit) s) := by
    have hq := hback.trans hq
    rw [step_masterData_nil serve f hq, hnone]
    exact inv_of ((List.append_nil _).trans hout) hq hm' hs hj' hlog haccepted
  cases hj with
  | before hg =>
    rcases hg with rfl | rfl | rfl
    · obtain ⟨hnone, hm'⟩ := hm.data_rest uninit (.inl rfl)
      exact hstay rfl hnone hm' (.before (.inl rfl))
    · obtain ⟨hnone, hm' | hm'⟩ := hm.data_posted uninit
      · exact hstay rfl hnone hm' (.before (.inr (.inl rfl)))
      · exact hstay rfl hnone hm' (.before (.inr (.inr rfl)))
    · obtain ⟨hnone, hm'⟩ | ⟨m, hsome, hasks, hm'⟩ := hm.data_taken uninit
      · exact hstay rfl hnone hm' (.before (.inr (.inr rfl)))
      · rw [step_masterData_nil serve f hback, hsome]
        exact inv_of (congrArg (· ++ _) hout) hback hm' hs (.sent hasks) hlog haccepted
  | sent hasks =>
    obtain ⟨hnone, hm'⟩ := hm.data_rest uninit (.inr (.inl rfl))
    exact hstay rfl hnone hm' (.sent hasks)
  | served hh hasks =>
    obtain ⟨hnone, hm'⟩ := hm.data_rest uninit (.inr (.inl rfl))
    exact hstay rfl hnone hm' (.served hh hasks)
  | lost =>
    obtain ⟨hnone, hm'⟩ := hm.data_rest uninit (.inr (.inl rfl))
    exact hstay rfl hnone hm' .lost
  | storing hr =>
    obtain ⟨hnone, hm'⟩ := hm.data_storing uninit hr
    exact hstay rfl hnone hm' (.after (.inl rfl))
  | after hg =>
    rcases hg with rfl | rfl
    · obtain ⟨hnone, hm'⟩ := hm.data_stored uninit
      exact hstay rfl hnone hm' (.after (.inr rfl))
    · obtain ⟨hnone, hm'⟩ := hm.data_rest uninit (.inr (.inr rfl))
      exact hstay rfl hnone hm' (.after (.inr rfl))
  | @answered m hr =>
    by_cases hreceives : Node.receives s.master.node = true
    · -- The response received is one with `ssyn` asserted.
      obtain ⟨hnone, hm'⟩ := hm.data_receive uninit hr hreceives
      have hstep : ∃ as : List Assert, (∀ a ∈ as, a = .asserted) ∧
          step serve f (.masterData uninit) s = { s with
            master := (s.master.data false uninit (some m)).1, toMaster := []
            accepted := s.accepted ++ as } := by
        refine ⟨if Node.receives s.master.node ∧
          Node.stores (s.master.data false uninit (some m)).1.node then [.asserted] else [], ?_, ?_⟩
        · intro a ha
          split at ha
          · exact List.mem_singleton.mp ha
          · exact absurd ha List.not_mem_nil
        · simp [step, hback, leave, hreceives, hnone]
      obtain ⟨as, has, hstep⟩ := hstep
      have haccepted' : ∀ a ∈ s.accepted ++ as, a = .asserted := fun a ha =>
        (List.mem_append.mp ha).elim (haccepted a) (has a)
      rw [hstep]
      rcases hm' with hm' | hm'
      · exact inv_of hout rfl hm' hs (.storing hr) hlog haccepted'
      · exact inv_of hout rfl hm' hs .lost hlog haccepted'
    · -- The response stays in the socket.
      rw [Bool.not_eq_true] at hreceives
      obtain ⟨hnone, hm'⟩ := hm.data_rest uninit (.inr (.inl rfl))
      have hsame : s.master.data false uninit (some m) = s.master.data false uninit none := by
        simp only [CallerSide.data, advance_of_not_receives none uninit hreceives (some m)]
      have hstep : step serve f (.masterData uninit) s = { s with
          master := (s.master.data false uninit none).1 } := by
        simp [step, hback, leave, hreceives, hsame, hnone]
      rw [hstep]
      exact inv_of hout hback hm' hs (.answered hr) hlog haccepted

theorem step_masterMain_pending {call : Call} (next : Option Call)
    (hc : s.master.caller = .posted call ∨ s.master.caller = .waiting call) :
    step serve f (.masterMain next) s = { s with master := (s.master.main next).1 } := by
  rcases hc with hc | hc <;> simp [step, reported, hc]

/-- The main thread of the master makes a call, waits, or collects its result. -/
theorem Inv.masterMain (h : Inv s) (next : Option Call) :
    Inv (step serve f (.masterMain next) s) := by
  obtain ⟨call, x, g, h, b, hm, hs, hj, hlog, haccepted⟩ := h
  generalize hout : s.toSlave = out, hback : s.toMaster = back at hj
  by_cases hidle : g = .idle
  · -- Without a call on its way the slave is free and the sockets are empty.
    subst hidle
    have hc : s.master.caller = .idle := hm.caller
    obtain ⟨rfl, rfl, rfl, rfl⟩ : h = .free ∧ b = false ∧ out = [] ∧ back = [] := by
      cases hj with
      | before hg => exact ⟨rfl, rfl, rfl, rfl⟩
      | after hg => rcases hg with hg | hg <;> cases hg
    cases next with
    | none =>
      have hstep : step serve f (.masterMain none) s = s := by
        simp [step, CallerSide.main, reported, hc]
      rw [hstep]
      exact inv_of hout hback hm hs (.before (.inl rfl)) hlog haccepted
    | some call' =>
      have hstep : step serve f (.masterMain (some call')) s = { s with
          master := (s.master.main (some call')).1, made := s.made + 1 } := by
        simp [step, reported, hc]
      rw [hstep]
      have hs' : SlaveAt call' x .free (s.made + 1) s.taken s.slave :=
        ⟨hs.quiet, hs.pc, trivial, hs.server⟩
      exact inv_of hout hback hm.main_post hs' (.before (.inr (.inl rfl))) hlog haccepted
  · by_cases hwoken : s.master.caller = .woken call
    · -- The call ends, and its reply is the last one.
      obtain rfl : g = .done := by
        have hcaller := hm.caller
        rw [hwoken] at hcaller
        cases g with
        | done => rfl
        | idle => exact absurd rfl hidle
        | posted | taken | out | storing _ | stored => rcases hcaller with hc | hc <;> cases hc
      obtain ⟨rfl, rfl, rfl, rfl⟩ : h = .free ∧ b = true ∧ out = [] ∧ back = [] := by
        cases hj with
        | before hg => rcases hg with hg | hg | hg <;> cases hg
        | after hg => exact ⟨rfl, rfl, rfl, rfl⟩
      obtain ⟨hm', hop, hvalue⟩ := hm.main_done hwoken next
      obtain ⟨old, e, hreplies, hold, he⟩ := hlog
      have hstep : step serve f (.masterMain next) s = { s with
          master := (s.master.main next).1
          reports := s.reports ++ [⟨s.made, call, returned call x⟩] } := by
        simp [step, reported, hwoken, hop, hvalue]
      rw [hstep]
      refine inv_of hout hback hm' hs (.before (.inl rfl)) ?_ haccepted
      show List.Forall₂ Fulfils (s.reports ++ _) s.replies
      rw [hreplies]
      exact List.rel_append hold (.cons he .nil)
    · obtain ⟨hm', hc⟩ := hm.main_pending hidle hwoken next
      rw [step_masterMain_pending serve f next hc]
      exact inv_of hout hback hm' hs hj hlog haccepted

theorem inv_step (s : Sys σ) (a : Act) (h : Inv s) (hmeets : Meets s a) :
    Inv (step serve f a s) := by
  cases a with
  | setMaster b => exact h.setMaster serve f b
  | setSlave b => exact h.setSlave serve f b
  | masterMain next => exact h.masterMain serve f next
  | masterData uninit => exact h.masterData serve f uninit
  | slaveMain req => exact h.slaveMain serve f req hmeets.2
  | slaveData uninit => exact h.slaveData serve f uninit hmeets.1
  | spurious => exact h.spurious serve f

end Inv

/-! ### Runs -/

/-- In the runs whose steps all meet the condition, what is promised holds. -/
theorem sound_of_runMeets {σ : Type} {serve : σ → Xfer → σ × Option Xfer} {f : Addr → Bool}
    {isMaster : Bool} {dev : σ} {as : List Act}
    (hmeets : RunMeets (step serve f) Meets as (start isMaster dev)) :
    Sound (runActs (step serve f) as (start isMaster dev)) :=
  (runActs_invariant_of_meets (inv_step serve f) as _ (inv_start isMaster dev) hmeets).sound

end XMachine.Unibus.Completion
