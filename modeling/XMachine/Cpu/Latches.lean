import XMachine.Cpu.Execute
import XMachine.Cpu.Operands

namespace XMachine.Cpu

open XMachine.Lib

/-!
# CPU — what an instruction learns from the latches

`alu`, `src_address` and `dest_address` are working storage: what an earlier
instruction left there should not show in the registers, the memory or the run
state.  Two runs of one handler are compared on states that agree on all that
is visible (`Agree`) and differ in the three latches.

A handler is free of leaks exactly when every operand specifier it sets up has
a case in the addressing routine of its register class; the missing cases are
modes 1, 4, 5 and 7 of PC and mode 5 of SP.
-/

/-! ### Visible agreement -/

/-- Agreement on registers (PSW included), memory and the run state. -/
structure Agree (m m' : Machine) : Prop where
  regs : m.regs = m'.regs
  mem : m.mem = m'.mem
  halted : m.halted = m'.halted

namespace Agree

variable {m m' : Machine} (h : Agree m m')

include h

theorem sp : m.sp = m'.sp := congrFun h.regs .sp

theorem pc : m.pc = m'.pc := congrFun h.regs .pc

theorem psw : m.psw = m'.psw := congrFun h.regs .psw

theorem fetchData (a : Addr) : fetchData m a = fetchData m' a := by
  unfold Cpu.fetchData fetchDataRegister readDataIn
  rw [h.regs, h.mem]

theorem wordAt (w : Word) : wordAt m w = Cpu.wordAt m' w := h.fetchData _

theorem wordAtSum (v w : Word) : wordAtSum m v w = Cpu.wordAtSum m' v w := h.fetchData _

theorem fetchRegisterContents (reg : Word) :
    fetchRegisterContents m reg = Cpu.fetchRegisterContents m' reg := by
  unfold Cpu.fetchRegisterContents
  rw [h.regs]

theorem setReg (r : Reg) (v : Word) : Agree (m.setReg r v) (m'.setReg r v) where
  regs := by simp [h.regs]
  mem := h.mem
  halted := h.halted

theorem setMem (st : ByteStore Addr) : Agree (m.setMem st) (m'.setMem st) where
  regs := h.regs
  mem := rfl
  halted := h.halted

theorem setAlu (v v' : Word) : Agree (m.setAlu v) (m'.setAlu v') := ⟨h.regs, h.mem, h.halted⟩

theorem incRegister (reg : Word) (b : Bool) :
    Agree (incRegister m reg b) (Cpu.incRegister m' reg b) := by
  unfold Cpu.incRegister
  split
  · exact h
  · rw [h.regs]
    exact h.setReg _ _

theorem decRegister (reg : Word) (b : Bool) :
    Agree (decRegister m reg b) (Cpu.decRegister m' reg b) := by
  unfold Cpu.decRegister
  split
  · exact h
  · rw [h.regs]
    exact h.setReg _ _

theorem storeDataRegister (a : Addr) (v : Word) :
    Agree (storeDataRegister m a v) (Cpu.storeDataRegister m' a v) := by
  unfold Cpu.storeDataRegister
  split
  · exact h.setReg _ _
  · exact h

theorem storeData (a : Addr) (v : Word) : Agree (storeData m a v) (Cpu.storeData m' a v) := by
  unfold Cpu.storeData writeDataOut
  split
  · exact h.storeDataRegister a v
  · rw [h.mem]
    exact h.setMem _

theorem storeDataB (a : Addr) (v : Byte) : Agree (storeDataB m a v) (Cpu.storeDataB m' a v) := by
  unfold Cpu.storeDataB writeDataOutB
  split
  · exact h.storeDataRegister a _
  · rw [h.mem]
    exact h.setMem _

/-- The address computed for an operand does not depend on the latches. -/
theorem target (o : Specifier) : o.target m = o.target m' := by
  simp only [Specifier.target, Machine.pc, h.regs, h.wordAt, h.wordAtSum]

theorem address (loc : Loc) (b : Bool) (o : Specifier) :
    Agree (address loc b o m) (Cpu.address loc b o m') where
  regs := by
    funext r
    simp only [address_regs, Specifier.regsAfter, h.regs]
  mem := by simp only [address_mem, Specifier.memAfter, h.mem, h.regs, h.wordAt]
  halted := by simp only [address_halted, h.halted]

/-- The store and flag phases, from equal `alu` and equal destination latches. -/
theorem finish {st : AluStore} (fl : FlagUpdate) (ha : m.alu = m'.alu)
    (hd : m.destAddress = m'.destAddress) :
    Agree (fl.apply (st.apply m)) (fl.apply (st.apply m')) := by
  have hst : Agree (st.apply m) (st.apply m') ∧ (st.apply m).alu = (st.apply m').alu := by
    cases st with
    | none => exact ⟨h, ha⟩
    | word =>
      rw [AluStore.apply, AluStore.apply, ha, hd]
      exact ⟨h.storeData _ _, by simp [ha]⟩
    | byte =>
      rw [AluStore.apply, AluStore.apply, ha, hd]
      exact ⟨h.storeDataB _ _, by simp [ha]⟩
    | psw =>
      rw [AluStore.apply, AluStore.apply, ha]
      exact ⟨h.setReg _ _, by simp [ha]⟩
  rw [FlagUpdate.apply_eq, FlagUpdate.apply_eq, hst.2, hst.1.psw]
  exact hst.1.setReg _ _

end Agree

/-! ### Handlers that load their latches -/

/-- The specifiers the handler of an instruction word sets up. -/
def usedSpecifiers (w : Word) : List Specifier :=
  match (decode w).group with
  | .double => [.src w, .dest w]
  | .single => if (decode w).isStub then [] else [.dest w]
  | .jmp | .jsr => [.dest w]
  | _ => []

/-- Whatever the latches held, the handler leaves the same visible state. -/
def NoLeak (w : Word) : Prop :=
  ∀ m m' : Machine, m.ir = w → m'.ir = w → Agree m m' →
    Agree (execInstruction m) (execInstruction m')

section Fresh

variable {m m' : Machine} (h : Agree m m') (hir : m.ir = m'.ir)

include h hir

theorem oneOperand_agree {b : Bool} {f : Word → Word → Word} {st : AluStore} {fl : FlagUpdate}
    (hp : (Specifier.dest m.ir).present = true) :
    Agree (oneOperand b f st fl m) (oneOperand b f st fl m') := by
  rw [oneOperand, oneOperand, setupDestAddressing_eq, setupDestAddressing_eq, ← hir]
  have hag := h.address .dest b (.dest m.ir)
  have hd := (address_destLatch b m hp).trans ((h.target _).trans
    (address_destLatch b m' hp).symm)
  rw [hd, hag.fetchData, hag.psw]
  exact (hag.setAlu _ _).finish fl rfl hd

theorem twoOperand_agree {b : Bool} {f : Word → Word → Word} {st : AluStore} {fl : FlagUpdate}
    (hps : (Specifier.src m.ir).present = true) (hpd : (Specifier.dest m.ir).present = true) :
    Agree (twoOperand b f st fl m) (twoOperand b f st fl m') := by
  rw [twoOperand, twoOperand, setupSrcAddressing_eq, setupSrcAddressing_eq, ← hir,
    setupDestAddressing_eq, setupDestAddressing_eq, address_ir, address_ir, ← hir]
  have hag1 := h.address .src b (.src m.ir)
  have hag := hag1.address .dest b (.dest m.ir)
  have hs := (address_srcLatch b m hps).trans ((h.target _).trans
    (address_srcLatch b m' hps).symm)
  have hd := (address_destLatch b _ hpd).trans ((hag1.target _).trans
    (address_destLatch b _ hpd).symm)
  rw [address_dest_srcAddress, address_dest_srcAddress, hs, hd, hag.fetchData, hag.fetchData]
  exact (hag.setAlu _ _).finish fl rfl hd

theorem JMP_agree (hp : (Specifier.dest m.ir).present = true) : Agree (JMP m) (JMP m') := by
  rw [JMP, JMP, setupDestAddressing_eq, setupDestAddressing_eq, ← hir]
  have hag := h.address .dest false (.dest m.ir)
  have hd := (address_destLatch false m hp).trans ((h.target _).trans
    (address_destLatch false m' hp).symm)
  rw [hd, hag.fetchData]
  exact hag.setReg _ _

theorem JSR_agree (hp : (Specifier.dest m.ir).present = true) : Agree (JSR m) (JSR m') := by
  rw [JSR, JSR, setupDestAddressing_eq, setupDestAddressing_eq, ← hir]
  have hag := h.address .dest false (.dest m.ir)
  have hd := (address_destLatch false m hp).trans ((h.target _).trans
    (address_destLatch false m' hp).symm)
  generalize address .dest false (.dest m.ir) m = n at hag hd
  generalize address .dest false (.dest m.ir) m' = n' at hag hd
  have h1 := hag.storeData (n'.sp.setWidth 32)
    (fetchRegisterContents n' ((m.ir &&& 0o0700) >>> 6))
  rw [hd, hag.sp, hag.fetchRegisterContents]
  generalize storeData n _ _ = p at h1
  generalize storeData n' _ _ = p' at h1
  have h2 := h1.decRegister p'.sp false
  rw [h1.sp]
  generalize decRegister p _ _ = q at h2
  generalize decRegister p' _ _ = q' at h2
  rw [h2.pc]
  exact (h2.storeDataRegister _ _).setReg _ _

theorem RTS_agree : Agree (RTS m) (RTS m') := by
  rw [RTS, RTS, ← hir, h.fetchRegisterContents]
  have h1 := h.setReg .pc (fetchRegisterContents m' (m.ir &&& 0o7))
  generalize m.setReg .pc _ = p at h1
  generalize m'.setReg .pc _ = p' at h1
  have h2 := h1.incRegister p'.sp false
  rw [h1.sp]
  generalize incRegister p _ _ = q at h2
  generalize incRegister p' _ _ = q' at h2
  rw [h2.sp, h2.fetchData]
  exact h2.storeDataRegister _ _

theorem takeBranch_agree : Agree (takeBranch m) (takeBranch m') := by
  rw [takeBranch, takeBranch, getBranchOffset, getBranchOffset, h.pc, hir]
  exact h.setReg _ _

theorem branch_agree (f : Word → Word) (taken : Word → Bool) :
    Agree (branch f taken m) (branch f taken m') := by
  rw [branch_eq, branch_eq, h.psw]
  have hag := h.setAlu (f m'.psw) (f m'.psw)
  by_cases ht : taken (f m'.psw) = true
  · rw [if_pos ht, if_pos ht]
    exact takeBranch_agree hag hir
  · rw [if_neg ht, if_neg ht]
    exact hag

end Fresh

/-- A handler all of whose specifiers are present leaks nothing. -/
theorem noLeak_of_present {w : Word} (hp : ∀ o ∈ usedSpecifiers w, o.present = true) :
    NoLeak w := by
  rintro m m' rfl hir h
  rw [execInstruction, execInstruction, hir]
  have hshape := handler_cases (decode m.ir)
  unfold usedSpecifiers at hp
  generalize hop : decode m.ir = op at *
  generalize handler op = f at *
  cases hshape with
  | two hg hn b f st fl hst hs =>
    simp only [hg, List.mem_cons, List.not_mem_nil, or_false, forall_eq_or_imp, forall_eq] at hp
    exact twoOperand_agree h hir.symm hp.1 hp.2
  | one hg hn b f st fl hs =>
    simp only [hg, hn, Bool.false_eq_true, if_false, List.mem_singleton, forall_eq] at hp
    exact oneOperand_agree h hir.symm hp
  | stub hg hn => exact h
  | br hg => exact takeBranch_agree h hir.symm
  | branch hg f taken => exact branch_agree h hir.symm f taken
  | jmp hj =>
    subst hj
    exact JMP_agree h hir.symm (hp _ (List.mem_singleton_self _))
  | jsr hj =>
    subst hj
    exact JSR_agree h hir.symm (hp _ (List.mem_singleton_self _))
  | rts hj => exact RTS_agree h hir.symm
  | halt hj => exact ⟨h.regs, h.mem, rfl⟩

/-! ### Handlers that use a stale latch -/

/-- A missing mode does nothing at all. -/
theorem address_missing (loc : Loc) (b : Bool) {o : Specifier} (m : Machine)
    (h : o.present = false) : address loc b o m = m := by
  obtain ⟨mode, reg⟩ := o
  rw [address_eq]
  revert h
  fin_cases reg <;> fin_cases mode <;> first | (intro h; exact absurd h (by decide)) | (intro; rfl)

/-- Three memory cells no program address reaches: the words 0 and 0140300,
    and one like the rest of memory. -/
def zeroCell : Addr := 0x80000
def bitsCell : Addr := 0x80010
def idleCell : Addr := 0x80020

/-- 0x55 in every byte of registers and memory but the two cells. -/
def latched (ir : Word) (src dest : Addr) : Machine where
  regs _ := 0x5555
  alu := 0
  ir := ir
  srcAddress := src
  destAddress := dest
  halted := false
  mem := ByteStore.writeWord (ByteStore.writeWord (fun _ => 0x55) zeroCell 0) bitsCell 0o140300

theorem latched_agree (ir ir' : Word) (src src' dest dest' : Addr) :
    Agree (latched ir src dest) (latched ir' src' dest') := ⟨rfl, rfl, rfl⟩

/-- The values an operand fetched there can have. -/
def nearby : List Word := [0x5553, 0x5554, 0x5555, 0x5556, 0x5557]

/-- What addressing leaves there: an operand close to 0x5555, and the two cells
    and the PSW as they were. -/
theorem address_latched : ∀ (loc : Loc) (b : Bool) (o : Specifier),
    let m := address loc b o (latched 0 idleCell idleCell)
    fetchData m (m.loc loc) ∈ nearby ∧ m.mem.readWord zeroCell = 0 ∧
      m.mem.readWord bitsCell = 0o140300 ∧ m.psw = 0x5555 := by
  intro loc
  cases loc <;> decide +kernel

/-- The same with other contents of IR and of the latches. -/
theorem address_latched' (loc : Loc) (b : Bool) (o : Specifier) (w : Word) (src dest : Addr) :
    let m := address loc b o (latched w src dest)
    m.mem.readWord zeroCell = 0 ∧ m.mem.readWord bitsCell = 0o140300 ∧ m.psw = 0x5555 := by
  have hag := (latched_agree w 0 src idleCell dest idleCell).address loc b o
  dsimp only
  rw [hag.mem, hag.psw]
  exact (address_latched loc b o).2

/-- The PSW a handler ends with. -/
def pswAfter (st : AluStore) (fl : FlagUpdate) (p v : Word) : Word :=
  fl.psw (if st = .psw then v else p) v

theorem finish_psw {st : AluStore} (fl : FlagUpdate) (m : Machine)
    (h : st.isDest = true → m.destAddress ≠ Reg.psw.busAddr) :
    (fl.apply (st.apply m)).psw = pswAfter st fl m.psw m.alu := by
  rw [FlagUpdate.apply_eq]
  cases st with
  | none => simp [AluStore.apply, pswAfter, Machine.psw]
  | word => simp [AluStore.apply, pswAfter, Machine.psw, storeData_regs_of_ne m _ (h rfl)]
  | byte =>
    simp [AluStore.apply, pswAfter, Machine.psw, storeDataB_regs_of_ne m _ (h rfl)]
  | psw => simp [AluStore.apply, pswAfter, Machine.psw]

theorem finish_mem (st : AluStore) (fl : FlagUpdate) (m : Machine) :
    (fl.apply (st.apply m)).mem = (st.apply m).mem := by
  rw [FlagUpdate.apply_eq, Machine.setReg_mem]

/-! #### A stale destination -/

/-- The results `v` and `v'` of a handler that ran with the two cells as its
    destination can be told apart: by the PSW, or since not both cells can have
    been left as the other run leaves them. -/
def DestTold (st : AluStore) (fl : FlagUpdate) (v v' : Word) : Prop :=
  pswAfter st fl 0x5555 v = pswAfter st fl 0x5555 v' →
    (st.isDest = true ∧ (lowByte v ≠ 0 ∨ lowByte v' ≠ 0o300)) ∨
      (st = .word ∧ (v ≠ 0 ∨ v' ≠ 0o140300))

instance (st : AluStore) (fl : FlagUpdate) (v v' : Word) : Decidable (DestTold st fl v v') :=
  inferInstanceAs (Decidable (_ → _))

/-- What a store does to the memory when its address passes the translation unchanged. -/
theorem apply_mem_cell (st : AluStore) {m : Machine} {a : Addr} (hd : m.destAddress = a)
    (hint : isInternalBusAddr a = false) (htr : translateBusAddr a = a) :
    (st.apply m).mem = match st with
      | .word => m.mem.writeWord a m.alu
      | .byte => m.mem.writeByte a (lowByte m.alu)
      | _ => m.mem := by
  cases st with
  | none => rfl
  | word => rw [AluStore.apply, hd, storeData_external m hint, htr, Machine.setMem_mem]
  | byte => rw [AluStore.apply, hd, storeDataB_external m hint, htr, Machine.setMem_mem, lowByte]
  | psw => rfl

theorem readWord_lowByte {st : ByteStore Addr} {a : Addr} {w : Word} (h : st.readWord a = w) :
    st a = lowByte w := by
  rw [← h, ByteStore.readWord, lowByte_joinBytes]

theorem not_agree_of_destTold {st : AluStore} {fl : FlagUpdate} {m m' : Machine} {v v' : Word}
    (hag : Agree m m') (hd : m.destAddress = zeroCell) (hd' : m'.destAddress = bitsCell)
    (hz : m.mem.readWord zeroCell = 0) (hb : m.mem.readWord bitsCell = 0o140300)
    (hp : m.psw = 0x5555) (htold : DestTold st fl v v') :
    ¬ Agree (fl.apply (st.apply (m.setAlu v))) (fl.apply (st.apply (m'.setAlu v'))) := by
  intro h
  have hpsw := h.psw
  rw [finish_psw fl _ fun _ => by rw [Machine.setAlu_destAddress, hd]; decide +kernel,
    finish_psw fl _ fun _ => by rw [Machine.setAlu_destAddress, hd']; decide +kernel] at hpsw
  simp only [Machine.psw, Machine.setAlu_regs, Machine.setAlu_alu, ← hag.regs] at hpsw
  rw [← Machine.psw, hp] at hpsw
  have hmem := h.mem
  rw [finish_mem, finish_mem,
    apply_mem_cell st (m := m.setAlu v) hd (by decide +kernel) (by decide +kernel),
    apply_mem_cell st (m := m'.setAlu v') hd' (by decide +kernel) (by decide +kernel)] at hmem
  simp only [Machine.setAlu_mem, Machine.setAlu_alu, ← hag.mem] at hmem
  -- Each cell was written by one run and left alone by the other.
  cases st with
  | none => exact absurd (htold hpsw) (by simp [AluStore.isDest])
  | psw => exact absurd (htold hpsw) (by simp [AluStore.isDest])
  | word =>
    have hv := congrArg (ByteStore.readWord · zeroCell) hmem
    have hv' := congrArg (ByteStore.readWord · bitsCell) hmem
    dsimp only at hv hv'
    rw [ByteStore.readWord_writeWord _ _ (by decide +kernel),
      ByteStore.readWord_writeWord_of_disjoint _ _
      (by decide +kernel) (by decide +kernel) (by decide +kernel) (by decide +kernel), hz] at hv
    rw [ByteStore.readWord_writeWord _ _ (by decide +kernel),
      ByteStore.readWord_writeWord_of_disjoint _ _
      (by decide +kernel) (by decide +kernel) (by decide +kernel) (by decide +kernel), hb] at hv'
    subst hv hv'
    exact absurd (htold hpsw) (by decide +kernel)
  | byte =>
    dsimp only at hmem
    have hv := congrFun hmem zeroCell
    have hv' := congrFun hmem bitsCell
    rw [ByteStore.writeByte_self, ByteStore.writeByte_of_ne _ _ (by decide +kernel),
      readWord_lowByte hz] at hv
    rw [ByteStore.writeByte_self, ByteStore.writeByte_of_ne _ _ (by decide +kernel),
      readWord_lowByte hb] at hv'
    obtain ⟨-, hlow | hlow⟩ | ⟨hst, -⟩ := htold hpsw
    · exact hlow hv
    · exact hlow hv'.symm
    · cases hst

theorem fetchData_cell {m : Machine} {a : Addr} (hint : isInternalBusAddr a = false)
    (htr : translateBusAddr a = a) : fetchData m a = m.mem.readWord a := by
  rw [fetchData_external m hint, htr]

/-- Setting up a missing destination leaves the stale latch in place. -/
theorem setupDestAddressing_missing (b : Bool) (m : Machine)
    (h : (Specifier.dest m.ir).present = false) : setupDestAddressing b m = m := by
  rw [setupDestAddressing_eq]
  exact address_missing .dest b m h

theorem fetchData_zeroCell (w : Word) (src dest : Addr) :
    fetchData (latched w src dest) zeroCell = 0 := by
  show fetchData (latched 0 0 0) zeroCell = 0
  decide +kernel

theorem fetchData_bitsCell (w : Word) (src dest : Addr) :
    fetchData (latched w src dest) bitsCell = 0o140300 := by
  show fetchData (latched 0 0 0) bitsCell = 0o140300
  decide +kernel

theorem oneOperand_destLeak {w : Word} {b : Bool} {f : Word → Word → Word} {st : AluStore}
    {fl : FlagUpdate} (hmiss : (Specifier.dest w).present = false)
    (htold : DestTold st fl (f 0x5555 0) (f 0x5555 0o140300)) :
    ¬ Agree (oneOperand b f st fl (latched w idleCell zeroCell))
      (oneOperand b f st fl (latched w idleCell bitsCell)) := by
  have hz := fetchData_zeroCell w idleCell zeroCell
  have hb := fetchData_bitsCell w idleCell bitsCell
  rw [oneOperand, oneOperand, setupDestAddressing_missing b (latched w idleCell zeroCell) hmiss,
    setupDestAddressing_missing b (latched w idleCell bitsCell) hmiss,
    show (latched w idleCell zeroCell).destAddress = zeroCell
      from rfl, show (latched w idleCell bitsCell).destAddress = bitsCell from rfl, hz, hb]
  obtain ⟨hzm, hbm, hp⟩ := address_latched' .dest b ⟨5, 6⟩ w idleCell zeroCell
  rw [address_missing .dest b _ (by decide +kernel)] at hzm hbm hp
  exact not_agree_of_destTold (latched_agree w w _ _ _ _) rfl rfl hzm hbm hp htold

/-- The source operand is close to 0x5555 and the same in both runs. -/
theorem srcOperand_latched (b : Bool) (o : Specifier) (w : Word) (dest : Addr) :
    fetchData (address .src b o (latched w idleCell dest))
        (address .src b o (latched w idleCell dest)).srcAddress
      = fetchData (address .src b o (latched 0 idleCell idleCell))
        (address .src b o (latched 0 idleCell idleCell)).srcAddress := by
  have hag := latched_agree w 0 idleCell idleCell dest idleCell
  have hsrc : (address .src b o (latched w idleCell dest)).srcAddress
      = (address .src b o (latched 0 idleCell idleCell)).srcAddress := by
    have hloc := address_loc .src b o (latched w idleCell dest)
    have hloc' := address_loc .src b o (latched 0 idleCell idleCell)
    rw [hag.target] at hloc
    exact hloc.trans hloc'.symm
  rw [hsrc, (hag.address .src b o).fetchData]

theorem twoOperand_destLeak {w : Word} {b : Bool} {f : Word → Word → Word} {st : AluStore}
    {fl : FlagUpdate} (hmiss : (Specifier.dest w).present = false)
    (htold : nearby.all fun s => DestTold st fl (f s 0) (f s 0o140300)) :
    ¬ Agree (twoOperand b f st fl (latched w idleCell zeroCell))
      (twoOperand b f st fl (latched w idleCell bitsCell)) := by
  have hag := latched_agree w w idleCell idleCell zeroCell bitsCell
  obtain ⟨hzm, hbm, hp⟩ := address_latched' .src b (.src w) w idleCell zeroCell
  have hs := (address_latched .src b (.src w)).1
  have hag1 := hag.address .src b (.src w)
  have hd : (address .src b (.src w) (latched w idleCell zeroCell)).destAddress = zeroCell :=
    address_src_destAddress ..
  have hd' : (address .src b (.src w) (latched w idleCell bitsCell)).destAddress = bitsCell :=
    address_src_destAddress ..
  have hz : fetchData (address .src b (.src w) (latched w idleCell zeroCell)) zeroCell = 0 :=
    (fetchData_cell (by decide +kernel) (by decide +kernel)).trans hzm
  have hb : fetchData (address .src b (.src w) (latched w idleCell bitsCell)) bitsCell
      = 0o140300 := by
    rw [← hag1.fetchData]
    exact (fetchData_cell (by decide +kernel) (by decide +kernel)).trans hbm
  rw [Machine.loc_src] at hs
  have hmiss1 (a : Addr) :
      (Specifier.dest (address .src b (.src w) (latched w idleCell a)).ir).present = false := by
    rw [address_ir]
    exact hmiss
  rw [twoOperand, twoOperand, setupSrcAddressing_eq, setupSrcAddressing_eq,
    show (latched w idleCell zeroCell).ir = w from rfl,
    show (latched w idleCell bitsCell).ir = w from rfl,
    setupDestAddressing_missing b _ (hmiss1 _), setupDestAddressing_missing b _ (hmiss1 _),
    srcOperand_latched _ _ _ zeroCell, srcOperand_latched _ _ _ bitsCell, hd, hd', hz, hb]
  exact not_agree_of_destTold hag1 hd hd' hzm hbm hp (by simpa using List.all_eq_true.mp htold _ hs)

theorem JMP_destLeak {w : Word} (hmiss : (Specifier.dest w).present = false) :
    ¬ Agree (JMP (latched w idleCell zeroCell)) (JMP (latched w idleCell bitsCell)) := by
  intro h
  have hpc := h.pc
  rw [JMP, JMP, setupDestAddressing_missing false (latched w idleCell zeroCell) hmiss,
    setupDestAddressing_missing false (latched w idleCell bitsCell) hmiss,
    show (latched w idleCell zeroCell).destAddress = zeroCell from rfl,
    show (latched w idleCell bitsCell).destAddress = bitsCell from rfl, fetchData_zeroCell,
    fetchData_bitsCell] at hpc
  simp [Machine.pc] at hpc

theorem JSR_destLeak {w : Word} (hmiss : (Specifier.dest w).present = false) :
    ¬ Agree (JSR (latched w idleCell zeroCell)) (JSR (latched w idleCell bitsCell)) := by
  intro h
  have hpc := h.pc
  rw [JSR, JSR, setupDestAddressing_missing false (latched w idleCell zeroCell) hmiss,
    setupDestAddressing_missing false (latched w idleCell bitsCell) hmiss] at hpc
  simp [Machine.pc, latched, zeroCell, bitsCell] at hpc

theorem destLeak {w : Word} (hmiss : (Specifier.dest w).present = false)
    (hused : Specifier.dest w ∈ usedSpecifiers w) : ¬ NoLeak w := by
  intro h
  have hrun : Agree (handler (decode w) (latched w idleCell zeroCell))
      (handler (decode w) (latched w idleCell bitsCell)) :=
    h _ _ rfl rfl (latched_agree ..)
  unfold usedSpecifiers at hused
  generalize decode w = op at hused hrun
  cases op <;> dsimp only [handler] at hrun
  case MOV | MOVB | CMP | CMPB | BIT | BITB | BIC | BICB | BIS | BISB | ADD | SUB =>
    exact twoOperand_destLeak hmiss (by decide +kernel) hrun
  case JMP => exact JMP_destLeak hmiss hrun
  case JSR => exact JSR_destLeak hmiss hrun
  case BR | BNE | BEQ | BGE | BLT | BGT | BLE | BPL | BMI | BHI | BLOS | BVC | BVS | BCC | BCS
    | MUL | DIV | ASH | ASHC | XOR | MFPI | MFPD | MTPI | MTPD | SXT | RTS | HALT =>
    exact absurd hused List.not_mem_nil
  all_goals exact oneOperand_destLeak hmiss (by decide +kernel) hrun

/-! #### A stale source -/

/-- The results `v` and `v'` of a handler that ran with the two cells as its
    source and one and the same destination can be told apart. -/
def SrcTold (st : AluStore) (fl : FlagUpdate) (v v' : Word) : Prop :=
  pswAfter st fl 0x5555 v = pswAfter st fl 0x5555 v' → st.isDest = true ∧ lowByte v ≠ lowByte v'

instance (st : AluStore) (fl : FlagUpdate) (v v' : Word) : Decidable (SrcTold st fl v v') :=
  inferInstanceAs (Decidable (_ → _))

/-- A word or byte store makes the low byte of `alu` visible, in a register or in memory. -/
theorem lowByte_eq_of_agree {st : AluStore} {fl : FlagUpdate} {m m' : Machine} {v v' : Word}
    {o : Specifier} {n : Machine} (hst : st.isDest = true) (hd : m.destAddress = o.target n)
    (hd' : m'.destAddress = o.target n)
    (h : Agree (fl.apply (st.apply (m.setAlu v))) (fl.apply (st.apply (m'.setAlu v')))) :
    lowByte v = lowByte v' := by
  rw [FlagUpdate.apply_eq, FlagUpdate.apply_eq] at h
  obtain ⟨-, ht⟩ | ht := o.target_cases n
  · have hreg := congrFun h.regs o.gpr
    have hne : o.gpr ≠ .psw := Reg.ofFin_ne_psw o.reg
    rw [ht] at hd hd'
    cases st with
    | none => cases hst
    | psw => cases hst
    | word =>
      simp only [AluStore.apply, Machine.setAlu_destAddress, hd, hd', storeData_busAddr,
        Machine.setReg_regs, Function.update_of_ne hne, Function.update_self,
        Machine.setAlu_alu] at hreg
      rw [hreg]
    | byte =>
      simp only [AluStore.apply, Machine.setAlu_destAddress, hd, hd', storeDataB_busAddr,
        Machine.setReg_regs, Function.update_of_ne hne, Function.update_self,
        Machine.setAlu_alu] at hreg
      simpa [lowByte] using congrArg (BitVec.setWidth 8) hreg
  · have hint : isInternalBusAddr (o.target n) = false :=
      isInternalBusAddr_of_lt (by omega)
    have hmem := congrFun h.mem (translateBusAddr (o.target n))
    have hsucc : translateBusAddr (o.target n) ≠ translateBusAddr (o.target n) + 1 := by
      bv_omega
    cases st with
    | none => cases hst
    | psw => cases hst
    | word =>
      simp only [AluStore.apply, Machine.setAlu_destAddress, hd, hd', storeData_external _ hint,
        Machine.setReg_mem, Machine.setMem_mem, ByteStore.writeWord_base _ _ hsucc,
        Machine.setAlu_alu] at hmem
      exact hmem
    | byte =>
      simp only [AluStore.apply, Machine.setAlu_destAddress, hd, hd', storeDataB_external _ hint,
        Machine.setReg_mem, Machine.setMem_mem, ByteStore.writeByte_self,
        Machine.setAlu_alu] at hmem
      exact hmem

theorem twoOperand_srcLeak {w : Word} {b : Bool} {f : Word → Word → Word} {st : AluStore}
    {fl : FlagUpdate} (hmiss : (Specifier.src w).present = false)
    (hdest : (Specifier.dest w).present = true)
    (htold : nearby.all fun d => SrcTold st fl (f 0 d) (f 0o140300 d)) :
    ¬ Agree (twoOperand b f st fl (latched w zeroCell idleCell))
      (twoOperand b f st fl (latched w bitsCell idleCell)) := by
  intro h
  have hsetup (a : Addr) :
      setupSrcAddressing b (latched w a idleCell) = latched w a idleCell := by
    rw [setupSrcAddressing_eq]
    exact address_missing .src b (latched w a idleCell) hmiss
  rw [twoOperand, twoOperand, hsetup, hsetup, setupDestAddressing_eq, setupDestAddressing_eq,
    address_dest_srcAddress, address_dest_srcAddress, show (latched w zeroCell idleCell).ir = w
      from rfl, show (latched w bitsCell idleCell).ir = w from rfl,
    show (latched w zeroCell idleCell).srcAddress = zeroCell from rfl,
    show (latched w bitsCell idleCell).srcAddress = bitsCell from rfl] at h
  -- The operands: the cells as sources, one destination.
  have hag := latched_agree w w zeroCell bitsCell idleCell idleCell
  have hag0 := latched_agree w 0 zeroCell idleCell idleCell idleCell
  have hag1 := hag.address .dest b (.dest w)
  obtain ⟨hzm, hbm, hp⟩ := address_latched' .dest b (.dest w) w zeroCell idleCell
  have hz := (fetchData_cell (by decide) (by decide)).trans hzm
  have hb := (fetchData_cell (by decide) (by decide)).trans hbm
  rw [hag1.fetchData] at hb
  have hd := address_destLatch b (latched w zeroCell idleCell) hdest
  have hd' := address_destLatch b (latched w bitsCell idleCell) hdest
  rw [← hag.target] at hd'
  have hdv := (address_latched .dest b (.dest w)).1
  rw [Machine.loc_dest, address_destLatch b _ hdest, ← hag0.target,
    ← (hag0.address .dest b (.dest w)).fetchData] at hdv
  have hdv' := hag1.fetchData ((Specifier.dest w).target (latched w zeroCell idleCell))
  rw [hz, hb, hd, hd', ← hdv'] at h
  have hold := htold
  rw [List.all_eq_true] at hold
  have hsrc := of_decide_eq_true (hold _ hdv)
  -- Compare the PSW, then the destination.
  have hpsw := h.psw
  rw [finish_psw fl _ fun _ => ?_, finish_psw fl _ fun _ => ?_] at hpsw
  · simp only [Machine.psw, Machine.setAlu_regs, Machine.setAlu_alu, ← hag1.regs] at hpsw
    rw [← Machine.psw, hp] at hpsw
    obtain ⟨hst, hlow⟩ := hsrc hpsw
    exact hlow (lowByte_eq_of_agree hst hd hd' h)
  · rw [Machine.setAlu_destAddress, hd']
    exact Specifier.target_ne_pswBusAddr _ _
  · rw [Machine.setAlu_destAddress, hd]
    exact Specifier.target_ne_pswBusAddr _ _

theorem srcLeak {w : Word} (hgroup : (decode w).group = .double)
    (hmiss : (Specifier.src w).present = false) (hdest : (Specifier.dest w).present = true) :
    ¬ NoLeak w := by
  intro h
  have hrun : Agree (handler (decode w) (latched w zeroCell idleCell))
      (handler (decode w) (latched w bitsCell idleCell)) :=
    h _ _ rfl rfl (latched_agree ..)
  generalize decode w = op at hgroup hrun
  cases op <;> dsimp only [handler] at hrun
  case MOV | MOVB | CMP | CMPB | BIT | BITB | BIC | BICB | BIS | BISB | ADD | SUB =>
    exact twoOperand_srcLeak hmiss hdest (by decide +kernel) hrun
  all_goals cases hgroup

/-! ### The exact condition -/

/-- **No hidden state.**  An instruction word leaks nothing from the latches
    exactly when every specifier its handler sets up has a present mode. -/
theorem noLeak_iff (w : Word) : NoLeak w ↔ ∀ o ∈ usedSpecifiers w, o.present = true := by
  refine ⟨fun h => ?_, noLeak_of_present⟩
  have hdest : Specifier.dest w ∈ usedSpecifiers w → (Specifier.dest w).present = true := by
    intro hused
    by_contra hmiss
    exact destLeak (Bool.eq_false_iff.mpr hmiss) hused h
  intro o ho
  unfold usedSpecifiers at ho hdest
  generalize hop : (decode w).group = g at ho hdest
  cases g with
  | double =>
    have hd := hdest (by simp)
    obtain rfl | rfl := List.mem_pair.mp ho
    · by_contra hmiss
      exact srcLeak hop (Bool.eq_false_iff.mpr hmiss) hd h
    · exact hd
  | single =>
    dsimp only at ho hdest
    split at ho
    · cases ho
    · rename_i hn
      rw [if_neg hn] at hdest
      rw [List.mem_singleton.mp ho]
      exact hdest (List.mem_singleton_self _)
  | jmp | jsr =>
    rw [List.mem_singleton.mp ho]
    exact hdest (List.mem_singleton_self _)
  | _ => cases ho

/-- `clr @-(sp)` writes wherever the last instruction's destination was. -/
theorem clr_stale_leaks : ¬ ∀ w, NoLeak w := fun h =>
  destLeak (w := 0o005056) (by decide) (by decide) (h 0o005056)

end XMachine.Cpu
