import XMachine.Cpu.Branches

namespace XMachine.Cpu

open XMachine.Lib

/-!
# CPU — PSW over a whole run

The flag calls write N and Z and no handler writes V or C, so from the start on
PSW is zero, `ZEROFLAG` or `NEGATIVEFLAG`.  Three instructions can load another
word: `MTPS`, and `JSR` and `RTS` with 010 in SP, since the contents of SP are
passed to `dec_register` and `inc_register` as a register number and 010 is
that of PSW.

* `StatusKept` — the instruction is none of these;
* `executeWord_psw` — what such an instruction does to PSW;
* `status_execute` — PSW along a run, and what becomes of the branches that test
  V or C.
-/

/-- The instruction `w`, executed in `m`, leaves PSW to the flag calls. -/
def StatusKept (w : Word) (m : Machine) : Prop :=
  match decode w with
  | .MTPS => False
  | .JSR => (Op.JSR.setUp (fetched w m)).sp ≠ Reg.psw.number
  | .RTS => m.sp ≠ Reg.psw.number
  | _ => True

instance (w : Word) (m : Machine) : Decidable (StatusKept w m) := by
  unfold StatusKept
  split <;> infer_instance

/-! ### One instruction -/

section Registers

variable {m : Machine} {reg : Word}

theorem registerPointer_ne_psw (h : reg ≠ Reg.psw.number) : registerPointer reg ≠ some .psw := by
  unfold registerPointer
  split
  case h_9 heq => exact absurd (BitVec.eq_of_toNat_eq heq) h
  all_goals exact nofun

theorem incRegister_psw (b : Bool) (h : reg ≠ Reg.psw.number) :
    (incRegister m reg b).psw = m.psw := by
  unfold incRegister
  cases hr : registerPointer reg with
  | none => rfl
  | some r =>
    have hne : Reg.psw ≠ r := fun he => registerPointer_ne_psw h (he ▸ hr)
    simp [Machine.psw, hne]

theorem decRegister_psw (b : Bool) (h : reg ≠ Reg.psw.number) :
    (decRegister m reg b).psw = m.psw := by
  unfold decRegister
  cases hr : registerPointer reg with
  | none => rfl
  | some r =>
    have hne : Reg.psw ≠ r := fun he => registerPointer_ne_psw h (he ▸ hr)
    simp [Machine.psw, hne]

/-- The three bits of a register field do not name PSW. -/
theorem storeDataRegister_psw (v : Word) (h : reg.toNat < 8) :
    (storeDataRegister m (registerToBusAddr reg) v).psw = m.psw := by
  obtain ⟨k, rfl⟩ : ∃ k : Fin 8, reg = BitVec.ofNat 16 k := ⟨⟨reg.toNat, h⟩, by simp⟩
  fin_cases k <;> rfl

theorem linkField_lt (ir : Word) : ((ir &&& 0o0700) >>> 6).toNat < 8 := by
  have hle : (ir &&& 0o0700).toNat ≤ 0o700 := by
    rw [BitVec.toNat_and]
    exact Nat.and_le_right
  rw [BitVec.toNat_ushiftRight, Nat.shiftRight_eq_div_pow]
  omega

theorem returnField_lt (ir : Word) : (ir &&& 0o7).toNat < 8 := by
  have hle : (ir &&& 0o7).toNat ≤ 0o7 := by
    rw [BitVec.toNat_and]
    exact Nat.and_le_right
  omega

end Registers

theorem JSR_psw {m : Machine} (h : (Op.JSR.setUp m).sp ≠ Reg.psw.number) :
    (JSR m).psw = m.psw := by
  have hset : setupDestAddressing false m = Op.JSR.setUp m := rfl
  have hpsw : (Op.JSR.setUp m).psw = m.psw := Op.setUp_psw _ _
  rw [JSR, hset]
  generalize Op.JSR.setUp m = n at h hpsw ⊢
  -- the push goes to memory
  have hstored (v : Word) (r : Reg) :
      (storeData n (n.sp.setWidth 32) v).regs r = n.regs r := by
    rw [storeData_setWidth]
    rfl
  generalize hp : storeData n (n.sp.setWidth 32) _ = p
  have hsp : p.sp = n.sp := hp ▸ hstored _ .sp
  have hdec : (decRegister p p.sp false).psw = p.psw := decRegister_psw false (hsp ▸ h)
  have hsaved := storeDataRegister_psw (m := decRegister p p.sp false)
    (decRegister p p.sp false).pc (linkField_lt m.ir)
  rw [← hpsw, show n.psw = p.psw from (hp ▸ hstored _ .psw).symm, ← hdec, ← hsaved]
  simp [Machine.psw]

theorem RTS_psw {m : Machine} (h : m.sp ≠ Reg.psw.number) : (RTS m).psw = m.psw := by
  rw [RTS]
  rw [storeDataRegister_psw _ (returnField_lt m.ir), incRegister_psw]
  · simp [Machine.psw]
  · simpa [Machine.sp] using h

/-- A handler without operands leaves PSW alone, but for the two slips. -/
theorem handler_psw {op : Op} {m : Machine} (hop : ¬ op.isOperand = true)
    (hjsr : op = .JSR → (Op.JSR.setUp m).sp ≠ Reg.psw.number)
    (hrts : op = .RTS → m.sp ≠ Reg.psw.number) : (handler op m).psw = m.psw := by
  have hshape := handler_cases op
  generalize handler op = f at hshape
  cases hshape with
  | br => simp [takeBranch, Machine.psw]
  | branch hg f taken =>
    rw [branch_eq]
    split <;> simp [takeBranch, Machine.psw]
  | two hg hn => exact absurd (by simp [Op.isOperand, hg, hn]) hop
  | one hg hn => exact absurd (by simp [Op.isOperand, hg, hn]) hop
  | stub => rfl
  | jmp =>
    have hpsw : (Op.JMP.setUp m).psw = m.psw := Op.setUp_psw _ _
    rw [JMP, ← hpsw]
    simp only [Machine.psw, Machine.setReg_regs]
    rfl
  | jsr hj => exact JSR_psw (hjsr hj)
  | rts hj => exact RTS_psw (hrts hj)
  | halt => rfl

theorem eq_mtps_of_aluStore {op : Op} (h : op.aluStore = .psw) : op = .MTPS := by
  cases op <;> first | rfl | cases h

/-- **What an instruction does to PSW**, if it does not load it: nothing, or the
    flag calls of its handler. -/
theorem executeWord_psw {w : Word} {m : Machine} (hd : m.destAddress ≠ Reg.psw.busAddr)
    (hkept : StatusKept w m) : (executeWord w m).psw = m.psw ∨
      ∃ f v, f ≠ FlagUpdate.none ∧ (executeWord w m).psw = f.psw m.psw v := by
  have hlatch := (decode w).setUp_destAddress_ne_psw (fetched w m) hd
  have hpsw := (decode w).setUp_psw (fetched w m)
  rw [fetched_psw] at hpsw
  by_cases hoperand : (decode w).isOperand = true
  · have hst : (decode w).aluStore ≠ .psw := by
      intro hst
      rw [StatusKept, eq_mtps_of_aluStore hst] at hkept
      exact hkept
    rw [executeWord, execInstruction_operand (m := fetched w m) hoperand, fetched_ir]
    generalize (decode w).setUp (fetched w m) = n at hlatch hpsw
    -- an operand instruction ends with its flag calls
    have hfinish := Op.finish_psw (n := n.setAlu ((decode w).result n)) hst hlatch
    rw [show (n.setAlu ((decode w).result n)).psw = m.psw from hpsw] at hfinish
    by_cases hf : (decode w).flagUpdate = .none
    · left
      rw [hfinish, hf, FlagUpdate.psw]
    · exact .inr ⟨_, _, hf, hfinish⟩
  · left
    rw [← fetched_psw w m, executeWord, execInstruction, fetched_ir]
    refine handler_psw hoperand (fun hop => ?_) fun hop => ?_
    · rw [StatusKept, hop] at hkept
      exact hkept
    · rw [StatusKept, hop] at hkept
      have hsp : (fetched w m).sp = m.sp := fetched_regs_of_ne w m (by decide)
      rwa [hsp]

/-! ### Whole runs -/

/-- The next instruction of a run leaves PSW to the flag calls. -/
def NextKept (m : Machine) : Prop := m.halted = false → StatusKept (wordAt m m.pc) m

instance (m : Machine) : Decidable (NextKept m) := inferInstanceAs (Decidable (_ → _))

/-- PSW with nothing in it but one of N and Z. -/
def PlainStatus (p : Word) : Prop := p = 0 ∨ p = ZEROFLAG ∨ p = NEGATIVEFLAG

theorem FlagUpdate.psw_plain {f : FlagUpdate} (hf : f ≠ .none) {p : Word} (hp : PlainStatus p)
    (v : Word) : PlainStatus (f.psw p v) := by
  have hother : ∀ j, j ≠ 2 → j ≠ 3 → p.getLsbD j = false := by
    intro j h2 h3
    rcases hp with rfl | rfl | rfl
    · exact BitVec.getLsbD_zero
    · rw [show ZEROFLAG = BitVec.twoPow 16 2 from rfl, BitVec.getLsbD_twoPow]
      simp [Ne.symm h2]
    · rw [show NEGATIVEFLAG = BitVec.twoPow 16 3 from rfl, BitVec.getLsbD_twoPow]
      simp [Ne.symm h3]
  have hbits (j : ℕ) := FlagUpdate.getLsbD_psw hf p v j
  by_cases hv : v = 0
  · -- zero has no sign
    subst hv
    refine .inr (.inl (BitVec.eq_of_getLsbD_eq fun j hj => ?_))
    have hsign : f.sign 0 = false := by cases f <;> rfl
    rw [hbits, show ZEROFLAG = BitVec.twoPow 16 2 from rfl, BitVec.getLsbD_twoPow, hsign]
    grind
  · by_cases hsign : f.sign v = true
    · refine .inr (.inr (BitVec.eq_of_getLsbD_eq fun j hj => ?_))
      rw [hbits, show NEGATIVEFLAG = BitVec.twoPow 16 3 from rfl, BitVec.getLsbD_twoPow, hsign]
      grind
    · refine .inl (BitVec.eq_of_getLsbD_eq fun j hj => ?_)
      rw [hbits, show BitVec.getLsbD (0 : Word) j = false from BitVec.getLsbD_zero]
      grind

/-- PSW stays plain over an instruction. -/
theorem plainStatus_iteration {m : Machine} (hd : m.destAddress ≠ Reg.psw.busAddr)
    (hrun : m.halted = false) (hkept : NextKept m) (hp : PlainStatus m.psw) :
    PlainStatus (iteration m).psw := by
  rw [iteration_eq_executeWord]
  rcases executeWord_psw hd (hkept hrun) with he | ⟨f, v, hf, he⟩
  · rwa [he]
  · rw [he]
    exact FlagUpdate.psw_plain hf hp v

theorem plainStatus_execute (st : ByteStore Addr) (p : Word) (n : ℕ)
    (hkept : ∀ k, k < n → NextKept (execute k (start st p))) :
    PlainStatus (execute n (start st p)).psw := by
  induction n with
  | zero => exact .inl rfl
  | succ n ih =>
    have hp := ih fun k hk => hkept k (by omega)
    rw [execute_succ]
    by_cases hhalt : (execute n (start st p)).halted = true
    · rwa [if_pos hhalt]
    · rw [if_neg hhalt]
      rw [Bool.not_eq_true] at hhalt
      exact plainStatus_iteration (CpuState.reached st p n).dest_ne_psw hhalt
        (hkept n (by omega)) hp

/-! ### Branches on V and C -/

/-- The branch that does the same where V and C are clear.  `BCS` and `BVS` have none. -/
def Op.plainBranch : Op → Op
  | .BCC | .BVC => .BR
  | .BGE => .BPL
  | .BLT => .BMI
  | .BHI => .BNE
  | .BLOS => .BEQ
  | op => op

/-- What is left of the branches and of the carry in a state with a plain PSW. -/
structure NoCarry (m : Machine) : Prop where
  plain : PlainStatus m.psw
  branch : ∀ op : Op, op.group = .branch → ∀ offset,
    Branches op.plainBranch offset m (executeWord (op.branchWord offset) m)
  never : ∀ op : Op, op = .BCS ∨ op = .BVS → ∀ offset,
    (executeWord (op.branchWord offset) m).pc = m.pc + 2
  carry : ∀ op : Op, op = .ADC ∨ op = .SBC → ∀ s d, op.value m.psw s d = d

theorem noCarry_of_plain {m : Machine} (hp : PlainStatus m.psw) : NoCarry m := by
  have hcond : ∀ op : Op, op.condition m.psw = op.plainBranch.condition m.psw := by
    rcases hp with h | h | h <;> rw [h] <;> intro op <;> cases op <;> rfl
  have hnever : ∀ op : Op, op = .BCS ∨ op = .BVS → op.condition m.psw = false := by
    rintro op (rfl | rfl) <;> rcases hp with h | h | h <;> rw [h] <;> rfl
  refine ⟨hp, fun op hg offset => ?_, fun op hop offset => ?_, fun op hop s d => ?_⟩
  · obtain ⟨hpc, hregs, hmem, hlatch, hhalt⟩ := executeWord_branch hg offset m
    exact ⟨by rw [hpc, hcond], hregs, hmem, hlatch, hhalt⟩
  · have hg : op.group = .branch := by rcases hop with rfl | rfl <;> rfl
    rw [(executeWord_branch hg offset m).pc, hnever op hop, if_neg Bool.false_ne_true]
  · have hclear : m.psw &&& CARRYFLAG = 0 := by rcases hp with h | h | h <;> rw [h] <;> rfl
    rcases hop with rfl | rfl <;> rw [Op.value, hclear]
    · exact BitVec.add_zero d
    · exact BitVec.sub_zero d

/-- **V and C are never set.**  In every run from the start that loads no other
    word into PSW, PSW is zero, `ZEROFLAG` or `NEGATIVEFLAG`; the branches on V
    and C are then branches on N and Z, and `ADC` and `SBC` add and take
    nothing. -/
theorem status_execute (st : ByteStore Addr) (p : Word) (n : ℕ)
    (hkept : ∀ k, k < n → NextKept (execute k (start st p))) :
    NoCarry (execute n (start st p)) :=
  noCarry_of_plain (plainStatus_execute st p n hkept)

/-- A program of one `TST R0`. -/
def tstCell (a : Addr) : Byte := if a = 0 then 0o300 else if a = 1 then 0o13 else 0

theorem status_execute_tst : NoCarry (execute 1 (start tstCell 0)) :=
  status_execute tstCell 0 1 fun k hk => by
    obtain rfl : k = 0 := by omega
    decide

/-- `JSR R5, (R1)` with 010 in SP takes two from PSW. -/
example : (executeWord 0o004511 ((initCpu fun _ => 0).setReg .sp 0o10)).psw = 0o177776 := by decide

end XMachine.Cpu
