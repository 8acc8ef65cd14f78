import XMachine.Cpu.Decoding
import XMachine.Cpu.Operands

namespace XMachine.Cpu

open XMachine.Lib

/-!
# CPU — renaming R0–R5

A permutation of R0–R5 acts on registers, on the bus addresses of registers, on
operand fields and so on machines.  Every access through the switch tables
commutes with it, so does the addressing of an operand, and so does every
handler of a double-operand, single-operand or branch instruction:
`execInstruction_rename`.
-/

/-! ### Registers and their numbers -/

def Reg.rename (p : Equiv.Perm (Fin 6)) : Reg → Reg
  | .r0 => .general (p 0) | .r1 => .general (p 1) | .r2 => .general (p 2)
  | .r3 => .general (p 3) | .r4 => .general (p 4) | .r5 => .general (p 5)
  | .sp => .sp | .pc => .pc | .psw => .psw

/-- The number in a three-bit register field. -/
def renameNumber (p : Equiv.Perm (Fin 6)) (i : Fin 8) : Fin 8 :=
  if h : i.val < 6 then (p ⟨i, h⟩).castLE (by decide) else i

/-- The bus address of a register becomes that of the renamed register. -/
def renameAddr (p : Equiv.Perm (Fin 6)) (a : Addr) : Addr :=
  match busAddrToRegister a with
  | some r => (r.rename p).busAddr
  | none => a

section Registers

variable (p : Equiv.Perm (Fin 6))

@[simp] theorem Reg.rename_general (i : Fin 6) : (Reg.general i).rename p = .general (p i) := by
  fin_cases i <;> rfl

@[simp] theorem Reg.rename_sp : Reg.sp.rename p = .sp := rfl
@[simp] theorem Reg.rename_pc : Reg.pc.rename p = .pc := rfl
@[simp] theorem Reg.rename_psw : Reg.psw.rename p = .psw := rfl

/-- A register is one of R0–R5 or it keeps its name. -/
theorem Reg.general_cases (r : Reg) : (∃ i, r = .general i) ∨ ∀ p, r.rename p = r := by
  cases r
  case r0 => exact .inl ⟨0, rfl⟩
  case r1 => exact .inl ⟨1, rfl⟩
  case r2 => exact .inl ⟨2, rfl⟩
  case r3 => exact .inl ⟨3, rfl⟩
  case r4 => exact .inl ⟨4, rfl⟩
  case r5 => exact .inl ⟨5, rfl⟩
  all_goals exact .inr fun _ => rfl

@[simp] theorem Reg.rename_symm_rename (r : Reg) : (r.rename p).rename p.symm = r := by
  obtain ⟨i, rfl⟩ | h := r.general_cases
  · simp
  · rw [h, h]

@[simp] theorem Reg.rename_rename_symm (r : Reg) : (r.rename p.symm).rename p = r :=
  Reg.rename_symm_rename p.symm r

@[simp] theorem Reg.rename_eq_pc {r : Reg} : r.rename p = .pc ↔ r = .pc := by
  constructor
  · intro h
    rw [← Reg.rename_symm_rename p r, h, Reg.rename_pc]
  · rintro rfl
    rfl

theorem ofFin_renameNumber (i : Fin 8) :
    Reg.ofFin (renameNumber p i) = (Reg.ofFin i).rename p := by
  -- the first six numbers are those of R0–R5
  have hcast : ∀ j : Fin 6, Reg.ofFin (j.castLE (by decide)) = .general j := by decide
  unfold renameNumber
  split
  · next h =>
    have hi : Reg.ofFin i = .general ⟨i, h⟩ := hcast ⟨i, h⟩
    rw [hcast, hi, Reg.rename_general]
  · next h =>
    have hi : i = 6 ∨ i = 7 := by omega
    rcases hi with rfl | rfl <;> rfl

/-- SP and PC keep their numbers, and no other register gets them. -/
theorem renameNumber_eq_iff {i j : Fin 8} (hj : 6 ≤ j.val) : renameNumber p i = j ↔ i = j := by
  unfold renameNumber
  split
  · next h =>
    constructor
    · rintro rfl
      exact absurd hj (by simp)
    · rintro rfl
      omega
  · rfl

@[simp] theorem renameAddr_busAddr (r : Reg) : renameAddr p r.busAddr = (r.rename p).busAddr := by
  simp [renameAddr]

theorem busAddrToRegister_renameAddr (a : Addr) :
    busAddrToRegister (renameAddr p a) = (busAddrToRegister a).map (Reg.rename p) := by
  unfold renameAddr
  cases h : busAddrToRegister a with
  | some r => simp
  | none => simpa using h

@[simp] theorem isInternalBusAddr_renameAddr (a : Addr) :
    isInternalBusAddr (renameAddr p a) = isInternalBusAddr a := by
  rw [← isSome_busAddrToRegister, ← isSome_busAddrToRegister, busAddrToRegister_renameAddr,
    Option.isSome_map]

/-- Other addresses stay. -/
theorem renameAddr_external {a : Addr} (h : isInternalBusAddr a = false) : renameAddr p a = a := by
  rw [← isSome_busAddrToRegister, Option.isSome_eq_false_iff, Option.isNone_iff_eq_none] at h
  rw [renameAddr, h]

@[simp] theorem renameAddr_setWidth (v : Word) : renameAddr p (v.setWidth 32) = v.setWidth 32 :=
  renameAddr_external p (isInternalBusAddr_setWidth v)

@[simp] theorem renameAddr_add (v w : Word) :
    renameAddr p (v.setWidth 32 + w.setWidth 32) = v.setWidth 32 + w.setWidth 32 :=
  renameAddr_external p (isInternalBusAddr_add v w)

end Registers

/-! ### Instruction words -/

/-- Rename the register field whose lowest bit is bit `lo`. -/
def renameField (p : Equiv.Perm (Fin 6)) (lo : ℕ) (ir : Word) : Word :=
  replaceField ir lo (BitVec.ofFin (w := 3) (renameNumber p (ir.extractLsb' lo 3).toFin))

/-- The groups whose operand fields are renamed, and the branches. -/
def Group.isRenamed : Group → Bool
  | .branch | .double | .registerSource | .single | .jmp => true
  | .jsr | .rts | .halt => false

/-- Rename the operand fields of an instruction word; a branch has none. -/
def renameWord (p : Equiv.Perm (Fin 6)) (ir : Word) : Word :=
  match (decode ir).group with
  | .double | .registerSource => renameField p 6 (renameField p 0 ir)
  | .single | .jmp => renameField p 0 ir
  | .branch | .jsr | .rts | .halt => ir

/-- Rename the registers of an operand specifier. -/
def Specifier.rename (p : Equiv.Perm (Fin 6)) (o : Specifier) : Specifier :=
  ⟨o.mode, renameNumber p o.reg⟩

@[simp] theorem Specifier.rename_mode (p : Equiv.Perm (Fin 6)) (o : Specifier) :
    (o.rename p).mode = o.mode := rfl

@[simp] theorem Specifier.gpr_rename (p : Equiv.Perm (Fin 6)) (o : Specifier) :
    (o.rename p).gpr = o.gpr.rename p := ofFin_renameNumber p o.reg

/-! ### Machines -/

/-- The register that R`i` becomes holds what R`i` held. -/
def Machine.rename (p : Equiv.Perm (Fin 6)) (m : Machine) : Machine where
  regs r := m.regs (r.rename p.symm)
  alu := m.alu
  ir := renameWord p m.ir
  srcAddress := renameAddr p m.srcAddress
  destAddress := renameAddr p m.destAddress
  halted := m.halted
  mem := m.mem

section Words

variable (p : Equiv.Perm (Fin 6)) (ir : Word) (lo : ℕ)

theorem renameField_and {mask : Word} (h : mask &&& 0o7 <<< lo = 0) :
    renameField p lo ir &&& mask = ir &&& mask :=
  replaceField_and ir lo _ h

theorem ofWord_renameField (h : lo + 6 ≤ 16) :
    Specifier.ofWord (renameField p lo ir) lo = (Specifier.ofWord ir lo).rename p := by
  unfold Specifier.ofWord renameField Specifier.rename
  rw [extractLsb'_replaceField_of_disjoint ir lo _ (by omega) (.inr (by omega)),
    extractLsb'_replaceField ir lo _ (by omega)]

theorem ofWord_renameField_of_disjoint {lo' : ℕ} (hw : lo' + 6 ≤ 16)
    (h : lo' + 6 ≤ lo ∨ lo + 3 ≤ lo') :
    Specifier.ofWord (renameField p lo ir) lo' = Specifier.ofWord ir lo' := by
  unfold Specifier.ofWord renameField
  rw [extractLsb'_replaceField_of_disjoint ir lo _ (by omega) (by omega),
    extractLsb'_replaceField_of_disjoint ir lo _ (by omega) (by omega)]

variable {p ir}

theorem dest_renameWord (h : (decode ir).group = .double ∨ (decode ir).group = .single ∨
    (decode ir).group = .jmp) :
    Specifier.dest (renameWord p ir) = (Specifier.dest ir).rename p := by
  unfold Specifier.dest renameWord
  rcases h with h | h | h <;> rw [h]
  · rw [ofWord_renameField_of_disjoint p _ 6 (by decide) (.inl le_rfl)]
    exact ofWord_renameField p ir 0 (by decide)
  · exact ofWord_renameField p ir 0 (by decide)
  · exact ofWord_renameField p ir 0 (by decide)

theorem src_renameWord (h : (decode ir).group = .double) :
    Specifier.src (renameWord p ir) = (Specifier.src ir).rename p := by
  unfold Specifier.src renameWord
  rw [h]
  dsimp only
  rw [ofWord_renameField p _ 6 (by decide),
    ofWord_renameField_of_disjoint p ir 0 (by decide) (.inr (by decide))]

theorem renameWord_branch (h : (decode ir).group = .branch) : renameWord p ir = ir := by
  rw [renameWord, h]

/-- Renaming operand fields does not change the instruction. -/
theorem decode_renameWord (p : Equiv.Perm (Fin 6)) (ir : Word) :
    decode (renameWord p ir) = decode ir := by
  by_cases hop : decode ir = .HALT
  · have hg : (decode ir).group = .halt := by rw [hop]; rfl
    rw [renameWord, hg]
  · apply decode_congr hop
    unfold renameWord
    cases hg : (decode ir).group
    case double | registerSource =>
      dsimp only
      rw [renameField_and p _ 6 (by decide), renameField_and p _ 0 (by decide)]
    case single | jmp => exact renameField_and p ir 0 (by decide)
    all_goals rfl

end Words

namespace Machine

variable (m : Machine) (p : Equiv.Perm (Fin 6)) (r : Reg) (v : Word) (a : Addr)

@[simp] theorem rename_regs : (m.rename p).regs (r.rename p) = m.regs r := by
  simp [rename]

@[simp] theorem rename_sp : (m.rename p).regs .sp = m.regs .sp := rfl
@[simp] theorem rename_pc : (m.rename p).regs .pc = m.regs .pc := rfl
@[simp] theorem rename_psw : (m.rename p).regs .psw = m.regs .psw := rfl
@[simp] theorem rename_alu : (m.rename p).alu = m.alu := rfl
@[simp] theorem rename_mem : (m.rename p).mem = m.mem := rfl
@[simp] theorem rename_ir : (m.rename p).ir = renameWord p m.ir := rfl
@[simp] theorem rename_srcAddress : (m.rename p).srcAddress = renameAddr p m.srcAddress := rfl
@[simp] theorem rename_destAddress : (m.rename p).destAddress = renameAddr p m.destAddress := rfl

theorem rename_setReg :
    (m.setReg r v).rename p = (m.rename p).setReg (r.rename p) v := by
  -- only the register file depends on the renaming
  have hregs : ((m.setReg r v).rename p).regs = ((m.rename p).setReg (r.rename p) v).regs := by
    funext r'
    by_cases h : r' = r.rename p
    · subst h
      simp [rename]
    · have h' : r'.rename p.symm ≠ r := fun he => h (by rw [← he, Reg.rename_rename_symm])
      simp [rename, h, h']
  exact congrArg (fun regs => { (m.rename p) with regs := regs }) hregs

theorem rename_setAlu : (m.setAlu v).rename p = (m.rename p).setAlu v := rfl

theorem rename_setLoc (l : Loc) :
    (m.setLoc l a).rename p = (m.rename p).setLoc l (renameAddr p a) := by
  cases l <;> rfl

end Machine

/-! ### Access through the tables -/

section Access

variable (p : Equiv.Perm (Fin 6)) (m : Machine) (r : Reg) (v w : Word) (a : Addr) (b : Bool)

@[simp] theorem wordAt_rename : wordAt (m.rename p) w = wordAt m w :=
  wordAt_congr (m.rename_mem p) w

@[simp] theorem wordAtSum_rename : wordAtSum (m.rename p) v w = wordAtSum m v w :=
  wordAtSum_congr (m.rename_mem p) v w

/-- A register's address, or one that the bus serves. -/
theorem busAddr_or_external (a : Addr) :
    (∃ r : Reg, a = r.busAddr) ∨ isInternalBusAddr a = false := by
  cases h : busAddrToRegister a with
  | some r => exact .inl ⟨r, eq_busAddr_of_busAddrToRegister h⟩
  | none =>
    right
    rw [← isSome_busAddrToRegister, h]
    rfl

theorem fetchData_rename : fetchData (m.rename p) (renameAddr p a) = fetchData m a := by
  obtain ⟨r, rfl⟩ | hext := busAddr_or_external a
  · simp
  · rw [renameAddr_external p hext, fetchData_external _ hext, fetchData_external _ hext]
    rfl

theorem storeData_rename :
    (storeData m a v).rename p = storeData (m.rename p) (renameAddr p a) v := by
  obtain ⟨r, rfl⟩ | hext := busAddr_or_external a
  · simp [Machine.rename_setReg]
  · rw [renameAddr_external p hext, storeData_external _ hext, storeData_external _ hext]
    rfl

theorem storeDataB_rename (x : Byte) :
    (storeDataB m a x).rename p = storeDataB (m.rename p) (renameAddr p a) x := by
  obtain ⟨r, rfl⟩ | hext := busAddr_or_external a
  · simp [Machine.rename_setReg]
  · rw [renameAddr_external p hext, storeDataB_external _ hext, storeDataB_external _ hext]
    rfl

end Access

/-! ### Addressing -/

section Addressing

variable (p : Equiv.Perm (Fin 6)) (m : Machine) (loc : Loc) (b : Bool) (mode : Word)

theorem setupPcAddressing_rename :
    (setupPcAddressing loc mode Reg.pc.number m).rename p
      = setupPcAddressing loc mode Reg.pc.number (m.rename p) := by
  unfold setupPcAddressing
  split <;> simp [advancePc, Machine.pc, Machine.rename_setReg, Machine.rename_setLoc]

theorem setupSpAddressing_rename :
    (setupSpAddressing loc mode Reg.sp.number m).rename p
      = setupSpAddressing loc mode Reg.sp.number (m.rename p) := by
  unfold setupSpAddressing
  split <;> simp [advancePc, Machine.pc, Machine.sp, Machine.rename_setReg, Machine.rename_setLoc]

theorem generalAddressing_rename (r : Reg) :
    (generalAddressing b loc mode r.number m).rename p
      = generalAddressing b loc mode (r.rename p).number (m.rename p) := by
  unfold generalAddressing
  split <;> simp [advancePc, Machine.pc, Machine.rename_setReg, Machine.rename_setLoc,
    storeData_rename, Function.update_apply]

/-- Addressing commutes with renaming: the routine of each register class does. -/
theorem address_rename (o : Specifier) :
    (address loc b o m).rename p = address loc b (o.rename p) (m.rename p) := by
  -- SP and PC are not renamed, so the register class stays the same
  have h7 : (o.rename p).reg = 7 ↔ o.reg = 7 := renameNumber_eq_iff p (by decide)
  have h6 : (o.rename p).reg = 6 ↔ o.reg = 6 := renameNumber_eq_iff p (by decide)
  rw [address_eq, address_eq, Specifier.gpr_rename, Specifier.rename_mode]
  simp only [h7, h6]
  split
  · next hpc =>
    rw [o.gpr_eq_pc hpc]
    exact setupPcAddressing_rename p m loc _
  · split
    · next hsp =>
      rw [o.gpr_eq_sp hsp]
      exact setupSpAddressing_rename p m loc _
    · exact generalAddressing_rename p m loc b _ o.gpr

end Addressing

/-! ### Handlers -/

section Handlers

variable (p : Equiv.Perm (Fin 6)) (m : Machine) (b : Bool)

theorem setupDestAddressing_rename (h : (decode m.ir).group = .double ∨
    (decode m.ir).group = .single ∨ (decode m.ir).group = .jmp) :
    (setupDestAddressing b m).rename p = setupDestAddressing b (m.rename p) := by
  rw [setupDestAddressing_eq, setupDestAddressing_eq, Machine.rename_ir, dest_renameWord h,
    address_rename]

theorem setupSrcAddressing_rename (h : (decode m.ir).group = .double) :
    (setupSrcAddressing b m).rename p = setupSrcAddressing b (m.rename p) := by
  rw [setupSrcAddressing_eq, setupSrcAddressing_eq, Machine.rename_ir, src_renameWord h,
    address_rename]

theorem AluStore.apply_rename (st : AluStore) :
    (st.apply m).rename p = st.apply (m.rename p) := by
  cases st with
  | none => rfl
  | word => exact storeData_rename p m m.alu m.destAddress
  | byte => exact storeDataB_rename p m m.destAddress _
  | psw => exact m.rename_setReg p .psw m.alu

theorem FlagUpdate.apply_rename (fl : FlagUpdate) :
    (fl.apply m).rename p = fl.apply (m.rename p) := by
  rw [FlagUpdate.apply_eq, FlagUpdate.apply_eq, Machine.rename_setReg]
  rfl

theorem oneOperand_rename (f : Word → Word → Word) (st : AluStore) (fl : FlagUpdate)
    (h : (decode m.ir).group = .single) :
    (oneOperand b f st fl m).rename p = oneOperand b f st fl (m.rename p) := by
  unfold oneOperand
  dsimp only
  rw [FlagUpdate.apply_rename, AluStore.apply_rename, Machine.rename_setAlu,
    ← setupDestAddressing_rename p m b (.inr (.inl h)), Machine.rename_destAddress,
    fetchData_rename]
  rfl

theorem twoOperand_rename (f : Word → Word → Word) (st : AluStore) (fl : FlagUpdate)
    (h : (decode m.ir).group = .double) :
    (twoOperand b f st fl m).rename p = twoOperand b f st fl (m.rename p) := by
  -- the source set-up leaves the word for the destination set-up
  have hir : (setupSrcAddressing b m).ir = m.ir := setupAddressing_ir ..
  unfold twoOperand
  dsimp only
  rw [FlagUpdate.apply_rename, AluStore.apply_rename, Machine.rename_setAlu,
    ← setupSrcAddressing_rename p m b h,
    ← setupDestAddressing_rename p (setupSrcAddressing b m) b (.inl (by rw [hir]; exact h)),
    Machine.rename_srcAddress, Machine.rename_destAddress, fetchData_rename, fetchData_rename]

theorem takeBranch_rename (h : (decode m.ir).group = .branch) :
    (takeBranch m).rename p = takeBranch (m.rename p) := by
  unfold takeBranch getBranchOffset
  rw [Machine.rename_setReg, Machine.rename_ir, renameWord_branch h]
  rfl

theorem branch_rename (f : Word → Word) (taken : Word → Bool)
    (h : (decode m.ir).group = .branch) :
    (branch f taken m).rename p = branch f taken (m.rename p) := by
  -- whether the branch is taken depends on PSW alone
  have hpsw : (m.rename p).psw = m.psw := rfl
  rw [branch_eq, branch_eq, hpsw, ← Machine.rename_setAlu]
  split
  · exact takeBranch_rename p (m.setAlu _) h
  · rfl

theorem JMP_rename (h : (decode m.ir).group = .jmp) :
    (JMP m).rename p = JMP (m.rename p) := by
  unfold JMP
  dsimp only
  rw [Machine.rename_setReg, ← setupDestAddressing_rename p m false (.inr (.inr h)),
    Machine.rename_destAddress, fetchData_rename]
  rfl

end Handlers

/-- R0–R5 are interchangeable in every double-operand, single-operand and branch instruction. -/
theorem execInstruction_rename (p : Equiv.Perm (Fin 6)) (m : Machine)
    (h : (decode m.ir).group.isRenamed = true) :
    execInstruction (m.rename p) = (execInstruction m).rename p := by
  rw [execInstruction, execInstruction, Machine.rename_ir, decode_renameWord]
  -- the renamed word decodes to the same handler; its shape decides
  have hshape := handler_cases (decode m.ir)
  symm
  generalize handler (decode m.ir) = run at hshape ⊢
  cases hshape with
  | br hg => exact takeBranch_rename p m hg
  | branch hg f taken => exact branch_rename p m f taken hg
  | two hg hn b f st fl hst hs => exact twoOperand_rename p m b f st fl hg
  | one hg hn b f st fl hs => exact oneOperand_rename p m b f st fl hg
  | stub hg hn => rfl
  | jmp hop => exact JMP_rename p m (by rw [hop]; rfl)
  | jsr hop => rw [hop] at h; cases h
  | rts hop => rw [hop] at h; cases h
  | halt hop => rw [hop] at h; cases h

/-- `MOV R1, R2` with R1 and R3 exchanged is `MOV R3, R2`. -/
theorem execInstruction_rename_mov :
    let m : Machine := { initCpu (fun _ => 0) with
      regs := fun r => if r = .r1 then 5 else 0, ir := 0o010102 }
    let p : Equiv.Perm (Fin 6) := Equiv.swap 1 3
    (m.rename p).ir = 0o010302 ∧ (execInstruction (m.rename p)).regs .r2 = 5 ∧
      execInstruction (m.rename p) = (execInstruction m).rename p := by
  refine ⟨by decide, by decide, execInstruction_rename (Equiv.swap 1 3) _ (by decide)⟩

end XMachine.Cpu
