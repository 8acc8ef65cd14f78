import XMachine.Cpu.Addressing
import XMachine.Cpu.Specifier
import Mathlib.Tactic.FinCases

namespace XMachine.Cpu

open XMachine.Lib

/-!
# CPU — the effect of addressing an operand

One description of `setup_dest_addressing` and `setup_src_addressing` for all
specifiers: the registers afterwards (`address_regs`), the store (`address_mem`)
and the latch (`address_loc`).  Everything proved later about instructions goes
through these three and never unfolds the routines again.
-/

/-- The addressing of specifier `o` into the latch `loc`. -/
def address (loc : Loc) (useByteAddr : Bool) (o : Specifier) (m : Machine) : Machine :=
  setupAddressing loc useByteAddr (Specifier.fieldWord o.mode) (Specifier.fieldWord o.reg) m

variable (loc : Loc) (b : Bool) (o : Specifier) (m : Machine)

theorem setupDestAddressing_eq : setupDestAddressing b m = address .dest b (.dest m.ir) m := by
  obtain ⟨hreg, hmode⟩ := Specifier.fieldWord_ofWord m.ir 0 (by decide)
  rw [address, Specifier.dest, hreg, hmode]
  rfl

theorem setupSrcAddressing_eq : setupSrcAddressing b m = address .src b (.src m.ir) m := by
  obtain ⟨hreg, hmode⟩ := Specifier.fieldWord_ofWord m.ir 6 (by decide)
  rw [address, Specifier.src, hreg, hmode]
  rfl

@[simp] theorem address_ir : (address loc b o m).ir = m.ir := setupAddressing_ir ..
@[simp] theorem address_alu : (address loc b o m).alu = m.alu := setupAddressing_alu ..
@[simp] theorem address_halted : (address loc b o m).halted = m.halted := setupAddressing_halted ..
@[simp] theorem address_dest_srcAddress : (address .dest b o m).srcAddress = m.srcAddress :=
  setupAddressing_dest_srcAddress ..
@[simp] theorem address_src_destAddress : (address .src b o m).destAddress = m.destAddress :=
  setupAddressing_src_destAddress ..

/-! ### Effects, by specifier -/

namespace Specifier

/-- The register named by the specifier. -/
def gpr : Reg := .ofFin o.reg

/-- The routine of the specifier's register class has a case for its mode. -/
def present : Bool :=
  if o.reg = 7 then o.mode == 0 || o.mode == 2 || o.mode == 3 || o.mode == 6
  else if o.reg = 6 then o.mode != 5
  else true

/-- The routine takes a word from the instruction stream. -/
def consumes : Bool :=
  if o.reg = 7 then o.mode == 2 || o.mode == 3 || o.mode == 6
  else o.mode == 6 || o.mode == 7

/-- Mode 5 on R0–R5, the one case that writes memory. -/
def writesBack : Bool := o.mode == 5 && o.reg != 6 && o.reg != 7

/-- What the routine adds to the specifier's own register. -/
def delta : Word :=
  let step : Word := if o.reg = 6 then 2 else if b then 1 else 2
  if o.reg = 7 then 0
  else if o.mode = 2 ∨ o.mode = 3 then step
  else if o.mode = 4 then -step
  else 0

/-- The latched address, for a specifier whose mode is present. -/
def target : Addr :=
  let rn := m.regs o.gpr
  let X := wordAt m m.pc
  if o.reg = 7 then
    match o.mode with
    | 0 => o.gpr.busAddr
    | 2 => m.pc.setWidth 32
    | 3 => X.setWidth 32
    | _ => (m.pc + 2).setWidth 32 + X.setWidth 32
  else if o.reg = 6 then
    match o.mode with
    | 0 => o.gpr.busAddr
    | 1 | 2 => rn.setWidth 32
    | 3 => (wordAt m rn).setWidth 32
    | 4 => (rn - 2).setWidth 32
    | 6 => rn.setWidth 32 + X.setWidth 32
    | _ => (wordAtSum m X rn).setWidth 32
  else
    match o.mode with
    | 0 => o.gpr.busAddr
    | 1 | 2 | 4 => rn.setWidth 32
    | 3 | 5 => (wordAt m (wordAt m rn)).setWidth 32
    | 6 => (wordAtSum m X rn).setWidth 32
    | 7 => (wordAtSum m (wordAt m rn) X).setWidth 32

/-- The registers after addressing. -/
def regsAfter (r : Reg) : Word :=
  m.regs r + (if o.consumes ∧ r = .pc then 2 else 0) + (if r = o.gpr then o.delta b else 0)

/-- The store after addressing. -/
def memAfter : ByteStore Addr :=
  if o.writesBack then
    m.mem.writeWord (translateBusAddr ((m.regs o.gpr).setWidth 32))
      (wordAt m (m.regs o.gpr) - if b then 1 else 2)
  else m.mem

theorem number_gpr : o.gpr.number = fieldWord o.reg := by
  obtain ⟨mode, reg⟩ := o
  fin_cases reg <;> rfl

theorem gpr_eq_pc (h : o.reg = 7) : o.gpr = .pc := by rw [gpr, h]; rfl

theorem gpr_eq_sp (h : o.reg = 6) : o.gpr = .sp := by rw [gpr, h]; rfl

@[simp] theorem gpr_seven (mode : Fin 8) : gpr ⟨mode, 7⟩ = .pc := rfl

@[simp] theorem gpr_six (mode : Fin 8) : gpr ⟨mode, 6⟩ = .sp := rfl

theorem gpr_ne_pc (h : o.reg ≠ 7) : o.gpr ≠ .pc := fun he =>
  h (Reg.ofFin_injective (he.trans rfl : Reg.ofFin o.reg = Reg.ofFin 7))

end Specifier

/-- A latched address is a register's, in mode 0, or below 0400000. -/
theorem Specifier.target_cases : o.mode = 0 ∧ o.target m = o.gpr.busAddr ∨
    (o.target m).toNat < 0o400000 := by
  have hword (v : Word) : (v.setWidth 32 : Addr).toNat < 0o400000 := by
    have := v.isLt
    simp only [BitVec.toNat_setWidth]
    omega
  have hsum (v w : Word) : (v.setWidth 32 + w.setWidth 32 : Addr).toNat < 0o400000 := by
    have := v.isLt
    have := w.isLt
    simp only [BitVec.toNat_add, BitVec.toNat_setWidth]
    omega
  unfold Specifier.target
  dsimp only
  split
  · split
    · next h0 => exact .inl ⟨h0, rfl⟩
    all_goals first | exact .inr (hword _) | exact .inr (hsum _ _)
  · split
    all_goals
      split
      · next h0 => exact .inl ⟨h0, rfl⟩
      all_goals first | exact .inr (hword _) | exact .inr (hsum _ _)

/-- No operand specifier addresses PSW. -/
theorem Specifier.target_ne_pswBusAddr : o.target m ≠ Reg.psw.busAddr := by
  obtain ⟨-, ht⟩ | ht := o.target_cases m
  · rw [ht]
    exact Reg.busAddr_injective.ne (Reg.ofFin_ne_psw o.reg)
  · intro hpsw
    rw [hpsw] at ht
    exact absurd ht (by decide)

/-- The routine each register class gets. -/
theorem address_eq : address loc b o m =
    if o.reg = 7 then setupPcAddressing loc (Specifier.fieldWord o.mode) o.gpr.number m
    else if o.reg = 6 then setupSpAddressing loc (Specifier.fieldWord o.mode) o.gpr.number m
    else generalAddressing b loc (Specifier.fieldWord o.mode) o.gpr.number m := by
  rw [Specifier.number_gpr]
  obtain ⟨mode, reg⟩ := o
  fin_cases reg <;> cases b <;> rfl

section Effect

open Specifier

variable (mode : Fin 8) (reg : Fin 8)

theorem setupPcAddressing_effect :
    let o : Specifier := ⟨mode, 7⟩
    let m' := setupPcAddressing loc (fieldWord mode) o.gpr.number m
    m'.regs = o.regsAfter b m ∧ m'.mem = o.memAfter b m ∧
      m'.loc loc = if o.present then o.target m else m.loc loc := by
  refine ⟨?_, ?_, ?_⟩
  · funext r
    by_cases hr : r = .pc
    · subst hr
      fin_cases mode <;>
        simp [setupPcAddressing, fieldWord, regsAfter, consumes, delta, advancePc, Machine.pc]
    · fin_cases mode <;>
        simp [setupPcAddressing, fieldWord, regsAfter, consumes, advancePc, Machine.pc, hr]
  · fin_cases mode <;> simp [setupPcAddressing, fieldWord, memAfter, writesBack, advancePc]
  · fin_cases mode <;>
      simp [setupPcAddressing, fieldWord, present, target, advancePc, Machine.pc]

theorem setupSpAddressing_effect :
    let o : Specifier := ⟨mode, 6⟩
    let m' := setupSpAddressing loc (fieldWord mode) o.gpr.number m
    m'.regs = o.regsAfter b m ∧ m'.mem = o.memAfter b m ∧
      m'.loc loc = if o.present then o.target m else m.loc loc := by
  refine ⟨?_, ?_, ?_⟩
  · funext r
    by_cases hsp : r = .sp
    · subst hsp
      fin_cases mode <;>
        simp [setupSpAddressing, fieldWord, regsAfter, consumes, delta, advancePc, Machine.sp,
          BitVec.sub_eq_add_neg]
    · fin_cases mode <;>
        simp [setupSpAddressing, fieldWord, regsAfter, consumes, advancePc, Machine.sp,
          Machine.pc, hsp, Function.update_apply]
      all_goals grind
  · fin_cases mode <;> simp [setupSpAddressing, fieldWord, memAfter, writesBack, advancePc]
  · fin_cases mode <;>
      simp [setupSpAddressing, fieldWord, present, target, advancePc, Machine.sp]

theorem generalAddressing_effect (h6 : reg ≠ 6) (h7 : reg ≠ 7) :
    let o : Specifier := ⟨mode, reg⟩
    let m' := generalAddressing b loc (fieldWord mode) o.gpr.number m
    m'.regs = o.regsAfter b m ∧ m'.mem = o.memAfter b m ∧
      m'.loc loc = if o.present then o.target m else m.loc loc := by
  have hpc : Reg.ofFin reg ≠ .pc := gpr_ne_pc ⟨mode, reg⟩ h7
  refine ⟨?_, ?_, ?_⟩
  · funext r
    by_cases hr : r = Reg.ofFin reg
    · subst hr
      fin_cases mode <;>
        simp [generalAddressing, fieldWord, regsAfter, consumes, delta, hpc, advancePc, h6, h7,
          storeData_setWidth, gpr, BitVec.sub_eq_add_neg]
    · fin_cases mode <;>
        simp [generalAddressing, fieldWord, regsAfter, consumes, advancePc, h7, hr,
          storeData_setWidth, gpr, Function.update_apply]
      all_goals grind
  · fin_cases mode <;>
      simp [generalAddressing, fieldWord, memAfter, writesBack, advancePc, h6, h7,
        storeData_setWidth]
  · fin_cases mode <;>
      simp [generalAddressing, fieldWord, present, target, hpc, advancePc, h6, h7, gpr]

/-- **The whole effect of addressing an operand**, for every specifier. -/
theorem address_effect :
    (address loc b o m).regs = o.regsAfter b m ∧ (address loc b o m).mem = o.memAfter b m ∧
      (address loc b o m).loc loc = if o.present then o.target m else m.loc loc := by
  rw [address_eq]
  obtain ⟨mode, reg⟩ := o
  by_cases h7 : reg = 7
  · subst h7
    exact setupPcAddressing_effect loc b m mode
  · by_cases h6 : reg = 6
    · subst h6
      exact setupSpAddressing_effect loc b m mode
    · rw [if_neg h7, if_neg h6]
      exact generalAddressing_effect loc b m mode reg h6 h7

end Effect

theorem address_regs : (address loc b o m).regs = o.regsAfter b m := (address_effect ..).1

theorem address_mem : (address loc b o m).mem = o.memAfter b m := (address_effect ..).2.1

theorem address_loc :
    (address loc b o m).loc loc = if o.present then o.target m else m.loc loc :=
  (address_effect ..).2.2

theorem address_pc (loc : Loc) (b : Bool) (o : Specifier) (m : Machine) :
    (address loc b o m).pc = m.pc + if o.consumes then 2 else 0 := by
  show (address loc b o m).regs .pc = _
  rw [address_regs, Specifier.regsAfter]
  by_cases h7 : o.reg = 7
  · simp [Specifier.delta, h7, Machine.pc]
  · simp [(Specifier.gpr_ne_pc o h7).symm, Machine.pc]

@[simp] theorem address_psw (loc : Loc) (b : Bool) (o : Specifier) (m : Machine) :
    (address loc b o m).psw = m.psw := by
  have hgpr : Reg.psw ≠ o.gpr := Reg.psw_ne_ofFin o.reg
  show (address loc b o m).regs .psw = _
  rw [address_regs, Specifier.regsAfter]
  simp [hgpr, Machine.psw]

/-- A specifier that does not step its register moves at most PC. -/
theorem address_regs_of_ne {r : Reg} (hpc : r ≠ .pc) (h : r = o.gpr → o.delta b = 0) :
    (address loc b o m).regs r = m.regs r := by
  rw [address_regs, Specifier.regsAfter]
  by_cases hr : r = o.gpr
  · simp [hpc, h hr]
  · simp [hpc, hr]

/-- The latch is loaded afresh by a mode that is present. -/
theorem address_destLatch (b : Bool) {o : Specifier} (m : Machine) (hp : o.present = true) :
    (address .dest b o m).destAddress = o.target m := by
  have hloc := address_loc .dest b o m
  rwa [if_pos hp] at hloc

theorem address_srcLatch (b : Bool) {o : Specifier} (m : Machine) (hp : o.present = true) :
    (address .src b o m).srcAddress = o.target m := by
  have hloc := address_loc .src b o m
  rwa [if_pos hp] at hloc

end XMachine.Cpu
