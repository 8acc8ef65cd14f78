import XMachine.Cpu.Addressing
import XMachine.Cpu.Specifier
import Mathlib.Data.Fintype.Basic
import Mathlib.Tactic.FinCases

namespace XMachine.Cpu

/-!
# CPU — general-register operands

The operand each addressing mode of R0–R5 names on the PDP-11, as the comments
of `setup_general_addressing` list them, and when the code computes it.

* `pdpOperand` — the operand address and the registers after addressing, from
  the mode's definition;
* `AddressesOperand` — `setup_general_addressing` (or its byte variant) yields
  that address and those registers and writes no memory;
* `OperandModeHolds` — the modes, and for the deferred and indexed ones the
  memory contents, on which it does.
-/

/-- The operand of `mode` on register `r`: its address and the registers once
    it has been computed.  `X` is the next instruction word. -/
def pdpOperand (isByteAddr : Bool) (mode : Fin 8) (r : Reg) (m : Machine) :
    Addr × (Reg → Word) :=
  let step : Word := if isByteAddr then 1 else 2
  let rn := m.regs r
  let X := wordAt m m.pc
  match mode with
  | 0 => (r.busAddr, m.regs)
  | 1 => (rn.setWidth 32, m.regs)
  | 2 => (rn.setWidth 32, Function.update m.regs r (rn + step))
  | 3 => ((wordAt m rn).setWidth 32, Function.update m.regs r (rn + 2))
  | 4 => ((rn - step).setWidth 32, Function.update m.regs r (rn - step))
  | 5 => ((wordAt m (rn - 2)).setWidth 32, Function.update m.regs r (rn - 2))
  | 6 => ((rn + X).setWidth 32, Function.update m.regs .pc (m.pc + 2))
  | 7 => ((wordAt m (rn + X)).setWidth 32, Function.update m.regs .pc (m.pc + 2))

/-- The addressing routine of the given width. -/
def setupGeneral (isByteAddr : Bool) : Loc → Word → Word → Machine → Machine :=
  if isByteAddr then setupGeneralByteAddressing else setupGeneralAddressing

theorem setupGeneral_eq (isByteAddr : Bool) :
    setupGeneral isByteAddr = generalAddressing isByteAddr := by
  cases isByteAddr <;> rfl

/-- The routine computes the operand `pdpOperand` names and leaves memory alone. -/
def AddressesOperand (isByteAddr : Bool) (loc : Loc) (mode : Fin 8) (r : Reg) (m : Machine) :
    Prop :=
  let m' := setupGeneral isByteAddr loc (BitVec.ofFin (mode.castLE (by decide))) r.number m
  m'.loc loc = (pdpOperand isByteAddr mode r m).1 ∧
    m'.regs = (pdpOperand isByteAddr mode r m).2 ∧ m'.mem = m.mem

/-- When the operand is the right one.  Modes 3, 6 and 7 dereference once too
    often or from the wrong word, so there it takes a coincidence in memory;
    modes 4 and 5 never move the register first. -/
def OperandModeHolds (isByteAddr : Bool) (mode : Fin 8) (r : Reg) (m : Machine) : Prop :=
  match mode with
  | 0 | 1 | 2 => True
  | 3 => isByteAddr = false ∧ wordAt m (wordAt m (m.regs r)) = wordAt m (m.regs r)
  | 4 | 5 => False
  | 6 => wordAtSum m (wordAt m m.pc) (m.regs r) = m.regs r + wordAt m m.pc
  | 7 => wordAtSum m (wordAt m (m.regs r)) (wordAt m m.pc) = wordAt m (m.regs r + wordAt m m.pc)

/-- Zero-extension to an address is injective. -/
theorem setWidth_inj {v w : Word} : v.setWidth 32 = (w.setWidth 32 : Addr) ↔ v = w := by
  constructor
  · intro h
    bv_omega
  · rintro rfl
    rfl

/-- Two updates of one register agree exactly when the new values do. -/
theorem update_eq_update_iff {regs : Reg → Word} {r : Reg} {v w : Word} :
    Function.update regs r v = Function.update regs r w ↔ v = w :=
  (Function.update_injective regs r).eq_iff

theorem ne_sub_one {v : Word} : v ≠ v - 1 := by bv_omega

theorem ne_sub_two {v : Word} : v ≠ v - 2 := by bv_omega

/-- Mode 3 loads the operand address through one word too many, and the byte
    variant steps the register by one. -/
theorem autoincrementDeferred_iff (isByteAddr : Bool) (loc : Loc) (i : Fin 6) (m : Machine) :
    AddressesOperand isByteAddr loc 3 (.general i) m
      ↔ OperandModeHolds isByteAddr 3 (.general i) m := by
  unfold AddressesOperand
  rw [setupGeneral_eq]
  simp [OperandModeHolds, pdpOperand, generalAddressing, update_eq_update_iff, setWidth_inj,
    and_comm]

/-- Mode 4 latches the register before it is decremented. -/
theorem not_autodecrement (isByteAddr : Bool) (loc : Loc) (i : Fin 6) (m : Machine) :
    ¬ AddressesOperand isByteAddr loc 4 (.general i) m := by
  unfold AddressesOperand
  rw [setupGeneral_eq]
  rintro ⟨haddr, -, -⟩
  simp [pdpOperand, generalAddressing, setWidth_inj] at haddr
  cases isByteAddr
  · exact ne_sub_two haddr
  · exact ne_sub_one haddr

/-- Mode 5 steps the word in memory, never the register. -/
theorem not_autodecrementDeferred (isByteAddr : Bool) (loc : Loc) (i : Fin 6) (m : Machine) :
    ¬ AddressesOperand isByteAddr loc 5 (.general i) m := by
  unfold AddressesOperand
  rw [setupGeneral_eq]
  rintro ⟨-, hregs, -⟩
  simp [pdpOperand, generalAddressing, storeData_setWidth] at hregs
  exact ne_sub_two hregs

/-- **What each mode of R0–R5 computes.**  Register, deferred and autoincrement
    modes are right; the other five are right exactly on `OperandModeHolds`. -/
theorem general_operand_iff (isByteAddr : Bool) (loc : Loc) (mode : Fin 8) (i : Fin 6)
    (m : Machine) :
    AddressesOperand isByteAddr loc mode (.general i) m
      ↔ OperandModeHolds isByteAddr mode (.general i) m := by
  have hpc := Reg.general_ne_pc i
  fin_cases mode
  case «3» => exact autoincrementDeferred_iff isByteAddr loc i m
  case «4» => exact iff_of_false (not_autodecrement isByteAddr loc i m) id
  case «5» => exact iff_of_false (not_autodecrementDeferred isByteAddr loc i m) id
  all_goals
    unfold AddressesOperand
    rw [setupGeneral_eq]
    simp [OperandModeHolds, pdpOperand, generalAddressing, advancePc, setWidth_inj]

/-- `-(R1)` with R1 = 0400 addresses 0400, not 0376. -/
theorem autodecrement_wrong : ¬ ∀ (isByteAddr : Bool) (loc : Loc) (mode : Fin 8) (i : Fin 6)
    (m : Machine), AddressesOperand isByteAddr loc mode (.general i) m := by
  intro h
  have hr1 := (h false .dest 4 1 ((initCpu fun _ => 0).setReg .r1 0o400)).1
  exact absurd hr1 (by decide)

end XMachine.Cpu
