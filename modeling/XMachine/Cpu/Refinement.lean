import XMachine.Cpu.Execute
import XMachine.Cpu.Operands
import XMachine.Cpu.Reference
import Mathlib.Tactic.FinCases

namespace XMachine.Cpu

open XMachine.Lib
open XMachine.Pdp11 (Place supported DoubleOp SingleOp Cond Opcode)

/-!
# CPU — refinement of the reference PDP-11

`execute` simulates the reference interpreter as long as the interpreter does
not refuse.  `abs` reads R0–R7, N, Z, the run state and memory off a machine;
the latches, `alu`, `ir` and the other PSW bits have no counterpart.

One lemma per ingredient — flags, operand addresses, reads, writes, handlers —
each of the form "if the reference's part succeeds, the code's part agrees".
-/

/-! ### The abstraction -/

def abs (m : Machine) : Pdp11.State where
  r i := m.regs (.ofFin i)
  n := m.psw.getLsbD 3
  z := m.psw.getLsbD 2
  halted := m.halted
  mem := m.mem

/-- The latched address of an operand place. -/
def placeAddr : Place → Addr
  | .reg i => (Reg.ofFin i).busAddr
  | .mem a => a.setWidth 32

variable (m : Machine)

@[simp] theorem abs_r (i : Fin 8) : (abs m).r i = m.regs (.ofFin i) := rfl

@[simp] theorem abs_setReg (i : Fin 8) (v : Word) :
    abs (m.setReg (.ofFin i) v) = (abs m).setReg i v := by
  simp only [abs, Pdp11.State.setReg, Machine.setReg_regs, Machine.setReg_halted,
    Machine.setReg_mem, Machine.psw, Function.update_of_ne (Reg.psw_ne_ofFin i)]
  congr 1
  funext j
  by_cases hj : j = i
  · subst hj
    rw [Function.update_self, Function.update_self]
  · rw [Function.update_of_ne hj, Function.update_of_ne (Reg.ofFin_injective.ne hj)]

theorem abs_setPc (v : Word) : abs (m.setReg .pc v) = (abs m).setReg 7 v := abs_setReg m 7 v

@[simp] theorem abs_setAlu (v : Word) : abs (m.setAlu v) = abs m := rfl

@[simp] theorem abs_setLoc (l : Loc) (a : Addr) : abs (m.setLoc l a) = abs m := by
  cases l <;> rfl

/-! ### Flags -/

/-- A PSW write shows in N and Z only. -/
theorem abs_setPsw (p : Word) :
    abs (m.setReg .psw p) = { abs m with n := p.getLsbD 3, z := p.getLsbD 2 } := by
  simp [abs, Machine.psw]

theorem abs_setZeroFlag (v : Word) : abs (setZeroFlag m v) = { abs m with z := v == 0 } := by
  rw [setZeroFlag_eq, abs_setPsw, getLsbD_writeBit _ _ _ (by decide),
    getLsbD_writeBit _ _ _ (by decide)]
  rfl

theorem abs_setNegativeFlagW (v : Word) :
    abs (setNegativeFlagW m v) = { abs m with n := v.msb } := by
  rw [setNegativeFlagW_eq, abs_setPsw, getLsbD_writeBit _ _ _ (by decide),
    getLsbD_writeBit _ _ _ (by decide)]
  rfl

theorem setZeroFlag_alu (v : Word) : (setZeroFlag m v).alu = m.alu := by
  rw [setZeroFlag_eq, Machine.setReg_alu]

theorem setNegativeFlagW_alu (v : Word) : (setNegativeFlagW m v).alu = m.alu := by
  rw [setNegativeFlagW_eq, Machine.setReg_alu]

theorem abs_zeroNegW : abs (FlagUpdate.zeroNegW.apply m) = (abs m).setNZ m.alu := by
  simp only [FlagUpdate.apply, abs_setNegativeFlagW, abs_setZeroFlag, setZeroFlag_alu]
  rfl

theorem abs_negWZero : abs (FlagUpdate.negWZero.apply m) = (abs m).setNZ m.alu := by
  simp only [FlagUpdate.apply, abs_setNegativeFlagW, abs_setZeroFlag, setNegativeFlagW_alu]
  rfl

/-! ### Specifier places -/

theorem toNat_le_of_le {a : Word} (h : a ≤ Pdp11.State.topAddress) : a.toNat < 0o1000 := by
  have : a.toNat ≤ 0o776 := h
  omega

theorem load_wordAt {a v : Word} (h : (abs m).load a = some v) : wordAt m a = v := by
  unfold Pdp11.State.load at h
  split at h
  · next ha =>
    rw [wordAt_eq, translateBusAddr_of_lt (toNat_le_of_le ha)]
    exact Option.some.inj h
  · cases h

theorem read_fetchData {p : Place} {v : Word} (h : (abs m).read p = some v) :
    fetchData m (placeAddr p) = v := by
  cases p with
  | reg i =>
    rw [placeAddr, fetchData_busAddr]
    exact Option.some.inj h
  | mem a => exact load_wordAt m h

theorem write_storeData {p : Place} {v : Word} {s : Pdp11.State}
    (h : (abs m).write p v = some s) : abs (storeData m (placeAddr p) v) = s := by
  cases p with
  | reg i =>
    rw [placeAddr, storeData_busAddr, abs_setReg]
    exact Option.some.inj h
  | mem a =>
    rw [Pdp11.State.write, Pdp11.State.store] at h
    split at h
    · next ha =>
      rw [placeAddr, storeData_setWidth, translateBusAddr_of_lt (toNat_le_of_le ha)]
      exact Option.some.inj h
    · cases h

/-! ### Effective addresses -/

/-- What the three addressing routines have in common: on the modes of the
    subset they treat all registers alike. -/
def uniformAddressing (loc : Loc) (mode : Fin 8) (r : Reg) (m : Machine) : Machine :=
  match mode with
  | 0 => m.setLoc loc r.busAddr
  | 1 => m.setLoc loc ((m.regs r).setWidth 32)
  | 2 => (m.setLoc loc ((m.regs r).setWidth 32)).setReg r (m.regs r + 2)
  | 3 => (m.setLoc loc ((wordAt m (m.regs r)).setWidth 32)).setReg r (m.regs r + 2)
  | _ => (m.setReg r (m.regs r - 2)).setLoc loc ((m.regs r - 2).setWidth 32)

theorem address_supported {o : Specifier} (h : supported o = true) (loc : Loc) :
    address loc false o m
      = uniformAddressing loc o.mode (.ofFin o.reg) m := by
  obtain ⟨mode, reg⟩ := o
  cases loc <;> fin_cases reg <;> fin_cases mode <;> first | exact absurd h (by decide) | rfl

/-- Computing an operand: the latch holds the place, the rest of the machine
    shows the reference's registers, and the other latch is untouched. -/
theorem ea_address (loc : Loc) {o : Specifier} {p : Place} {s : Pdp11.State}
    (h : (abs m).ea o = some (p, s)) :
    (address loc false o m).loc loc = placeAddr p ∧
      abs (address loc false o m) = s := by
  unfold Pdp11.State.ea at h
  split at h
  · next hsup =>
    rw [address_supported m hsup]
    obtain ⟨mode, reg⟩ := o
    dsimp only at h ⊢
    split at h
    · obtain ⟨rfl, rfl⟩ := Prod.mk.inj (Option.some.inj h)
      simp [uniformAddressing, placeAddr]
    · obtain ⟨rfl, rfl⟩ := Prod.mk.inj (Option.some.inj h)
      simp [uniformAddressing, placeAddr]
    · obtain ⟨rfl, rfl⟩ := Prod.mk.inj (Option.some.inj h)
      simp [uniformAddressing, placeAddr]
    · obtain ⟨a, ha, hps⟩ := Option.map_eq_some_iff.mp h
      obtain ⟨rfl, rfl⟩ := Prod.mk.inj hps
      rw [abs_r] at ha
      simp [uniformAddressing, placeAddr, load_wordAt m ha]
    · obtain ⟨rfl, rfl⟩ := Prod.mk.inj (Option.some.inj h)
      simp [uniformAddressing, placeAddr]
    · cases h
  · cases h

/-! ### Handlers -/

/-- The store and flag phases of a handler, after its operands. -/
theorem finish_refines {test : Bool} {fl : FlagUpdate} {q : Place} {s : Pdp11.State}
    (hfl : ∀ m, abs (fl.apply m) = (abs m).setNZ m.alu) (hq : m.destAddress = placeAddr q)
    (h : (abs m).finish test q m.alu = some s) :
    abs (fl.apply ((if test then AluStore.none else .word).apply m)) = s := by
  obtain ⟨t, ht, rfl⟩ := Option.map_eq_some_iff.mp h
  rw [hfl]
  cases test with
  | true => rw [← Option.some.inj ht]; rfl
  | false =>
    show (abs (storeData m m.destAddress m.alu)).setNZ (storeData m m.destAddress m.alu).alu = _
    rw [hq, write_storeData m ht, storeData_alu]

theorem oneOperand_refines (op : SingleOp) {f : Word → Word → Word} {st : AluStore}
    {fl : FlagUpdate} {s : Pdp11.State} (hf : ∀ p y, f p y = op.eval y)
    (hst : st = if op == .tst then .none else .word)
    (hfl : ∀ m, abs (fl.apply m) = (abs m).setNZ m.alu)
    (h : (abs m).single op (.dest m.ir) = some s) :
    abs (oneOperand false f st fl m) = s := by
  simp only [Pdp11.State.single, Option.bind_eq_bind, Option.bind_eq_some_iff, Prod.exists] at h
  obtain ⟨q, s1, hq, y, hy, hs⟩ := h
  obtain ⟨hloc, habs⟩ := ea_address m .dest hq
  rw [← setupDestAddressing_eq] at hloc habs
  rw [← habs] at hy hs
  have hfetch := read_fetchData _ hy
  rw [← hloc, Machine.loc_dest] at hfetch
  have hfinish := finish_refines ((setupDestAddressing false m).setAlu (op.eval y)) hfl hloc hs
  rw [← hst] at hfinish
  rw [← hfinish, oneOperand]
  simp only [hf, hfetch]

theorem twoOperand_refines (op : DoubleOp) {f : Word → Word → Word} {st : AluStore}
    {fl : FlagUpdate} {s : Pdp11.State} (hf : ∀ x y, f x y = op.eval x y)
    (hst : st = if op == .bit then .none else .word)
    (hfl : ∀ m, abs (fl.apply m) = (abs m).setNZ m.alu)
    (h : (abs m).double op (.src m.ir) (.dest m.ir) = some s) :
    abs (twoOperand false f st fl m) = s := by
  simp only [Pdp11.State.double, Option.bind_eq_bind, Option.bind_eq_some_iff, Prod.exists] at h
  obtain ⟨p, s1, hp, q, s2, hq, x, hx, y, hy, hs⟩ := h
  obtain ⟨hsrc, habs1⟩ := ea_address m .src hp
  rw [← setupSrcAddressing_eq] at hsrc habs1
  have hir : (setupSrcAddressing false m).ir = m.ir := setupAddressing_ir ..
  rw [← habs1, ← hir] at hq
  obtain ⟨hdest, habs2⟩ := ea_address _ .dest hq
  rw [← setupDestAddressing_eq] at hdest habs2
  rw [← habs2] at hx hy hs
  -- The source latch survives the destination's addressing.
  have hsrc' : (setupDestAddressing false (setupSrcAddressing false m)).srcAddress
      = placeAddr p := (setupAddressing_dest_srcAddress ..).trans hsrc
  have hfx := read_fetchData _ hx
  have hfy := read_fetchData _ hy
  rw [← hsrc'] at hfx
  rw [← hdest, Machine.loc_dest] at hfy
  have hfinish := finish_refines
    ((setupDestAddressing false (setupSrcAddressing false m)).setAlu (op.eval x y)) hfl hdest hs
  rw [← hst] at hfinish
  rw [← hfinish, twoOperand]
  simp only [hf, hfx, hfy]

/-- A branch taken on a flag condition that agrees with the reference's. -/
theorem branch_refines (c : Cond) {f : Word → Word} {taken : Word → Bool}
    (h : taken (f m.psw) = c.holds (abs m)) :
    abs (branch f taken m) = (abs m).branch c (m.ir.extractLsb' 0 8) := by
  unfold branch Pdp11.State.branch
  simp only [Machine.setAlu_alu, h]
  split
  · exact abs_setPc (m.setAlu (f m.psw)) _
  · rfl

theorem zeroFlag_clear : (m.psw &&& ZEROFLAG == 0) = Cond.ne.holds (abs m) := by
  show _ = !m.psw.getLsbD 2
  rw [Bool.eq_iff_iff, beq_iff_eq, Bool.not_eq_true', ← Bool.not_eq_true, ← and_zeroFlag, not_not]

theorem zeroFlag_set : (m.psw &&& ZEROFLAG == ZEROFLAG) = Cond.eq.holds (abs m) := by
  show _ = m.psw.getLsbD 2
  have htwo : m.psw &&& ZEROFLAG = if m.psw.getLsbD 2 then ZEROFLAG else 0 :=
    BitVec.and_twoPow m.psw 2
  rw [htwo]
  cases m.psw.getLsbD 2 <;> rfl

theorem negativeFlag_clear : (m.psw &&& NEGATIVEFLAG == 0) = Cond.pl.holds (abs m) := by
  show _ = !m.psw.getLsbD 3
  rw [Bool.eq_iff_iff, beq_iff_eq, Bool.not_eq_true', ← Bool.not_eq_true, ← and_negativeFlag,
    not_not]

theorem negativeFlag_set : (m.psw &&& NEGATIVEFLAG != 0) = Cond.mi.holds (abs m) := by
  show _ = m.psw.getLsbD 3
  rw [Bool.eq_iff_iff, bne_iff_ne, and_negativeFlag]

/-! ### Instructions -/

/-- The handler name of a reference opcode. -/
def opOf : Opcode → Op
  | .double .mov => .MOV
  | .double .bit => .BIT
  | .double .bic => .BIC
  | .double .bis => .BIS
  | .double .add => .ADD
  | .single .clr => .CLR
  | .single .com => .COM
  | .single .inc => .INC
  | .single .dec => .DEC
  | .single .neg => .NEG
  | .single .asl => .ASL
  | .single .tst => .TST
  | .branch .always => .BR
  | .branch .ne => .BNE
  | .branch .eq => .BEQ
  | .branch .pl => .BPL
  | .branch .mi => .BMI

/-- The two decoders agree on every ten-bit prefix the reference accepts. -/
theorem decode_prefix : ∀ code : BitVec 10,
    (Pdp11.opcode code).all fun k => decode (code.setWidth 16 <<< 6) = opOf k := by
  decide +kernel

theorem decode_opcode {ir : Word} {k : Opcode}
    (h : Pdp11.opcode (ir.extractLsb' 6 10) = some k) : decode ir = opOf k := by
  have hall := decode_prefix (ir.extractLsb' 6 10)
  rw [h, Option.all_some, decide_eq_true_eq] at hall
  rw [← hall, ← decode_and_mask]
  congr 1
  exact and_allOnes_shiftLeft ir 6

theorem shiftLeft_one (v : Word) : v <<< 1 = 2 * v := by
  apply BitVec.eq_of_toNat_eq
  simp [BitVec.toNat_shiftLeft, Nat.shiftLeft_eq, Nat.mul_comm]

theorem negate_eq (v : Word) : ~~~v + 1 = -v := (BitVec.neg_eq_not_add v).symm

theorem execInstruction_refines {s : Pdp11.State} (h : (abs m).exec m.ir = some s) :
    abs (execInstruction m) = s := by
  unfold Pdp11.State.exec at h
  split at h
  · next hir =>
    have hop : decode m.ir = .HALT := by rw [hir]; rfl
    rw [execInstruction, hop]
    exact Option.some.inj h
  · split at h
    · next op hop =>
      rw [execInstruction, decode_opcode hop]
      cases op
      · exact twoOperand_refines m _ (fun _ _ => rfl) rfl abs_zeroNegW h
      · exact twoOperand_refines m _ (fun _ _ => rfl) rfl abs_zeroNegW h
      · exact twoOperand_refines m _ (fun _ _ => rfl) rfl abs_negWZero h
      · exact twoOperand_refines m _ (fun _ _ => rfl) rfl abs_negWZero h
      · exact twoOperand_refines m .add (fun x y => BitVec.add_comm x y) rfl abs_negWZero h
    · next op hop =>
      rw [execInstruction, decode_opcode hop]
      cases op
      · exact oneOperand_refines m _ (fun _ _ => rfl) rfl abs_negWZero h
      · exact oneOperand_refines m _ (fun _ _ => rfl) rfl abs_negWZero h
      · exact oneOperand_refines m _ (fun _ _ => rfl) rfl abs_zeroNegW h
      · exact oneOperand_refines m _ (fun _ _ => rfl) rfl abs_zeroNegW h
      · exact oneOperand_refines m .neg (fun _ y => negate_eq y) rfl abs_zeroNegW h
      · exact oneOperand_refines m .asl (fun _ y => shiftLeft_one y) rfl abs_zeroNegW h
      · exact oneOperand_refines m _ (fun _ _ => rfl) rfl abs_zeroNegW h
    · next c hop =>
      rw [execInstruction, decode_opcode hop, ← Option.some.inj h]
      cases c
      · exact abs_setPc m _
      · exact branch_refines m .ne (zeroFlag_clear m)
      · exact branch_refines m .eq (zeroFlag_set m)
      · exact branch_refines m .pl (negativeFlag_clear m)
      · exact branch_refines m .mi (negativeFlag_set m)
    · cases h

theorem iteration_refines {s : Pdp11.State} (h : (abs m).step = some s) :
    abs (iteration m) = s := by
  obtain ⟨w, hw, hs⟩ := Option.bind_eq_some_iff.mp h
  have hfetch : wordAt m m.pc = w := load_wordAt m hw
  have habs : abs (fetchInstruction m) = (abs m).setReg 7 ((abs m).r 7 + 2) :=
    abs_setPc { m with ir := fetchData m (m.pc.setWidth 32) } (m.pc + 2)
  rw [← habs, ← hfetch] at hs
  exact execInstruction_refines (fetchInstruction m) hs

theorem execute_eq_runHalting (n : ℕ) (m : Machine) :
    execute n m = runHalting Machine.halted iteration n m := by
  induction n generalizing m with
  | zero => rfl
  | succ n ih => rw [execute, runHalting, ih]

/-- **Program-level refinement.**  As long as the reference interpreter does not
    refuse, `n` iterations of the loop end in the state it computes. -/
theorem execute_refines (n : ℕ) (m : Machine) (h : ((abs m).run n).isSome) :
    (abs m).run n = some (abs (execute n m)) := by
  obtain ⟨t, ht⟩ := Option.isSome_iff_exists.mp h
  have hhalt (m : Machine) : (abs m).halted = m.halted := rfl
  have hsim := runPartial_sim hhalt (fun m _ => iteration_refines m) n m t ht
  rw [ht, execute_eq_runHalting, hsim]

/-- `mov #3, r0; 1$: dec r0; bne 1$; halt`, from address 0. -/
def countdown : Machine :=
  initCpu fun a => [0xc0, 0x15, 3, 0, 0xc0, 0x0a, 0xfe, 0x02, 0, 0].getD a.toNat 0

theorem execute_refines_countdown :
    (abs countdown).run 8 = some (abs (execute 8 countdown)) :=
  execute_refines 8 countdown (by decide +kernel)

end XMachine.Cpu
