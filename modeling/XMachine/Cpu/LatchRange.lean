import XMachine.Cpu.Handlers
import XMachine.Cpu.OperandModes

namespace XMachine.Cpu

open XMachine.Lib

/-!
# CPU — the addresses the operand latches hold

Relative mode on PC and the indexed modes on SP add a word of the instruction
stream to a register.  The sums are formed in `uint32_t`, so a backward
reference or a negative offset carries into bit 16.

* `SumMode.yields_iff` — when a sum is the one modulo 2^16;
* `execInstruction_latches` — what an instruction leaves in the two latches;
* `latches_inRange_iff` — the runs in which every latch stays in range.
-/

/-! ### The modes that add -/

/-- Relative mode on PC, indexed and deferred indexed mode on SP. -/
inductive SumMode
  | relative | indexed | deferred
  deriving DecidableEq, Repr

namespace SumMode

def specifier : SumMode → Specifier
  | .relative => ⟨6, 7⟩
  | .indexed => ⟨6, 6⟩
  | .deferred => ⟨7, 6⟩

/-- The register the operand word is added to, PC being past that word. -/
def base (k : SumMode) (m : Machine) : Word :=
  match k with
  | .relative => m.pc + 2
  | .indexed | .deferred => m.sp

/-- The sum modulo 2^16; PC stands at the operand word. -/
def wrappedSum (k : SumMode) (m : Machine) : Word := k.base m + wordAt m m.pc

/-- The operand address of the mode, from the sum modulo 2^16. -/
def operand (k : SumMode) (m : Machine) : Addr :=
  match k with
  | .relative | .indexed => (k.wrappedSum m).setWidth 32
  | .deferred => (wordAt m (k.wrappedSum m)).setWidth 32

/-- The sum has no carry out of 16 bits. -/
def Fits (k : SumMode) (m : Machine) : Prop :=
  (k.base m).toNat + (wordAt m m.pc).toNat < 2 ^ 16

instance (k : SumMode) (m : Machine) : Decidable (k.Fits m) := inferInstanceAs (Decidable (_ < _))

/-- When the mode finds its operand.  With a carry the deferred mode still does
    if the translation drops it, as it does from 01000 on, or if memory has the
    same word in both places. -/
def Holds (k : SumMode) (m : Machine) : Prop :=
  k.Fits m ∨ k = .deferred ∧ (0o1000 ≤ (k.wrappedSum m).toNat ∨
    m.mem.readWord ((k.wrappedSum m).setWidth 32 + 0x10000)
      = m.mem.readWord ((k.wrappedSum m).setWidth 32))

end SumMode

section Sums

variable (v w : Word)

theorem add_setWidth_of_lt (h : v.toNat + w.toNat < 2 ^ 16) :
    (v.setWidth 32 + w.setWidth 32 : Addr) = (v + w).setWidth 32 := by bv_omega

theorem add_setWidth_of_le (h : 2 ^ 16 ≤ v.toNat + w.toNat) :
    (v.setWidth 32 + w.setWidth 32 : Addr) = (v + w).setWidth 32 + 0x10000 := by bv_omega

theorem add_setWidth_iff : (v.setWidth 32 + w.setWidth 32 : Addr) = (v + w).setWidth 32 ↔
    v.toNat + w.toNat < 2 ^ 16 := by
  constructor
  · intro h
    by_contra hle
    rw [add_setWidth_of_le v w (by omega)] at h
    bv_omega
  · exact add_setWidth_of_lt v w

/-- A carry out of 16 bits is bit 16. -/
theorem setWidth_carry : (v.setWidth 32 + 0x10000 : Addr) = v.setWidth 32 ||| 0x10000 := by
  apply BitVec.add_eq_or_of_and_eq_zero
  by_contra hne
  have hbit := (and_twoPow_ne_zero (v.setWidth 32 : Addr) (i := 16) (by decide)).mp hne
  simp at hbit

/-- The translation's test does not see the carry. -/
theorem and_translateMask_carry :
    (v.setWidth 32 + 0x10000 : Addr) &&& 0o177000 = (v.setWidth 32 : Addr) &&& 0o177000 := by
  rw [setWidth_carry, BitVec.and_or_distrib_right]
  exact BitVec.or_zero

/-- From 01000 on the translation sets bit 16 itself. -/
theorem translateBusAddr_carry (h : 0o1000 ≤ v.toNat) :
    translateBusAddr (v.setWidth 32 + 0x10000) = translateBusAddr (v.setWidth 32) := by
  have hmask : (v.setWidth 32 : Addr) &&& 0o177000 ≠ 0 :=
    mt (and_translateMask_eq_zero v).mp (by omega)
  rw [translateBusAddr, translateBusAddr, and_translateMask_carry, if_pos hmask, if_pos hmask,
    setWidth_carry, BitVec.or_assoc]
  rfl

theorem translateBusAddr_carry_of_lt (h : v.toNat < 0o1000) :
    translateBusAddr (v.setWidth 32 + 0x10000) = v.setWidth 32 + 0x10000 := by
  have hmask : (v.setWidth 32 : Addr) &&& 0o177000 = 0 := (and_translateMask_eq_zero v).mpr h
  rw [translateBusAddr, and_translateMask_carry, if_neg (not_not.mpr hmask)]

end Sums

/-- The word found at an unreduced sum is the one at the sum modulo 2^16 unless
    the carry reaches the bus and finds another word there. -/
theorem wordAtSum_eq_iff (v w : Word) (m : Machine) : wordAtSum m v w = wordAt m (v + w) ↔
    v.toNat + w.toNat < 2 ^ 16 ∨ 0o1000 ≤ (v + w).toNat ∨
      m.mem.readWord ((v + w).setWidth 32 + 0x10000) = m.mem.readWord ((v + w).setWidth 32) := by
  rw [wordAtSum_eq, wordAt_eq]
  by_cases hfit : v.toNat + w.toNat < 2 ^ 16
  · rw [add_setWidth_of_lt v w hfit]
    exact iff_of_true rfl (.inl hfit)
  · rw [add_setWidth_of_le v w (by omega)]
    -- The carry is bit 16, which the translation sets from 01000 on.
    by_cases hhigh : 0o1000 ≤ (v + w).toNat
    · rw [translateBusAddr_carry _ hhigh]
      exact iff_of_true rfl (.inr (.inl hhigh))
    · rw [translateBusAddr_carry_of_lt _ (by omega), translateBusAddr_of_lt (by omega)]
      exact ⟨fun h => .inr (.inr h), fun h => (h.resolve_left hfit).resolve_left hhigh⟩

/-- The address the code computes for a mode that adds. -/
theorem SumMode.loc_eq (k : SumMode) (loc : Loc) (b : Bool) (m : Machine) :
    (address loc b k.specifier m).loc loc = k.specifier.target m := by
  rw [address_loc, if_pos (by cases k <;> rfl)]

/-- **When a sum is formed modulo 2^16.** -/
theorem SumMode.yields_iff (k : SumMode) (loc : Loc) (b : Bool) (m : Machine) :
    (address loc b k.specifier m).loc loc = k.operand m ↔ k.Holds m := by
  rw [k.loc_eq]
  cases k with
  | relative =>
    have hsum := add_setWidth_iff (m.pc + 2) (wordAt m m.pc)
    simpa [specifier, Specifier.target, operand, Holds, Fits, base, wrappedSum] using hsum
  | indexed =>
    have hsum := add_setWidth_iff m.sp (wordAt m m.pc)
    simpa [specifier, Specifier.target, operand, Holds, Fits, base, wrappedSum] using hsum
  | deferred =>
    -- The sum is looked up and not latched, in the code with SP as the second term.
    have hsum := wordAtSum_eq_iff (wordAt m m.pc) m.sp m
    rw [BitVec.add_comm, Nat.add_comm] at hsum
    refine (setWidth_inj.trans hsum).trans ?_
    simp [Holds, Fits, base, wrappedSum]

/-! ### What an instruction leaves in the latches -/

/-- The handler addresses a destination operand. -/
def Op.usesDest (op : Op) : Bool := op.isOperand || op.group == .jmp || op.group == .jsr

@[simp] theorem storeDataRegister_loc (m : Machine) (a : Addr) (v : Word) (l : Loc) :
    (storeDataRegister m a v).loc l = m.loc l := by
  unfold storeDataRegister
  split <;> simp

/-- The handlers that address no operand leave both latches alone. -/
theorem handler_loc {op : Op} (h : op.usesDest = false) (m : Machine) (l : Loc) :
    (handler op m).loc l = m.loc l := by
  have hshape := handler_cases op
  generalize handler op = f at hshape
  cases hshape with
  | br hg => simp [takeBranch]
  | branch hg f taken =>
    rw [branch_eq]
    split <;> simp [takeBranch]
  | two hg hn => simp [Op.usesDest, Op.isOperand, hg, hn] at h
  | one hg hn => simp [Op.usesDest, Op.isOperand, hg, hn] at h
  | stub hg hn => rfl
  | jmp hj => subst hj; cases h
  | jsr hj => subst hj; cases h
  | rts hj => simp [RTS]
  | halt hj => cases l <;> rfl

/-- `JMP` and `JSR` address their operand as any other instruction does. -/
theorem handler_loc_jump {op : Op} (h : op = .JMP ∨ op = .JSR) (m : Machine) (l : Loc) :
    (handler op m).loc l = (op.setUp m).loc l := by
  rcases h with rfl | rfl
  · simp [handler, JMP, Op.setUp, Op.afterSource, Op.group, Op.useByteAddr]
  · simp [handler, JSR, Op.setUp, Op.afterSource, Op.group, Op.useByteAddr]

/-- A handler that uses a destination loads the latches in its addressing phases only. -/
theorem handler_loc_operand {op : Op} (h : op.usesDest = true) (m : Machine) (l : Loc) :
    (handler op m).loc l = (op.setUp m).loc l := by
  by_cases ho : op.isOperand = true
  · rw [handler_operand ho]
    simp
  · apply handler_loc_jump
    cases op <;> simp_all [Op.usesDest, Op.isOperand, Op.group, Op.isStub]

/-- **What an instruction leaves in the latches.** -/
theorem execInstruction_latches (m : Machine) :
    (execInstruction m).srcAddress =
        (if (decode m.ir).group = .double ∧ (Specifier.src m.ir).present = true then
          (Specifier.src m.ir).target m else m.srcAddress) ∧
      (execInstruction m).destAddress =
        (if (decode m.ir).usesDest = true ∧ (Specifier.dest m.ir).present = true then
          (Specifier.dest m.ir).target ((decode m.ir).afterSource m) else m.destAddress) := by
  have hsrc (n : Machine) : n.srcAddress = n.loc .src := rfl
  have hdest (n : Machine) : n.destAddress = n.loc .dest := rfl
  rw [execInstruction]
  by_cases hused : (decode m.ir).usesDest = true
  · have hs := (decode m.ir).setUp_srcAddress m
    have hd := (decode m.ir).setUp_destAddress m
    rw [hsrc, hdest (handler _ _), handler_loc_operand hused, handler_loc_operand hused]
    exact ⟨hs, by simpa [hused] using hd⟩
  · rw [Bool.not_eq_true] at hused
    -- A handler without a destination has no source either.
    have hg : (decode m.ir).group ≠ .double := by
      generalize decode m.ir = op at hused
      cases op <;> simp_all [Op.usesDest, Op.isOperand, Op.group, Op.isStub]
    rw [hsrc, hdest (handler _ _), handler_loc hused, handler_loc hused]
    simp [hg, hused]

/-! ### The range of the latches -/

/-- A register's bus address, or one of 16 bits. -/
def InRange (a : Addr) : Prop := isInternalBusAddr a = true ∨ a.toNat < 2 ^ 16

instance (a : Addr) : Decidable (InRange a) := inferInstanceAs (Decidable (_ ∨ _))

structure LatchesInRange (m : Machine) : Prop where
  src : InRange m.srcAddress
  dest : InRange m.destAddress

theorem inRange_busAddr (r : Reg) : InRange r.busAddr := .inl (isInternalBusAddr_busAddr r)

theorem inRange_setWidth (v : Word) : InRange (v.setWidth 32) := by
  refine .inr ?_
  rw [BitVec.toNat_setWidth_of_le (by decide)]
  exact v.isLt

/-- A sum is a register's address never, and has 16 bits unless it carries. -/
theorem inRange_add_iff (v w : Word) :
    InRange (v.setWidth 32 + w.setWidth 32) ↔ v.toNat + w.toNat < 2 ^ 16 := by
  rw [InRange, isInternalBusAddr_add]
  constructor
  · rintro (h | h)
    · cases h
    · bv_omega
  · intro h
    exact .inr (by bv_omega)

/-- If the specifier forms a sum and latches it, the sum does not carry. -/
def Specifier.SumFits (o : Specifier) (m : Machine) : Prop :=
  ∀ k : SumMode, k ≠ .deferred → o = k.specifier → k.Fits m

/-- Every other mode latches a register's address or a word. -/
theorem Specifier.target_of_noSum {o : Specifier} (m : Machine) (hp : o.present = true)
    (h7 : o ≠ ⟨6, 7⟩) (h6 : o ≠ ⟨6, 6⟩) :
    (∃ r : Reg, o.target m = r.busAddr) ∨ ∃ v : Word, o.target m = v.setWidth 32 := by
  by_cases h0 : o.mode = 0
  · exact .inl ⟨o.gpr, by simp [target, h0]⟩
  · -- The remaining modes latch a register's contents or a word of memory.
    obtain ⟨mode, reg⟩ := o
    fin_cases reg <;> fin_cases mode <;>
      first
      | exact .inr ⟨_, rfl⟩
      | exact absurd rfl h0
      | exact absurd rfl h7
      | exact absurd rfl h6
      | exact absurd hp (by decide)

theorem Specifier.inRange_target_iff {o : Specifier} (m : Machine) (hp : o.present = true) :
    InRange (o.target m) ↔ o.SumFits m := by
  by_cases h7 : o = ⟨6, 7⟩
  · subst h7
    refine (inRange_add_iff (m.pc + 2) (wordAt m m.pc)).trans ⟨fun h k hk he => ?_, fun h => ?_⟩
    · cases k with
      | relative => exact h
      | indexed => exact absurd he (by decide)
      | deferred => exact absurd rfl hk
    · exact h .relative nofun rfl
  · by_cases h6 : o = ⟨6, 6⟩
    · subst h6
      refine (inRange_add_iff m.sp (wordAt m m.pc)).trans ⟨fun h k hk he => ?_, fun h => ?_⟩
      · cases k with
        | relative => exact absurd he (by decide)
        | indexed => exact h
        | deferred => exact absurd rfl hk
      · exact h .indexed nofun rfl
    · refine iff_of_true ?_ fun k hk he => ?_
      · obtain ⟨r, hr⟩ | ⟨v, hv⟩ := o.target_of_noSum m hp h7 h6
        · exact hr ▸ inRange_busAddr r
        · exact hv ▸ inRange_setWidth v
      · cases k with
        | relative => exact absurd he h7
        | indexed => exact absurd he h6
        | deferred => exact absurd rfl hk

/-- A missing mode forms no sum. -/
theorem Specifier.sumFits_of_missing {o : Specifier} (m : Machine) (hp : o.present = false) :
    o.SumFits m := by
  rintro k - rfl
  cases k <;> cases hp

/-- A latch that is loaded when `used` holds, from a state where it is in range. -/
theorem inRange_latch_iff {used : Prop} [Decidable used] {o : Specifier} {m : Machine} {a : Addr}
    (ha : InRange a) :
    InRange (if used ∧ o.present = true then o.target m else a) ↔ (used → o.SumFits m) := by
  by_cases hu : used
  · by_cases hp : o.present = true
    · rw [if_pos ⟨hu, hp⟩, o.inRange_target_iff m hp]
      simp [hu]
    · rw [if_neg fun h => hp h.2]
      exact iff_of_true ha fun _ => o.sumFits_of_missing m (Bool.eq_false_iff.mpr hp)
  · rw [if_neg fun h => hu h.1]
    exact iff_of_true ha fun h => absurd h hu

/-! ### Runs -/

/-- The sums formed by the instruction in `ir` do not carry. -/
def SumsFit (n : Machine) : Prop :=
  ((decode n.ir).group = .double → (Specifier.src n.ir).SumFits n) ∧
    ((decode n.ir).usesDest = true →
      (Specifier.dest n.ir).SumFits ((decode n.ir).afterSource n))

/-- An instruction keeps the latches in range exactly when its sums do not carry. -/
theorem latchesInRange_execInstruction_iff {n : Machine} (h : LatchesInRange n) :
    LatchesInRange (execInstruction n) ↔ SumsFit n := by
  obtain ⟨hsrc, hdest⟩ := execInstruction_latches n
  have hs := congrArg InRange hsrc
  have hd := congrArg InRange hdest
  rw [eq_iff_iff, inRange_latch_iff h.src] at hs
  rw [eq_iff_iff, inRange_latch_iff h.dest] at hd
  exact ⟨fun hm => ⟨hs.mp hm.src, hd.mp hm.dest⟩, fun hm => ⟨hs.mpr hm.1, hd.mpr hm.2⟩⟩

theorem latchesInRange_iteration_iff {m : Machine} (h : LatchesInRange m) :
    LatchesInRange (iteration m) ↔ SumsFit (fetchInstruction m) :=
  latchesInRange_execInstruction_iff ⟨h.src, h.dest⟩

theorem latchesInRange_execute_iff (n : ℕ) {m : Machine} (h : LatchesInRange m) :
    (∀ i ≤ n, LatchesInRange (execute i m)) ↔
      ∀ i < n, (execute i m).halted = false → SumsFit (fetchInstruction (execute i m)) := by
  induction n with
  | zero =>
    refine iff_of_true (fun i hi => ?_) nofun
    rwa [Nat.le_zero.mp hi]
  | succ n ih =>
    constructor
    · -- A step that runs keeps the range only if its sums fit.
      intro hrange i hi hrun
      have hnext := hrange (i + 1) hi
      rw [execute_succ, if_neg (by simp [hrun])] at hnext
      exact (latchesInRange_iteration_iff (hrange i (by omega))).mp hnext
    · intro hfit
      have hrange := ih.mpr fun i hi => hfit i (by omega)
      intro i hi
      obtain hlt | rfl := Nat.lt_or_eq_of_le hi
      · exact hrange i (by omega)
      · -- The last step: a halted machine stays as it is.
        rw [execute_succ]
        by_cases hrun : (execute n m).halted = true
        · rw [if_pos hrun]
          exact hrange n le_rfl
        · rw [if_neg hrun]
          refine (latchesInRange_iteration_iff (hrange n le_rfl)).mpr ?_
          exact hfit n (by omega) (by simpa using hrun)

/-- **Operand addresses of 16 bits.**  A mode finds the operand at the sum
    modulo 2^16 exactly under its condition; the latches of a run stay in range
    exactly as long as no sum formed carries. -/
theorem operandAddresses_wrap_iff (k : SumMode) (loc : Loc) (b : Bool) (m : Machine)
    (st : ByteStore Addr) (p : Word) (n : ℕ) :
    ((address loc b k.specifier m).loc loc = k.operand m ↔ k.Holds m) ∧
      ((∀ i ≤ n, LatchesInRange (execute i (start st p))) ↔
        ∀ i < n, (execute i (start st p)).halted = false →
          SumsFit (fetchInstruction (execute i (start st p)))) := by
  refine ⟨SumMode.yields_iff k loc b m, latchesInRange_execute_iff n ?_⟩
  exact ⟨inRange_setWidth 0, inRange_setWidth 0⟩

/-- `TST 0` assembled at address 0, in relative mode: the operand word is -4. -/
def backwardReference : ByteStore Addr :=
  ByteStore.writeWord (ByteStore.writeWord (fun _ => 0) 0 0o005767) 2 0o177774

/-- It latches 0200000 and not 0. -/
theorem backwardReference_carries :
    ¬ ((∀ (k : SumMode) (loc : Loc) (b : Bool) (m : Machine),
        (address loc b k.specifier m).loc loc = k.operand m) ∧
      ∀ (st : ByteStore Addr) (p : Word) (n : ℕ), LatchesInRange (execute n (start st p))) := by
  rintro ⟨-, hrange⟩
  have hlatch : ¬ InRange (execute 1 (start backwardReference 0)).destAddress := by decide
  exact hlatch (hrange backwardReference 0 1).dest

end XMachine.Cpu
