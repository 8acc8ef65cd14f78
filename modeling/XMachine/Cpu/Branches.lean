import XMachine.Cpu.Flags
import XMachine.Lib.WordArith

namespace XMachine.Cpu

open XMachine.Lib

/-!
# CPU — branches

* `branch_execute` — each branch is taken on its condition, goes where its
  offset says and changes nothing but `alu`;
* `compare_iff` — `CMP` and a branch together.  `CMP` subtracts the source from
  the destination and leaves V and C as an earlier instruction set them, so the
  ordered branches decide the comparison only for some of those.
-/

/-! ### Conditions -/

/-- The PDP-11 condition of a branch, on the N, Z, V and C of a PSW. -/
def Op.condition (op : Op) (p : Word) : Bool :=
  let n := p.getLsbD 3
  let z := p.getLsbD 2
  let v := p.getLsbD 1
  let c := p.getLsbD 0
  match op with
  | .BNE => !z
  | .BEQ => z
  | .BPL => !n
  | .BMI => n
  | .BVC => !v
  | .BVS => v
  | .BCC => !c
  | .BCS => c
  | .BGE => !(n ^^ v)
  | .BLT => n ^^ v
  | .BGT => !(z || (n ^^ v))
  | .BLE => z || (n ^^ v)
  | .BHI => !(c || z)
  | .BLOS => c || z
  | _ => true

/-- The branch on the opposite condition. -/
def Op.opposite : Op → Option Op
  | .BNE => some .BEQ | .BEQ => some .BNE | .BPL => some .BMI | .BMI => some .BPL
  | .BVC => some .BVS | .BVS => some .BVC | .BCC => some .BCS | .BCS => some .BCC
  | .BGE => some .BLT | .BLT => some .BGE | .BGT => some .BLE | .BLE => some .BGT
  | .BHI => some .BLOS | .BLOS => some .BHI
  | _ => none

/-- A branch executed in `m`: `m'` is the state after it. -/
structure Branches (op : Op) (offset : Byte) (m m' : Machine) : Prop where
  pc : m'.pc = if op.condition m.psw then m.pc + 2 + 2 * offset.signExtend 16 else m.pc + 2
  regs : ∀ r, r ≠ .pc → m'.regs r = m.regs r
  mem : m'.mem = m.mem
  latches : ∀ l, m'.loc l = m.loc l
  halted : m'.halted = m.halted

/-- The four flags as the handlers cut them out of PSW. -/
theorem and_flag (p : Word) (i : ℕ) :
    p &&& BitVec.twoPow 16 i = if p.getLsbD i then BitVec.twoPow 16 i else 0 :=
  BitVec.and_twoPow p i

/-- Every conditional handler is `branch` with a test that is its condition. -/
theorem branch_condition {op : Op} (hg : op.group = .branch) (hop : op ≠ .BR) :
    ∃ f taken, handler op = branch f taken ∧ ∀ p, taken (f p) = op.condition p := by
  have hc (p : Word) : p &&& CARRYFLAG = if p.getLsbD 0 then CARRYFLAG else 0 := and_flag p 0
  have hv (p : Word) : p &&& OVERFLOWFLAG = if p.getLsbD 1 then OVERFLOWFLAG else 0 := and_flag p 1
  have hz (p : Word) : p &&& ZEROFLAG = if p.getLsbD 2 then ZEROFLAG else 0 := and_flag p 2
  have hn (p : Word) : p &&& NEGATIVEFLAG = if p.getLsbD 3 then NEGATIVEFLAG else 0 := and_flag p 3
  -- Each test is a function of four bits: sixteen cases for every branch.
  cases op
  all_goals
    first
    | exact absurd hg (by decide)
    | exact absurd rfl hop
    | simp only [handler, BNE, BEQ, BGE, BLT, BGT, BLE, BPL, BMI, BHI, BLOS, BVC, BVS, BCC, BCS]
      refine ⟨_, _, rfl, fun p => ?_⟩
      simp only [hc, hv, hz, hn, Op.condition]
      generalize p.getLsbD 0 = c, p.getLsbD 1 = v, p.getLsbD 2 = z, p.getLsbD 3 = n
      revert c v z n
      decide

/-! ### What a branch does -/

theorem takeBranch_branches {op : Op} {offset : Byte} {w : Word} {m n : Machine}
    (hw : w.setWidth 8 = offset) (hn : n.ir = w) (hpc : n.pc = m.pc + 2)
    (hregs : ∀ r, r ≠ .pc → n.regs r = m.regs r) (hmem : n.mem = m.mem)
    (hloc : ∀ l, n.loc l = m.loc l) (hhalt : n.halted = m.halted)
    (hcond : op.condition m.psw = true) : Branches op offset m (takeBranch n) where
  pc := by simp [takeBranch, getBranchOffset, hn, hw, hpc, hcond, Machine.pc]
  regs r hr := by simp [takeBranch, hr, hregs r hr]
  mem := hmem
  latches l := by simp [takeBranch, hloc]
  halted := hhalt

/-- The handler of a branch, run on its word. -/
theorem executeWord_branch {op : Op} (hg : op.group = .branch) (offset : Byte) (m : Machine) :
    Branches op offset m (executeWord (op.branchWord offset) m) := by
  have hw := offset_branchWord hg offset
  rw [executeWord, execInstruction, fetched_ir, decode_branchWord hg]
  generalize op.branchWord offset = w at hw
  have hregs (r : Reg) (hr : r ≠ .pc) := fetched_regs_of_ne w m hr
  by_cases hop : op = .BR
  · -- `BR` has no test.
    subst hop
    exact takeBranch_branches hw rfl (fetched_pc w m) hregs rfl (fun l => by cases l <;> rfl) rfl
      rfl
  · obtain ⟨f, taken, hf, htaken⟩ := branch_condition hg hop
    rw [hf, branch_eq, htaken, fetched_psw]
    by_cases hcond : op.condition m.psw = true
    · rw [if_pos hcond]
      exact takeBranch_branches hw rfl (fetched_pc w m) hregs rfl (fun l => by cases l <;> rfl) rfl
        hcond
    · rw [if_neg hcond]
      refine ⟨?_, hregs, rfl, fun l => by cases l <;> rfl, rfl⟩
      rw [if_neg hcond]
      exact fetched_pc w m

/-- **Branches implement the PDP-11 conditions and targets**, and of a branch
    and its opposite exactly one is taken. -/
theorem branch_execute {op : Op} (hg : op.group = .branch) (offset : Byte) (m : Machine) :
    Branches op offset m (executeWord (op.branchWord offset) m) ∧
      ∀ op', op.opposite = some op' → op'.condition m.psw = !op.condition m.psw := by
  refine ⟨executeWord_branch hg offset m, fun op' hop' => ?_⟩
  cases op <;> simp only [Op.opposite, Option.some.injEq, reduceCtorEq] at hop' <;> subst hop' <;>
    simp [Op.condition]

/-- PC at 01000, N up. -/
def negativeAt : Machine := ((initCpu fun _ => 0).setReg .pc 0o1000).setReg .psw NEGATIVEFLAG

/-- `BLE .-4`, which is taken. -/
theorem branch_execute_ble :
    Branches .BLE 0o375 negativeAt (executeWord 0o003775 negativeAt) ∧
      ∀ op', Op.BLE.opposite = some op' →
        op'.condition negativeAt.psw = !Op.BLE.condition negativeAt.psw :=
  branch_execute (show Op.BLE.group = .branch from rfl) 0o375 negativeAt

/-! ### Compare and branch -/

/-- The relation of the source `a` and the destination `b` of a `CMP` that the
    branch after it stands for. -/
def Op.relation (op : Op) (a b : Word) : Bool :=
  match op with
  | .BEQ => a == b
  | .BNE => a != b
  | .BLT => a.slt b
  | .BLE => a.sle b
  | .BGT => b.slt a
  | .BGE => b.sle a
  | .BHI => b.ult a
  | .BLOS => a.ule b
  | .BCC => b.ule a
  | .BCS => a.ult b
  | _ => true

/-- The branches that decide a comparison. -/
def Op.isComparison : Op → Bool
  | .BEQ | .BNE | .BLT | .BLE | .BGT | .BGE | .BHI | .BLOS | .BCC | .BCS => true
  | _ => false

/-- `CMP Ri, Rj` and the branch take it exactly on the relation, whatever the offset. -/
def Compares (op : Op) (i j : Fin 6) (m : Machine) : Prop :=
  let m1 := executeWord (Op.CMP.doubleWord (.register i) (.register j)) m
  ∀ offset : Byte, (executeWord (op.branchWord offset) m1).pc =
    if op.relation (m.regs (.general i)) (m.regs (.general j)) then
      m.pc + 4 + 2 * offset.signExtend 16
    else m.pc + 4

/-- When they do, from the V and C left by earlier instructions.  `CMP` sets N
    from `b - a`: for unequal operands V has to be set exactly when that does not
    overflow, C exactly when `a` is below `b`. -/
def Op.CompareHolds (op : Op) (p a b : Word) : Prop :=
  match op with
  | .BLT | .BGE => p.getLsbD 1 = (a != b && !BitVec.ssubOverflow b a)
  | .BLE | .BGT => a = b ∨ p.getLsbD 1 = !BitVec.ssubOverflow b a
  | .BHI | .BLOS => a = b ∨ p.getLsbD 0 = a.ult b
  | .BCC | .BCS => p.getLsbD 0 = a.ult b
  | _ => True

/-- What `CMP` does to PSW: N and Z from `b - a`, V and C as they were. -/
theorem cmp_psw (p v : Word) : (Op.CMP.flagUpdate.psw p v).getLsbD 2 = (v == 0) ∧
    (Op.CMP.flagUpdate.psw p v).getLsbD 3 = v.msb ∧
    (Op.CMP.flagUpdate.psw p v).getLsbD 1 = p.getLsbD 1 ∧
    (Op.CMP.flagUpdate.psw p v).getLsbD 0 = p.getLsbD 0 := by
  have hbit (j : ℕ) := FlagUpdate.getLsbD_psw (f := Op.CMP.flagUpdate) (by decide) p v j
  exact ⟨hbit 2, hbit 3, hbit 1, hbit 0⟩

/-- Two branch targets differ for some offset. -/
theorem forall_offset_iff (x : Word) (p q : Bool) :
    (∀ offset : Byte, (if p then x + 2 * offset.signExtend 16 else x)
      = if q then x + 2 * offset.signExtend 16 else x) ↔ p = q := by
  constructor
  · intro h
    -- The offset 1 moves PC by two.
    have hne : x + 2 * (1 : Byte).signExtend 16 ≠ x := by
      have hstep : (2 * (1 : Byte).signExtend 16 : Word) = 2 := by decide
      rw [hstep]
      bv_omega
    have h1 := h 1
    cases p <;> cases q
    · rfl
    · exact absurd h1.symm hne
    · exact absurd h1 hne
    · rfl
  · rintro rfl offset
    rfl

/-- The condition on the flags of `b - a` and the relation. -/
theorem condition_eq_relation_iff {op : Op} (hop : op.isComparison = true) (p a b : Word) :
    op.condition (Op.CMP.flagUpdate.psw p (b - a)) = op.relation a b ↔ op.CompareHolds p a b := by
  obtain ⟨hz, hn, hv, hc⟩ := cmp_psw p (b - a)
  -- Everything in terms of equality, the two flags, the sign, the overflow and the borrow.
  have hzero : (b - a == 0) = (a == b) := by
    rw [Bool.eq_iff_iff, beq_iff_eq, beq_iff_eq]
    constructor <;> intro h <;> bv_omega
  have hgt : b.slt a = ((b - a).msb != BitVec.ssubOverflow b a) := slt_eq_msb_sub b a
  have hge : b.sle a = (b.slt a || a == b) := by
    rw [BitVec.sle_eq_slt_or_eq, Bool.beq_comm]
  have hle : a.sle b = !b.slt a := BitVec.sle_eq_not_slt
  have hlt : a.slt b = !b.sle a := by rw [BitVec.sle_eq_not_slt, Bool.not_not]
  have hule : a.ule b = (a.ult b || a == b) := by
    rw [BitVec.ule_eq_decide, BitVec.ult_eq_decide, Bool.eq_iff_iff, Bool.or_eq_true,
      decide_eq_true_iff, decide_eq_true_iff, beq_iff_eq, ← BitVec.toNat_inj]
    omega
  have huge : b.ule a = !a.ult b := BitVec.ule_eq_not_ult b a
  have hugt : b.ult a = !a.ule b := by rw [BitVec.ule_eq_not_ult, Bool.not_not]
  -- Equal operands leave no flag set.
  have heq : a = b → (b - a).msb = false ∧ BitVec.ssubOverflow b a = false ∧ a.ult b = false := by
    rintro rfl
    have ho : BitVec.ssubOverflow a a = false := by simp [BitVec.ssubOverflow]
    exact ⟨by simp, ho, by simp [BitVec.ult_eq_decide]⟩
  have hiff : a = b ↔ (a == b) = true := beq_iff_eq.symm
  rw [hiff] at heq
  cases op
  case BEQ | BNE | BCS => simp only [Op.condition, Op.relation, Op.CompareHolds, hz, hc, hzero, bne]
  case BLT | BLE | BGT | BGE | BHI | BLOS | BCC =>
    simp only [Op.condition, Op.relation, Op.CompareHolds, hz, hn, hv, hc, hzero, hugt, hule, huge,
      hlt, hle, hge, hgt, hiff, bne]
    generalize p.getLsbD 0 = c, p.getLsbD 1 = v, (a == b) = e, (b - a).msb = n,
      BitVec.ssubOverflow b a = o, a.ult b = u at heq ⊢
    revert c v e n o u
    decide
  all_goals exact absurd hop (by decide)

/-- **When `CMP` and a branch decide a comparison.** -/
theorem compare_iff {op : Op} (hop : op.isComparison = true) (i j : Fin 6) (m : Machine) :
    Compares op i j m ↔ op.CompareHolds m.psw (m.regs (.general i)) (m.regs (.general j)) := by
  have hg : op.group = .branch := by
    cases op <;> first | rfl | exact absurd hop (by decide)
  have hcmp := executeWord_double (show Op.CMP.isOperand = true from rfl) rfl (by decide) i j m
  rw [← condition_eq_relation_iff hop, ← forall_offset_iff (m.pc + 4), Compares]
  have hpc4 : m.pc + 2 + 2 = m.pc + 4 := by rw [BitVec.add_assoc]; rfl
  refine forall_congr' fun offset => ?_
  rw [(executeWord_branch hg offset _).pc, hcmp.psw, hcmp.pc, hpc4]
  rfl

/-- 5 in R0 and -3 in R1, V up. -/
def fiveAndMinusThree : Machine :=
  (((initCpu fun _ => 0).setReg .r0 5).setReg .r1 0o177775).setReg .psw OVERFLOWFLAG

/-- `CMP R0, R1` and `BLT`. -/
theorem compare_iff_blt :
    Compares .BLT 0 1 fiveAndMinusThree ↔ Op.CompareHolds .BLT OVERFLOWFLAG 5 0o177775 :=
  compare_iff (show Op.BLT.isComparison = true from rfl) 0 1 fiveAndMinusThree

/-- R1 holding 1, the rest 0. -/
def oneInR1 : Machine := (initCpu fun _ => 0).setReg .r1 1

/-- `CMP R0, R1` compares 0 with 1, and `BLT` is not taken. -/
theorem compare_blt_wrong : ¬ ∀ (op : Op), op.isComparison = true → ∀ (i j : Fin 6), i ≠ j →
    ∀ m : Machine, Compares op i j m := by
  intro h
  have hblt := h .BLT rfl 0 1 (by decide) oneInR1 1
  exact absurd hblt (by decide)

end XMachine.Cpu
