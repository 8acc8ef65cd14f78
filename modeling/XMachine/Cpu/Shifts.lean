import XMachine.Cpu.Flags
import XMachine.Lib.Rotation
import Mathlib.Algebra.Group.End
import Mathlib.Algebra.Ring.Int.Defs

namespace XMachine.Cpu

open XMachine.Lib

/-!
# CPU — shifts and rotates

* `shift_iff` — `ASR` shifts a zero in and not the sign; `ROL` rotates to the
  right and `ROR` to the left, both without C.  Each is the PDP-11's exactly on
  the operands where that makes no difference;
* `RotateRun.restores` — the two rotates undo each other all the same.

Words and bytes are treated alike: `cut` is the part of a word that the
instruction works on.
-/

/-! ### The instructions -/

inductive Shift
  | asl | asr | rol | ror
  deriving DecidableEq, Repr

/-- The shift an instruction stands for, and whether it is of a byte. -/
def Op.shift : Op → Option (Shift × Bool)
  | .ASL => some (.asl, false) | .ASLB => some (.asl, true)
  | .ASR => some (.asr, false) | .ASRB => some (.asr, true)
  | .ROL => some (.rol, false) | .ROLB => some (.rol, true)
  | .ROR => some (.ror, false) | .RORB => some (.ror, true)
  | _ => none

/-- The bits of an operand. -/
def width (isByte : Bool) : ℕ := if isByte then 8 else 16

/-- The operand in a word. -/
def cut (isByte : Bool) (v : Word) : BitVec (width isByte) := v.setWidth (width isByte)

theorem cut_word (v : Word) : cut false v = v := BitVec.setWidth_eq v

namespace Shift

variable {w : ℕ}

/-- What the PDP-11 makes of C and the operand. -/
def Correct (k : Shift) (c : Bool) (x : BitVec w) (c' : Bool) (x' : BitVec w) : Prop :=
  match k with
  | .asl => x' = 2 * x
  | .asr => x' = x.sshiftRight 1
  | .rol => RotatesLeft c x c' x'
  | .ror => RotatesRight c x c' x'

/-- What the code makes of the operand. -/
def result (k : Shift) (x : BitVec w) : BitVec w :=
  match k with
  | .asl => x <<< 1
  | .asr => x >>> 1
  | .rol => x.rotateRight 1
  | .ror => x.rotateLeft 1

/-- When the two agree. -/
def Holds (k : Shift) (c : Bool) (x : BitVec w) : Prop :=
  match k with
  | .asl => True
  | .asr => x.msb = false
  | .rol => c = x.getLsbD (w - 1) ∧ Alternating x
  | .ror => c = x.getLsbD 0 ∧ Alternating x

theorem correct_result_iff (hw : 1 < w) (heven : w % 2 = 0) (k : Shift) (c : Bool) (x : BitVec w) :
    k.Correct c x c (k.result x) ↔ k.Holds c x := by
  cases k with
  | asl =>
    refine iff_of_true ?_ trivial
    have hsum : x <<< 1 = x + x := by
      apply BitVec.eq_of_toNat_eq
      rw [BitVec.toNat_shiftLeft, BitVec.toNat_add, Nat.shiftLeft_eq, Nat.pow_one, Nat.mul_two]
    exact hsum.trans BitVec.two_mul.symm
  | asr =>
    show x >>> 1 = x.sshiftRight 1 ↔ x.msb = false
    constructor
    · -- The highest bit of the two results is zero and the sign.
      intro h
      have hmsb := congrArg BitVec.msb h
      rw [BitVec.msb_sshiftRight, BitVec.msb_ushiftRight] at hmsb
      simpa using hmsb.symm
    · intro h
      rw [BitVec.sshiftRight_eq_of_msb_false h]
  | rol => exact rotatesLeft_rotateRight_iff hw heven c x
  | ror => exact rotatesRight_rotateLeft_iff hw heven c x

end Shift

/-- A byte shift, byte by byte. -/
theorem lowByte_shift (b : Byte) :
    lowByte (Op.ASLB.value 0 0 (b.setWidth 16)) = b <<< 1 ∧
      lowByte (Op.ASRB.value 0 0 (b.setWidth 16)) = b >>> 1 ∧
      lowByte (Op.ROLB.value 0 0 (b.setWidth 16)) = b.rotateRight 1 ∧
      lowByte (Op.RORB.value 0 0 (b.setWidth 16)) = b.rotateLeft 1 := by
  revert b
  decide +kernel

/-- The values of the shift handlers. -/
theorem Op.cut_value {op : Op} {k : Shift} {b : Bool} (h : op.shift = some (k, b)) (p s d : Word) :
    cut b (op.value p s d) = k.result (cut b d) := by
  obtain ⟨hasl, hasr, hrol, hror⟩ := lowByte_shift (lowByte d)
  -- A byte handler is its word handler on the low byte, checked byte by byte.
  cases op <;> simp only [Op.shift, Option.some.injEq, Prod.mk.injEq, reduceCtorEq] at h <;>
    obtain ⟨rfl, rfl⟩ := h
  case ASL | ASR | ROR =>
    rw [cut_word, cut_word]
    rfl
  case ROL =>
    rw [cut_word, cut_word]
    exact BitVec.or_comm (d <<< 15) (d >>> 1)
  case ASLB =>
    rw [Op.value_bytes rfl]
    exact hasl
  case ASRB =>
    rw [Op.value_bytes rfl]
    exact hasr
  case ROLB =>
    rw [Op.value_bytes rfl]
    exact hrol
  case RORB =>
    rw [Op.value_bytes rfl]
    exact hror

theorem Op.shift_tables {op : Op} {k : Shift} {b : Bool} (h : op.shift = some (k, b)) :
    op.isOperand = true ∧ op.aluStore ≠ .psw ∧ op.flagUpdate ≠ .none ∧
      (op.aluStore = .word ∨ op.aluStore = .byte ∧ b = true) := by
  cases op <;> simp only [Op.shift, Option.some.injEq, Prod.mk.injEq, reduceCtorEq] at h <;>
    obtain ⟨rfl, rfl⟩ := h <;> decide

/-! ### One instruction -/

/-- What a shift instruction leaves of C and of its operand, which `n` holds
    once it is addressed. -/
structure Shifted (k : Shift) (isByte : Bool) (n m' : Machine) : Prop where
  dest : m'.destAddress = n.destAddress
  operand : cut isByte (fetchData m' n.destAddress)
    = k.result (cut isByte (fetchData n n.destAddress))
  carry : m'.psw.getLsbD 0 = n.psw.getLsbD 0

theorem executeWord_shifted {w : Word} {k : Shift} {b : Bool} (h : (decode w).shift = some (k, b))
    {m : Machine} (hd : m.destAddress ≠ Reg.psw.busAddr) :
    Shifted k b ((decode w).setUp (fetched w m)) (executeWord w m) := by
  obtain ⟨hop, hst, hfl, hstore⟩ := Op.shift_tables h
  have hlatch := (decode w).setUp_destAddress_ne_psw (fetched w m) hd
  rw [executeWord, execInstruction_operand (m := fetched w m) hop, fetched_ir]
  have hvalue (n : Machine) := Op.cut_value h n.psw (fetchData n n.srcAddress)
    (fetchData n n.destAddress)
  generalize decode w = op at *
  generalize op.setUp (fetched w m) = n at *
  refine ⟨by simp, ?_, ?_⟩
  · rw [← hvalue n]
    rcases hstore with hword | ⟨hbyte, rfl⟩
    · exact congrArg (cut b) (Op.finish_fetch_word (n := n.setAlu (op.result n)) hword hlatch)
    · exact Op.finish_fetch_byte (n := n.setAlu (op.result n)) hbyte hlatch
  · -- No shift writes C.
    rw [Op.finish_psw hst (n := n.setAlu (op.result n)) hlatch, FlagUpdate.getLsbD_psw hfl,
      if_neg (by decide), if_neg (by decide)]
    rfl

/-- If `w` is a shift, it does what the PDP-11's does to C and the operand. -/
def ShiftCorrect (w : Word) (m : Machine) : Prop :=
  ∀ k b, (decode w).shift = some (k, b) →
    let n := (decode w).setUp (fetched w m)
    let m' := executeWord w m
    k.Correct (n.psw.getLsbD 0) (cut b (fetchData n n.destAddress)) (m'.psw.getLsbD 0)
      (cut b (fetchData m' m'.destAddress))

/-- If `w` is a shift, C and the operand are ones on which the code has it right:
    any for `ASL`; an operand without a sign for `ASR`; for the rotates one whose
    bits alternate, with C its highest (`ROL`) or lowest (`ROR`) bit. -/
def ShiftHolds (w : Word) (m : Machine) : Prop :=
  ∀ k b, (decode w).shift = some (k, b) →
    let n := (decode w).setUp (fetched w m)
    k.Holds (n.psw.getLsbD 0) (cut b (fetchData n n.destAddress))

theorem shiftCorrect_iff (m : CpuState) (w : Word) :
    ShiftCorrect w m.machine ↔ ShiftHolds w m.machine := by
  refine forall₂_congr fun k b => forall_congr' fun h => ?_
  obtain ⟨hdest, hoperand, hcarry⟩ := executeWord_shifted h m.dest_ne_psw
  have hwidth : 1 < width b ∧ width b % 2 = 0 := by cases b <;> decide
  dsimp only
  rw [hdest, hoperand, hcarry]
  exact Shift.correct_result_iff hwidth.1 hwidth.2 k _ _

/-! ### Rotating back -/

/-- The instructions one after the other. -/
def executeWords : List Word → Machine → Machine
  | [], m => m
  | w :: ws, m => executeWords ws (executeWord w m)

/-- Every instruction of the sequence finds its operand at `a`, and finds it as
    the one before it left it. -/
def OnOperand (a : Addr) : List Word → Machine → Prop
  | [], _ => True
  | w :: ws, m =>
    let n := (decode w).setUp (fetched w m)
    n.destAddress = a ∧ fetchData n a = fetchData m a ∧ OnOperand a ws (executeWord w m)

/-- A sequence of as many `ROL` as `ROR` of one operand, in any order. -/
structure RotateRun where
  isByte : Bool
  state : CpuState
  words : List Word
  operand : Addr
  rotate : ∀ w ∈ words, (decode w).shift = some (.rol, isByte) ∨
    (decode w).shift = some (.ror, isByte)
  balanced : words.countP (fun w => (decode w).shift == some (.rol, isByte))
    = words.countP (fun w => (decode w).shift == some (.ror, isByte))
  onOperand : OnOperand operand words state.machine

theorem one_lt_width (b : Bool) : 1 < width b := by cases b <;> decide

/-- The rotation an instruction makes, one place to the left for each turn. -/
def turns (b : Bool) (op : Op) : ℤ := if op.shift = some (.rol, b) then -1 else 1

theorem result_eq_turns {op : Op} {b : Bool}
    (h : op.shift = some (.rol, b) ∨ op.shift = some (.ror, b)) :
    ∃ k, op.shift = some (k, b) ∧
      ∀ x, k.result x = (rotation (one_lt_width b) ^ turns b op) x := by
  rcases h with h | h
  · refine ⟨.rol, h, fun x => ?_⟩
    rw [turns, if_pos h, zpow_neg_one]
    rfl
  · refine ⟨.ror, h, fun x => ?_⟩
    rw [turns, if_neg (by rw [h]; simp), zpow_one]
    rfl

/-- A sequence of rotates turns its operand by the sum of their turns. -/
theorem executeWords_turns (b : Bool) (a : Addr) (ws : List Word) {m : Machine}
    (hd : m.destAddress ≠ Reg.psw.busAddr)
    (hws : ∀ w ∈ ws, (decode w).shift = some (.rol, b) ∨ (decode w).shift = some (.ror, b))
    (hon : OnOperand a ws m) :
    cut b (fetchData (executeWords ws m) a)
        = (rotation (one_lt_width b) ^ (ws.map fun w => turns b (decode w)).sum)
          (cut b (fetchData m a)) ∧
      (executeWords ws m).psw.getLsbD 0 = m.psw.getLsbD 0 := by
  induction ws generalizing m with
  | nil => exact ⟨rfl, rfl⟩
  | cons w ws ih =>
    obtain ⟨hdest, hsame, hrest⟩ := hon
    obtain ⟨k, hk, hresult⟩ := result_eq_turns (hws w List.mem_cons_self)
    -- The first instruction, then the others.
    obtain ⟨-, hoperand, hcarry⟩ := executeWord_shifted hk hd
    rw [hdest, hsame, hresult] at hoperand
    rw [Op.setUp_psw, fetched_psw] at hcarry
    obtain ⟨hvalue, hpsw⟩ := ih (m := executeWord w m)
      (execInstruction_destAddress_ne_psw (m := fetched w m) hd)
      (fun w' hw' => hws w' (List.mem_cons_of_mem w hw')) hrest
    refine ⟨?_, hpsw.trans hcarry⟩
    rw [executeWords, hvalue, hoperand, ← Equiv.Perm.mul_apply, ← zpow_add, List.map_cons,
      List.sum_cons, add_comm]

theorem sum_turns (b : Bool) (ws : List Word)
    (hws : ∀ w ∈ ws, (decode w).shift = some (.rol, b) ∨ (decode w).shift = some (.ror, b)) :
    (ws.map fun w => turns b (decode w)).sum =
      (ws.countP fun w => (decode w).shift == some (.ror, b) : ℤ)
        - ws.countP fun w => (decode w).shift == some (.rol, b) := by
  induction ws with
  | nil => rfl
  | cons w ws ih =>
    have hrest := ih fun w' hw' => hws w' (List.mem_cons_of_mem w hw')
    rw [List.map_cons, List.sum_cons, hrest, List.countP_cons, List.countP_cons, turns]
    rcases hws w List.mem_cons_self with h | h
    · simp [h]
      omega
    · simp [h]
      omega

/-- **The rotates undo each other.** -/
theorem RotateRun.restores (q : RotateRun) :
    cut q.isByte (fetchData (executeWords q.words q.state.machine) q.operand)
        = cut q.isByte (fetchData q.state.machine q.operand) ∧
      (executeWords q.words q.state.machine).psw.getLsbD 0 = q.state.machine.psw.getLsbD 0 := by
  obtain ⟨hvalue, hcarry⟩ := executeWords_turns q.isByte q.operand q.words q.state.dest_ne_psw
    q.rotate q.onOperand
  have hsum := sum_turns q.isByte q.words q.rotate
  -- As many turns to the left as to the right.
  rw [q.balanced, sub_self] at hsum
  refine ⟨?_, hcarry⟩
  rw [hvalue, hsum, zpow_zero, Equiv.Perm.one_apply]

/-- Single-operand instructions on a register all find their operand there. -/
theorem onOperand_register (j : Fin 6) (ops : List Op) (hops : ∀ op ∈ ops, op.group = .single)
    (m : Machine) : OnOperand (Reg.general j).busAddr
      (ops.map fun op => op.singleWord (.register j)) m := by
  induction ops generalizing m with
  | nil => trivial
  | cons op ops ih =>
    have hg := hops op List.mem_cons_self
    have hsetUp : (decode (op.singleWord (.register j))).setUp
        (fetched (op.singleWord (.register j)) m) =
          (fetched (op.singleWord (.register j)) m).setLoc .dest (Reg.general j).busAddr := by
      rw [decode_singleWord hg, Op.setUp_eq, Op.afterSource_eq, if_neg (by rw [hg]; decide),
        fetched_ir, dest_singleWord hg, address_register]
    refine ⟨?_, ?_, ih (fun op' hop' => hops op' (List.mem_cons_of_mem op hop')) _⟩
    · rw [hsetUp]
      rfl
    · rw [hsetUp, fetchData_setLoc, fetchData_busAddr, fetchData_busAddr,
        fetched_regs_of_ne _ _ (Reg.general_ne_pc j)]

/-- `n` times `ROL Rj` and `n` times `ROR Rj`. -/
def RotateRun.inRegister (m : CpuState) (j : Fin 6) (n : ℕ) : RotateRun where
  isByte := false
  state := m
  words := (List.replicate n Op.ROL ++ List.replicate n Op.ROR).map
    fun op => op.singleWord (.register j)
  operand := (Reg.general j).busAddr
  rotate w hw := by
    obtain ⟨op, hop, rfl⟩ := List.mem_map.mp hw
    rcases List.mem_append.mp hop with h | h
    · obtain rfl := List.eq_of_mem_replicate h
      rw [decode_singleWord rfl]
      exact .inl rfl
    · obtain rfl := List.eq_of_mem_replicate h
      rw [decode_singleWord rfl]
      exact .inr rfl
  balanced := by
    have hrol : decode (Op.ROL.singleWord (.register j)) = .ROL := decode_singleWord rfl _
    have hror : decode (Op.ROR.singleWord (.register j)) = .ROR := decode_singleWord rfl _
    simp [List.countP_replicate, hrol, hror, Op.shift]
  onOperand := by
    refine onOperand_register j _ (fun op hop => ?_) m.machine
    rcases List.mem_append.mp hop with h | h
    · obtain rfl := List.eq_of_mem_replicate h
      rfl
    · obtain rfl := List.eq_of_mem_replicate h
      rfl

/-- As often to one side as to the other leaves the register and C as they were. -/
theorem RotateRun.inRegister_restores (m : CpuState) (j : Fin 6) (n : ℕ) :
    let m' := executeWords (RotateRun.inRegister m j n).words m.machine
    m'.regs (.general j) = m.machine.regs (.general j) ∧
      m'.psw.getLsbD 0 = m.machine.psw.getLsbD 0 := by
  obtain ⟨hvalue, hcarry⟩ := (RotateRun.inRegister m j n).restores
  refine ⟨?_, hcarry⟩
  change cut false (fetchData _ (Reg.general j).busAddr) =
    cut false (fetchData m.machine (Reg.general j).busAddr) at hvalue
  rwa [cut_word, cut_word, fetchData_busAddr, fetchData_busAddr] at hvalue

/-- **When the shifts are the PDP-11's, and that the rotates undo each other always.** -/
theorem shift_iff (m : CpuState) (w : Word) (q : RotateRun) :
    (ShiftCorrect w m.machine ↔ ShiftHolds w m.machine) ∧
      cut q.isByte (fetchData (executeWords q.words q.state.machine) q.operand)
          = cut q.isByte (fetchData q.state.machine q.operand) ∧
        (executeWords q.words q.state.machine).psw.getLsbD 0 = q.state.machine.psw.getLsbD 0 :=
  ⟨shiftCorrect_iff m w, q.restores⟩

/-- `ROL R0` makes 0100000 of it, not 2. -/
theorem shift_rol_wrong : ¬ ((∀ (m : CpuState) (w : Word), ShiftCorrect w m.machine) ∧
    ∀ q : RotateRun,
      cut q.isByte (fetchData (executeWords q.words q.state.machine) q.operand)
          = cut q.isByte (fetchData q.state.machine q.operand) ∧
        (executeWords q.words q.state.machine).psw.getLsbD 0
          = q.state.machine.psw.getLsbD 0) := by
  rintro ⟨hshift, -⟩
  have hrol := hshift (inR0 1) 0o006100 .rol false (by decide)
  dsimp only [Shift.Correct, RotatesLeft] at hrol
  exact absurd hrol (by decide)

end XMachine.Cpu
