import XMachine.Cpu.LatchRange

namespace XMachine.Cpu

open XMachine.Lib

/-!
# CPU — N and Z after an operand instruction

Word instructions set both flags from the 16 bits of `alu` and leave the rest
of PSW alone (`wordFlags_execute`).  Byte instructions take N from bit 7 but
test all 16 bits of `alu` for zero, so Z is wrong where the operation spills
into the high half (`byteFlags_iff`).

PSW itself is no operand.  No addressing mode yields its bus address, so no run
ever latches it; `CpuState` keeps that fact with the state.
-/

/-! ### PSW is no operand -/

theorem execInstruction_destAddress_ne_psw {m : Machine} (h : m.destAddress ≠ Reg.psw.busAddr) :
    (execInstruction m).destAddress ≠ Reg.psw.busAddr := by
  rw [(execInstruction_latches m).2]
  split
  · exact Specifier.target_ne_pswBusAddr _ _
  · exact h

theorem execute_destAddress_ne_psw (n : ℕ) {m : Machine} (h : m.destAddress ≠ Reg.psw.busAddr) :
    (execute n m).destAddress ≠ Reg.psw.busAddr := by
  induction n generalizing m with
  | zero => exact h
  | succ n ih =>
    rw [execute]
    split
    · exact h
    · exact ih (execInstruction_destAddress_ne_psw (m := fetchInstruction m) h)

theorem start_destAddress_ne_psw (st : ByteStore Addr) (p : Word) :
    (start st p).destAddress ≠ Reg.psw.busAddr := by
  show (0 : Addr) ≠ Reg.psw.busAddr
  decide

/-- A state of the processor.  A destination left over from an earlier
    instruction is never PSW, which no operand specifier addresses. -/
structure CpuState where
  machine : Machine
  dest_ne_psw : machine.destAddress ≠ Reg.psw.busAddr

/-- Every state of every run is one. -/
def CpuState.reached (st : ByteStore Addr) (p : Word) (n : ℕ) : CpuState where
  machine := execute n (start st p)
  dest_ne_psw := execute_destAddress_ne_psw n (start_destAddress_ne_psw st p)

/-! ### The two flags in PSW -/

/-- The sign the flag calls look at. -/
def FlagUpdate.sign (f : FlagUpdate) (alu : Word) : Bool :=
  match f with
  | .zeroNegB | .negBZero => (alu.setWidth 8).msb
  | _ => alu.msb

/-- The flag calls write bits 2 and 3 and leave the other bits of PSW alone. -/
theorem FlagUpdate.getLsbD_psw {f : FlagUpdate} (hf : f ≠ .none) (p alu : Word) (j : ℕ) :
    (f.psw p alu).getLsbD j =
      if j = 2 then alu == 0 else if j = 3 then f.sign alu else p.getLsbD j := by
  -- Whichever flag is written last, the other bit is not touched by it.
  cases f with
  | none => exact absurd rfl hf
  | zeroNegW | zeroNegB =>
    rw [FlagUpdate.psw, getLsbD_writeBit _ _ _ (by decide), getLsbD_writeBit _ _ _ (by decide)]
    grind [FlagUpdate.sign]
  | negWZero | negBZero =>
    rw [FlagUpdate.psw, getLsbD_writeBit _ _ _ (by decide), getLsbD_writeBit _ _ _ (by decide)]
    grind [FlagUpdate.sign]

/-! ### Word instructions -/

/-- The word instructions that set N and Z. -/
def Op.isWordOp : Op → Bool
  | .MOV | .CMP | .BIT | .BIC | .BIS | .ADD | .SUB | .CLR | .COM | .INC | .DEC | .NEG | .ADC
  | .SBC | .TST | .ROR | .ROL | .ASR | .ASL | .SWAB => true
  | _ => false

/-- The flags and the store of a word instruction, `m` being the state before
    `exec_instruction` and `m'` the one after. -/
structure WordFlags (op : Op) (m m' : Machine) : Prop where
  zero : m'.psw.getLsbD 2 = (m'.alu == 0)
  negative : m'.psw.getLsbD 3 = m'.alu.msb
  exclusive : (m'.psw.getLsbD 2 && m'.psw.getLsbD 3) = false
  other : ∀ j, j ≠ 2 → j ≠ 3 → m'.psw.getLsbD j = m.psw.getLsbD j
  stored : op.storesDest = true → fetchData m' m'.destAddress = m'.alu

theorem Op.wordOp_tables {op : Op} (h : op.isWordOp = true) :
    op.isOperand = true ∧ op.aluStore ≠ .psw ∧ op.flagUpdate ≠ .none ∧
      (∀ v, op.flagUpdate.sign v = v.msb) ∧ (op.storesDest = true → op.aluStore = .word) := by
  refine ⟨?_, ?_, ?_, ?_, ?_⟩ <;>
    cases op <;> first | exact absurd h (by decide) | exact fun _ => rfl | decide

/-- The flags a word instruction leaves, in any state whose latch is not PSW's. -/
theorem wordFlags_execInstruction {m : Machine} (hop : (decode m.ir).isWordOp = true)
    (hd : m.destAddress ≠ Reg.psw.busAddr) : WordFlags (decode m.ir) m (execInstruction m) := by
  obtain ⟨hoperand, hst, hfl, hsign, hstore⟩ := Op.wordOp_tables hop
  rw [execInstruction_operand hoperand]
  generalize decode m.ir = op at *
  -- The operands are addressed and the result is in `alu`.
  have hlatch := op.setUp_destAddress_ne_psw m hd
  generalize hn : (op.setUp m).setAlu (op.result (op.setUp m)) = n
  have hlatch' : n.destAddress ≠ Reg.psw.busAddr := by
    rw [← hn]
    exact hlatch
  have hpsw : (op.finish n).psw = op.flagUpdate.psw m.psw n.alu := by
    rw [Op.finish_psw hst hlatch', ← hn]
    exact congrArg (op.flagUpdate.psw · _) (op.setUp_psw m)
  have hbit (j : ℕ) := FlagUpdate.getLsbD_psw hfl m.psw n.alu j
  have hzero : (op.finish n).psw.getLsbD 2 = (n.alu == 0) := by rw [hpsw, hbit, if_pos rfl]
  have hneg : (op.finish n).psw.getLsbD 3 = n.alu.msb := by
    rw [hpsw, hbit, if_neg (by decide), if_pos rfl, hsign]
  refine ⟨?_, ?_, ?_, fun j h2 h3 => ?_, fun hs => ?_⟩
  · rw [hzero, Op.finish_alu]
  · rw [hneg, Op.finish_alu]
  · -- Zero has no sign bit.
    rw [hzero, hneg, Bool.and_eq_false_imp, beq_iff_eq]
    intro hv
    rw [hv]
    rfl
  · rw [hpsw, hbit, if_neg h2, if_neg h3]
  · rw [Op.finish_destAddress, Op.finish_alu]
    exact Op.finish_fetch_word (hstore hs) hlatch'

/-- **Word instructions set N and Z from their result** and leave the rest of
    PSW alone, in every state of every run. -/
theorem wordFlags_execute (st : ByteStore Addr) (p : Word) (n : ℕ) (w : Word)
    (hop : (decode w).isWordOp = true) :
    WordFlags (decode w) (fetched w (execute n (start st p)))
      (executeWord w (execute n (start st p))) :=
  wordFlags_execInstruction (m := fetched w (execute n (start st p))) hop
    (CpuState.reached st p n).dest_ne_psw

/-- A program that begins with `INC R1`. -/
def incCell (a : Addr) : Byte := if a = 0 then 0o201 else if a = 1 then 0o12 else 0

/-- `SUB R1, -(R2)` after it takes the word at 0 from 1. -/
theorem wordFlags_execute_sub :
    (executeWord 0o160142 (execute 1 (start incCell 0))).alu = 1 - 0o5201 ∧
      WordFlags .SUB (fetched 0o160142 (execute 1 (start incCell 0)))
        (executeWord 0o160142 (execute 1 (start incCell 0))) :=
  ⟨by decide, wordFlags_execute incCell 0 1 0o160142 (by decide)⟩

/-! ### Byte instructions -/

/-- The byte instructions. -/
def Op.isByteOp : Op → Bool
  | .ADCB | .ASLB | .ASRB | .BICB | .BISB | .BITB | .CLRB | .CMPB | .COMB | .DECB | .INCB
  | .MOVB | .NEGB | .ROLB | .RORB | .SBCB | .TSTB => true
  | _ => false

/-- The result of a byte instruction: the byte found at the destination, or the
    low byte of `alu` where nothing is stored. -/
def Op.byteResult (op : Op) (m : Machine) : Byte :=
  if op.storesDest then lowByte (fetchData m m.destAddress) else lowByte m.alu

/-- The flags a byte instruction should leave. -/
structure ByteFlags (op : Op) (m : Machine) : Prop where
  zero : m.psw.getLsbD 2 = (op.byteResult m == 0)
  negative : m.psw.getLsbD 3 = (op.byteResult m).msb

/-- When Z follows the byte: the result, computed in 16 bits, does not leave
    the byte zero and a bit above it set.  `c` is C and `d` the destination's byte. -/
def Op.ZeroHolds (op : Op) (c : Bool) (d : Byte) : Prop :=
  match op with
  | .ADCB => ¬ (c = true ∧ d = 0o377)
  | .ASLB => d ≠ 0o200
  | .COMB | .INCB => d ≠ 0o377
  | _ => True

instance (op : Op) (c : Bool) (d : Byte) : Decidable (op.ZeroHolds c d) := by
  unfold Op.ZeroHolds
  split <;> infer_instance

theorem and_lowMask (x : Word) : x &&& 0o377 = (lowByte x).setWidth 16 := by
  apply BitVec.eq_of_getLsbD_eq
  intro i hi
  have hmask : (0o377 : Word).getLsbD i = decide (i < 8) := by
    revert i
    decide
  rw [BitVec.getLsbD_and, hmask, lowByte, BitVec.getLsbD_setWidth, BitVec.getLsbD_setWidth]
  by_cases h8 : i < 8 <;> simp [h8, hi]

theorem and_carryFlag (p : Word) : p &&& CARRYFLAG = (BitVec.ofBool (p.getLsbD 0)).setWidth 16 :=
  BitVec.and_one_eq_setWidth_ofBool_getLsbD

@[simp] theorem lowByte_setWidth (v : Byte) : lowByte (v.setWidth 16) = v := by
  rw [lowByte, BitVec.setWidth_setWidth_of_le _ (by decide), BitVec.setWidth_eq]

/-- A byte instruction sees the low bytes of its operands and C. -/
theorem Op.value_bytes {op : Op} (h : op.isByteOp = true) (p s d : Word) : op.value p s d =
    op.value ((BitVec.ofBool (p.getLsbD 0)).setWidth 16) ((lowByte s).setWidth 16)
      ((lowByte d).setWidth 16) := by
  have hbit (c : Bool) : ((BitVec.ofBool c).setWidth 16 : Word).getLsbD 0 = c := by simp
  -- Each handler masks its operands with 0377 before it computes.
  cases op <;>
    first
    | exact absurd h (by decide)
    | simp only [Op.value, and_lowMask, and_carryFlag, lowByte_setWidth, hbit]

/-- The 16-bit test agrees with the 8-bit one on words without a high byte. -/
theorem zero_setWidth (v : Byte) : ((v.setWidth 16 : Word) == 0) = (v == 0) := by
  revert v
  decide +kernel

/-- Only two byte instructions read PSW. -/
theorem Op.value_of_psw {op : Op} (h : op.isByteOp = true) (hadc : op ≠ .ADCB) (hsbc : op ≠ .SBCB)
    (p p' s d : Word) : op.value p s d = op.value p' s d := by
  cases op <;>
    first | rfl | exact absurd h (by decide) | exact absurd rfl hadc | exact absurd rfl hsbc

/-- These two: a byte and the carry come to 0400 at most, and a byte without it
    to zero only where the 16 bits do. -/
theorem Op.zero_value_carry {op : Op} (hop : op = .ADCB ∨ op = .SBCB) (c : Bool) (d : Byte) :
    let v := op.value ((BitVec.ofBool c).setWidth 16) 0 (d.setWidth 16)
    ((v == 0) = (lowByte v == 0)) ↔ op.ZeroHolds c d := by
  have hbit : ((BitVec.ofBool c).setWidth 16 : Word).getLsbD 0 = c := by simp
  dsimp only
  rw [Bool.eq_iff_iff, beq_iff_eq, beq_iff_eq]
  rcases hop with rfl | rfl
  · simp only [Op.value, and_lowMask, and_carryFlag, lowByte_setWidth, hbit]
    unfold Op.ZeroHolds lowByte
    cases c <;> simp <;> bv_omega
  · simp only [Op.value, and_lowMask, and_carryFlag, lowByte_setWidth, hbit]
    unfold Op.ZeroHolds lowByte
    cases c <;> simp <;> bv_omega

/-- The single-operand instructions, where the carry does not matter one byte
    after the other. -/
theorem Op.zero_value_single {op : Op} (h : op.isByteOp = true) (hg : op.group = .single) (c : Bool)
    (d : Byte) :
    let v := op.value ((BitVec.ofBool c).setWidth 16) 0 (d.setWidth 16)
    ((v == 0) = (lowByte v == 0)) ↔ op.ZeroHolds c d := by
  by_cases hcarry : op = .ADCB ∨ op = .SBCB
  · exact Op.zero_value_carry hcarry c d
  · obtain ⟨hadc, hsbc⟩ := not_or.mp hcarry
    have hholds : op.ZeroHolds c d ↔ op.ZeroHolds false d := by
      cases op <;> first | exact Iff.rfl | exact absurd rfl hadc
    have hall : ∀ op ∈ Op.all, op.isByteOp = true → op.group = .single → op ≠ .ADCB →
        op ≠ .SBCB → ∀ d : Byte,
          let v := op.value 0 0 (d.setWidth 16)
          ((v == 0) = (lowByte v == 0)) ↔ op.ZeroHolds false d := by
      decide +kernel
    rw [Op.value_of_psw h hadc hsbc _ 0, hholds]
    exact hall op op.mem_all h hg hadc hsbc d

/-- The logical instructions and `MOVB` do not leave the byte at all. -/
theorem Op.value_double {op : Op} (h : op.isByteOp = true) (hg : op.group = .double)
    (hcmp : op ≠ .CMPB) (p : Word) (s d : Byte) :
    ∃ v : Byte, op.value p (s.setWidth 16) (d.setWidth 16) = v.setWidth 16 := by
  have hnot : (d.setWidth 16 : Word) &&& ~~~(s.setWidth 16) = (d &&& ~~~s).setWidth 16 := by
    apply BitVec.eq_of_getLsbD_eq
    intro i hi
    by_cases h8 : i < 8
    · simp [h8, hi]
    · simp [h8, BitVec.getLsbD_of_ge d i (by omega)]
  cases op
  case BICB => exact ⟨d &&& ~~~s, by simp only [Op.value, and_lowMask, lowByte_setWidth, hnot]⟩
  case BISB =>
    exact ⟨d ||| s, by simp only [Op.value, and_lowMask, lowByte_setWidth, BitVec.setWidth_or]⟩
  case BITB =>
    exact ⟨s &&& d, by simp only [Op.value, and_lowMask, lowByte_setWidth, BitVec.setWidth_and]⟩
  case MOVB => exact ⟨s, by simp only [Op.value, and_lowMask, lowByte_setWidth]⟩
  case CMPB => exact absurd rfl hcmp
  all_goals first | exact absurd h (by decide) | exact absurd hg (by decide)

/-- The 16-bit result is zero exactly when its low byte is, but for the spills. -/
theorem Op.zero_value_iff {op : Op} (h : op.isByteOp = true) (p s d : Word) :
    ((op.value p s d == 0) = (lowByte (op.value p s d) == 0)) ↔
      op.ZeroHolds (p.getLsbD 0) (lowByte d) := by
  rw [Op.value_bytes h]
  -- From here on the operands are bytes and the carry is a bit.
  generalize p.getLsbD 0 = c
  generalize lowByte s = a
  generalize lowByte d = b
  by_cases hg : op.group = .single
  · have hop : op.isOperand = true := by
      cases op <;> first | exact absurd h (by decide) | decide
    rw [Op.value_single hop hg _ _ 0]
    exact Op.zero_value_single h hg c b
  · have hg : op.group = .double := by
      cases op <;> first | exact absurd h (by decide) | exact absurd rfl hg | decide
    have hholds : op.ZeroHolds c b := by
      cases op <;> first | exact trivial | exact absurd hg (by decide)
    refine iff_of_true ?_ hholds
    by_cases hcmp : op = .CMPB
    · -- A difference of two bytes is zero, in 8 bits as in 16, when they are equal.
      subst hcmp
      simp only [Op.value, and_lowMask, lowByte_setWidth]
      rw [Bool.eq_iff_iff, beq_iff_eq, beq_iff_eq, lowByte]
      constructor <;> intro hv <;> bv_omega
    · obtain ⟨v, hv⟩ := Op.value_double h hg hcmp ((BitVec.ofBool c).setWidth 16) a b
      rw [hv, zero_setWidth, lowByte_setWidth]

theorem Op.byteOp_tables {op : Op} (h : op.isByteOp = true) :
    op.isOperand = true ∧ op.aluStore ≠ .psw ∧ op.flagUpdate ≠ .none ∧
      (∀ v, op.flagUpdate.sign v = (v.setWidth 8).msb) ∧
      (op.storesDest = true → op.aluStore = .byte ∨ op.aluStore = .word) := by
  refine ⟨?_, ?_, ?_, ?_, ?_⟩ <;>
    cases op <;> first | exact absurd h (by decide) | exact fun _ => rfl | decide

/-- The byte a byte instruction leaves is the low byte of `alu`. -/
theorem Op.byteResult_finish {op : Op} (h : op.isByteOp = true) {n : Machine}
    (hd : n.destAddress ≠ Reg.psw.busAddr) : op.byteResult (op.finish n) = lowByte n.alu := by
  rw [Op.byteResult, Op.finish_destAddress, Op.finish_alu]
  by_cases hs : op.storesDest = true
  · rw [if_pos hs]
    -- `ASLB` stores the whole word, the others its low byte.
    rcases (Op.byteOp_tables h).2.2.2.2 hs with hst | hst
    · exact Op.finish_fetch_byte hst hd
    · rw [Op.finish_fetch_word hst hd]
  · rw [if_neg hs]

/-- **Which byte instructions set Z from the byte.**  N always is; Z is unless
    the result spills out of a zero byte. -/
theorem byteFlags_iff (m : CpuState) (w : Word) (hop : (decode w).isByteOp = true) :
    ByteFlags (decode w) (executeWord w m.machine) ↔
      let n := (decode w).setUp (fetched w m.machine)
      (decode w).ZeroHolds (m.machine.psw.getLsbD 0) (lowByte (fetchData n n.destAddress)) := by
  obtain ⟨hoperand, hst, hfl, hsign, -⟩ := Op.byteOp_tables hop
  rw [executeWord, execInstruction_operand (m := fetched w m.machine) hoperand, fetched_ir]
  have hlatch := (decode w).setUp_destAddress_ne_psw (fetched w m.machine) m.dest_ne_psw
  have hpsw : ((decode w).setUp (fetched w m.machine)).psw = m.machine.psw := by simp
  generalize decode w = op at *
  generalize op.setUp (fetched w m.machine) = n at *
  have hbyte := op.byteResult_finish hop (n := n.setAlu (op.result n)) hlatch
  have hflags := Op.finish_psw (n := n.setAlu (op.result n)) hst hlatch
  rw [Machine.setAlu_alu] at hbyte hflags
  rw [← hpsw]
  -- N is right always, so that Z alone decides.
  refine Iff.trans ?_ (Op.zero_value_iff hop n.psw (fetchData n n.srcAddress) _)
  change _ ↔ (op.result n == 0) = (lowByte (op.result n) == 0)
  constructor
  · rintro ⟨hz, -⟩
    rwa [hflags, FlagUpdate.getLsbD_psw hfl, if_pos rfl, hbyte] at hz
  · intro hz
    refine ⟨?_, ?_⟩
    · rw [hflags, FlagUpdate.getLsbD_psw hfl, if_pos rfl, hbyte, hz]
    · rw [hflags, FlagUpdate.getLsbD_psw hfl, if_neg (by decide), if_pos rfl, hsign, hbyte]
      rfl

/-- R0 holding `v`, at the start of a run. -/
def inR0 (v : Word) : CpuState where
  machine := (start (fun _ => 0) 0).setReg .r0 v
  dest_ne_psw := start_destAddress_ne_psw (fun _ => 0) 0

/-- `INCB R0` -/
theorem byteFlags_iff_incb :
    ByteFlags .INCB (executeWord 0o105200 (inR0 0o377).machine) ↔
      Op.ZeroHolds .INCB false (lowByte 0o377) :=
  byteFlags_iff (inR0 0o377) 0o105200 (by decide)

/-- The byte comes out zero with Z clear. -/
theorem byteFlags_incb_wrong : ¬ ∀ (m : CpuState) (w : Word), (decode w).isByteOp = true →
    ByteFlags (decode w) (executeWord w m.machine) := by
  intro h
  have hzero := (h (inR0 0o377) 0o105200 (by decide)).zero
  exact absurd hzero (by decide)

end XMachine.Cpu
