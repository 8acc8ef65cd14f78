import XMachine.Cpu.Decoding
import XMachine.Cpu.Operands

namespace XMachine.Cpu

open XMachine.Lib

/-!
# CPU — operand handlers in one form

Every handler of an operand instruction addresses its operands, leaves one
value in `alu`, stores it or not, and sets flags from it.  The four tables say
which width, value, store and flags the handler of an instruction has, and
`execInstruction_operand` that this is all it does.

* `Op.setUp` — the state once the operands are addressed;
* `executeWord` — the loop body of `execute` for a given instruction word.
-/

/-! ### The tables -/

/-- The handler computes on operands: neither a stub nor a jump. -/
def Op.isOperand (op : Op) : Bool :=
  (op.group == .double || op.group == .single) && !op.isStub

/-- The argument of `setup_dest_addressing` and `setup_src_addressing`. -/
def Op.useByteAddr : Op → Bool
  | .BICB | .BISB | .BITB | .CMPB | .MOVB | .ADCB | .ASLB | .ASRB | .CLRB | .DECB | .INCB
  | .NEGB | .ROLB | .RORB | .SBCB | .TSTB => true
  | _ => false

/-- Where the handler puts `alu`. -/
def Op.aluStore : Op → AluStore
  | .BICB | .BISB | .MOVB | .ADCB | .ASRB | .CLRB | .COMB | .DECB | .INCB | .NEGB | .ROLB
  | .RORB | .SBCB => .byte
  | .MTPS => .psw
  | .BIT | .BITB | .CMP | .CMPB | .TST | .TSTB => .none
  | _ => .word

/-- The flag calls of the handler. -/
def Op.flagUpdate : Op → FlagUpdate
  | .MFPS | .MTPS => .none
  | .ADD | .BIC | .BIS | .SUB | .CLR | .COM | .SWAB => .negWZero
  | .BICB | .BISB | .BITB | .CLRB | .COMB => .negBZero
  | .CMPB | .MOVB | .ADCB | .ASLB | .ASRB | .DECB | .INCB | .NEGB | .ROLB | .RORB | .SBCB
  | .TSTB => .zeroNegB
  | _ => .zeroNegW

/-- What the handler leaves in `alu`: `p` is the PSW, `s` the word at
    `src_address`, `d` the word at `dest_address`. -/
def Op.value (op : Op) (p s d : Word) : Word :=
  match op with
  | .ADD => s + d
  | .BICB => (d &&& 0o377) &&& ~~~(s &&& 0o377)
  | .BIC => d &&& ~~~s
  | .BISB => (d &&& 0o377) ||| (s &&& 0o377)
  | .BIS => d ||| s
  | .BITB => (s &&& 0o377) &&& (d &&& 0o377)
  | .BIT => s &&& d
  | .CMPB => (d &&& 0o377) - (s &&& 0o377)
  | .CMP => d - s
  | .MOVB => s &&& 0o377
  | .MOV => s
  | .SUB => s - d
  | .ADCB => (d &&& 0o377) + (p &&& CARRYFLAG)
  | .ADC => d + (p &&& CARRYFLAG)
  | .ASLB => (d &&& 0o377) <<< 1
  | .ASL => d <<< 1
  | .ASRB => (d &&& 0o377) >>> 1
  | .ASR => d >>> 1
  | .COMB => ~~~(d &&& 0o377)
  | .COM => ~~~d
  | .DECB => (d &&& 0o377) - 1
  | .DEC => d - 1
  | .INCB => (d &&& 0o377) + 1
  | .INC => d + 1
  | .MFPS => p
  | .MTPS => d
  | .NEGB => (~~~(d &&& 0o377) + 1) &&& 0o377
  | .NEG => ~~~d + 1
  | .ROLB => (d &&& 0o377) <<< 7 ||| (d &&& 0o377) >>> 1
  | .ROL => d <<< 15 ||| d >>> 1
  | .RORB => (d &&& 0o377) <<< 1 ||| (d &&& 0o377) >>> 7
  | .ROR => d <<< 1 ||| d >>> 15
  | .SBCB => (d &&& 0o377) - (p &&& CARRYFLAG)
  | .SBC => d - (p &&& CARRYFLAG)
  | .SWAB => (d &&& 0o177400) >>> 8 ||| (d &&& 0o000377) <<< 8
  | .TSTB => d &&& 0o377
  | .TST => d
  | _ => 0

/-- The source operand is addressed, where there is one. -/
def Op.afterSource (op : Op) (m : Machine) : Machine :=
  if op.group = .double then setupSrcAddressing op.useByteAddr m else m

/-- The operands are addressed, the source first. -/
def Op.setUp (op : Op) (m : Machine) : Machine :=
  setupDestAddressing op.useByteAddr (op.afterSource m)

/-- The value left in `alu`, once the operands are addressed. -/
def Op.result (op : Op) (n : Machine) : Word :=
  op.value n.psw (fetchData n n.srcAddress) (fetchData n n.destAddress)

/-- The store and flag phases of the handler, `alu` holding the result. -/
def Op.finish (op : Op) (n : Machine) : Machine := op.flagUpdate.apply (op.aluStore.apply n)

/-- **What an operand handler does.** -/
theorem handler_operand {op : Op} (h : op.isOperand = true) (m : Machine) :
    handler op m = op.finish ((op.setUp m).setAlu (op.result (op.setUp m))) := by
  cases op <;> first | rfl | exact absurd h (by decide)

theorem execInstruction_operand {m : Machine} (h : (decode m.ir).isOperand = true) :
    execInstruction m
      = (decode m.ir).finish (((decode m.ir).setUp m).setAlu
          ((decode m.ir).result ((decode m.ir).setUp m))) :=
  handler_operand h m

/-! ### The addressing phases -/

section Phases

variable (op : Op) (m : Machine)

theorem Op.afterSource_eq : op.afterSource m =
    if op.group = .double then address .src op.useByteAddr (.src m.ir) m else m := by
  rw [afterSource, setupSrcAddressing_eq]

@[simp] theorem Op.afterSource_ir : (op.afterSource m).ir = m.ir := by
  rw [afterSource_eq]
  split <;> simp

@[simp] theorem Op.afterSource_destAddress : (op.afterSource m).destAddress = m.destAddress := by
  rw [afterSource_eq]
  split <;> simp

theorem Op.setUp_eq :
    op.setUp m = address .dest op.useByteAddr (.dest m.ir) (op.afterSource m) := by
  rw [setUp, setupDestAddressing_eq, afterSource_ir]

@[simp] theorem Op.setUp_ir : (op.setUp m).ir = m.ir := by simp [setUp_eq]

@[simp] theorem Op.afterSource_psw : (op.afterSource m).psw = m.psw := by
  rw [afterSource_eq]
  split <;> simp

@[simp] theorem Op.setUp_psw : (op.setUp m).psw = m.psw := by simp [setUp_eq]

/-- The latch after the addressing phases: fresh, or what it was where the mode has no case. -/
theorem Op.setUp_destAddress : (op.setUp m).destAddress =
    if (Specifier.dest m.ir).present = true then (Specifier.dest m.ir).target (op.afterSource m)
    else m.destAddress := by
  have hloc := address_loc .dest op.useByteAddr (.dest m.ir) (op.afterSource m)
  rwa [← op.setUp_eq, Machine.loc_dest, Machine.loc_dest, op.afterSource_destAddress] at hloc

theorem Op.setUp_srcAddress : (op.setUp m).srcAddress =
    if op.group = .double ∧ (Specifier.src m.ir).present = true then (Specifier.src m.ir).target m
    else m.srcAddress := by
  rw [op.setUp_eq, address_dest_srcAddress, op.afterSource_eq]
  by_cases hg : op.group = .double
  · have hloc := address_loc .src op.useByteAddr (.src m.ir) m
    simpa [hg] using hloc
  · simp [hg]

theorem Op.setUp_destAddress_ne_psw (h : m.destAddress ≠ Reg.psw.busAddr) :
    (op.setUp m).destAddress ≠ Reg.psw.busAddr := by
  rw [setUp_destAddress]
  split
  · exact Specifier.target_ne_pswBusAddr _ _
  · exact h

end Phases

/-! ### The store and flag phases -/

namespace AluStore

variable (st : AluStore) (n : Machine)

@[simp] theorem apply_alu : (st.apply n).alu = n.alu := by cases st <;> simp [apply]
@[simp] theorem apply_ir : (st.apply n).ir = n.ir := by cases st <;> simp [apply]
@[simp] theorem apply_halted : (st.apply n).halted = n.halted := by cases st <;> simp [apply]
@[simp] theorem apply_loc (l : Loc) : (st.apply n).loc l = n.loc l := by cases st <;> simp [apply]

end AluStore

namespace Op

variable (op : Op) (n : Machine)

theorem finish_eq :
    op.finish n = (op.aluStore.apply n).setReg .psw
      (op.flagUpdate.psw (op.aluStore.apply n).psw n.alu) := by
  rw [finish, FlagUpdate.apply_eq, AluStore.apply_alu]

@[simp] theorem finish_alu : (op.finish n).alu = n.alu := by simp [finish_eq]
@[simp] theorem finish_ir : (op.finish n).ir = n.ir := by simp [finish_eq]
@[simp] theorem finish_halted : (op.finish n).halted = n.halted := by simp [finish_eq]
@[simp] theorem finish_mem : (op.finish n).mem = (op.aluStore.apply n).mem := by simp [finish_eq]
@[simp] theorem finish_loc (l : Loc) : (op.finish n).loc l = n.loc l := by simp [finish_eq]
@[simp] theorem finish_srcAddress : (op.finish n).srcAddress = n.srcAddress := op.finish_loc n .src
@[simp] theorem finish_destAddress : (op.finish n).destAddress = n.destAddress :=
  op.finish_loc n .dest

theorem finish_regs_of_ne {r : Reg} (hr : r ≠ .psw) :
    (op.finish n).regs r = (op.aluStore.apply n).regs r := by
  simp [finish_eq, hr]

variable {op n}

/-- The store leaves PSW to the flag calls unless the latch names it. -/
theorem finish_psw (hst : op.aluStore ≠ .psw) (hd : n.destAddress ≠ Reg.psw.busAddr) :
    (op.finish n).psw = op.flagUpdate.psw n.psw n.alu := by
  have hkept : (op.aluStore.apply n).psw = n.psw := by
    generalize op.aluStore = st at hst
    cases st with
    | none => rfl
    | word => exact storeData_regs_of_ne n _ hd
    | byte => exact storeDataB_regs_of_ne n _ hd
    | psw => exact absurd rfl hst
  rw [finish_eq, hkept]
  simp [Machine.psw]

/-- The flag calls are not seen at an operand's address. -/
theorem finish_fetch {a : Addr} (ha : a ≠ Reg.psw.busAddr) :
    fetchData (op.finish n) a = fetchData (op.aluStore.apply n) a := by
  rw [finish_eq, fetchData_setReg_of_ne _ _ ha]

theorem finish_fetch_word (hst : op.aluStore = .word) (hd : n.destAddress ≠ Reg.psw.busAddr) :
    fetchData (op.finish n) n.destAddress = n.alu := by
  rw [finish_fetch hd, hst]
  exact fetchData_storeData n _ _

theorem finish_fetch_byte (hst : op.aluStore = .byte) (hd : n.destAddress ≠ Reg.psw.busAddr) :
    lowByte (fetchData (op.finish n) n.destAddress) = lowByte n.alu := by
  rw [finish_fetch hd, hst]
  exact fetchData_storeDataB n _ _

/-- A register is written only through the latch. -/
theorem finish_reg {r : Reg} (hr : r ≠ .psw)
    (hd : n.destAddress ≠ r.busAddr) : (op.finish n).regs r = n.regs r := by
  rw [finish_regs_of_ne op n hr]
  exact AluStore.apply_regs_of_ne _ n hr fun _ => hd

end Op

/-! ### One instruction word -/

/-- What the loop body of `execute` hands to the handlers: the word in `ir`, PC past it. -/
def fetched (w : Word) (m : Machine) : Machine :=
  ({ m with ir := w } : Machine).setReg .pc (m.pc + 2)

/-- The loop body of `execute` for the instruction word `w`. -/
def executeWord (w : Word) (m : Machine) : Machine := execInstruction (fetched w m)

theorem iteration_eq_executeWord (m : Machine) : iteration m = executeWord (wordAt m m.pc) m := rfl

section

variable (w : Word) (m : Machine)

@[simp] theorem fetched_ir : (fetched w m).ir = w := rfl
@[simp] theorem fetched_mem : (fetched w m).mem = m.mem := rfl
@[simp] theorem fetched_alu : (fetched w m).alu = m.alu := rfl
@[simp] theorem fetched_pc : (fetched w m).pc = m.pc + 2 := by simp [fetched, Machine.pc]
@[simp] theorem fetched_psw : (fetched w m).psw = m.psw := by simp [fetched, Machine.psw]
@[simp] theorem fetched_destAddress : (fetched w m).destAddress = m.destAddress := rfl

theorem fetched_regs_of_ne {r : Reg} (h : r ≠ .pc) : (fetched w m).regs r = m.regs r := by
  simp [fetched, h]

end

/-! ### Instruction words from their parts -/

/-- The word of a double-operand instruction. -/
def Op.doubleWord (op : Op) (s d : Specifier) : Word := op.opcode ||| s.word <<< 6 ||| d.word

/-- The word of a single-operand instruction. -/
def Op.singleWord (op : Op) (d : Specifier) : Word := op.opcode ||| d.word

/-- The word of a branch. -/
def Op.branchWord (op : Op) (offset : Byte) : Word := op.opcode ||| offset.setWidth 16

/-- R0–R5 as an operand. -/
def Specifier.register (i : Fin 6) : Specifier := ⟨0, i, by omega⟩

@[simp] theorem Specifier.gpr_register (i : Fin 6) : (register i).gpr = .general i := by
  revert i
  decide

theorem Specifier.ofWord_or (v w : Word) (lo : ℕ) : ofWord (v ||| w) lo =
    ⟨(ofWord v lo).mode ||| (ofWord w lo).mode, (ofWord v lo).reg ||| (ofWord w lo).reg⟩ := by
  simp [ofWord, BitVec.extractLsb'_or]

/-- The bits a specifier takes up in the destination field and in the source field. -/
theorem Specifier.word_fields : ∀ o : Specifier,
    dest o.word = o ∧ src o.word = ⟨0, 0⟩ ∧ o.word &&& 0o177700 = 0 ∧
      src (o.word <<< 6) = o ∧ dest (o.word <<< 6) = ⟨0, 0⟩ ∧ o.word <<< 6 &&& 0o170000 = 0 := by
  decide +kernel

theorem Specifier.zero_or (f : Fin 8) : 0 ||| f = f ∧ f ||| 0 = f := by
  revert f
  decide

theorem Op.double_opcode {op : Op} (h : op.group = .double) :
    op.opcode &&& 0o170000 = op.opcode ∧ Specifier.dest op.opcode = ⟨0, 0⟩ ∧
      Specifier.src op.opcode = ⟨0, 0⟩ := by
  cases op <;> first | exact absurd h (by decide) | decide

theorem Op.single_opcode {op : Op} (h : op.group = .single) :
    op.opcode &&& 0o177700 = op.opcode ∧ Specifier.dest op.opcode = ⟨0, 0⟩ := by
  cases op <;> first | exact absurd h (by decide) | decide

theorem Op.branch_opcode {op : Op} (h : op.group = .branch) :
    op.opcode &&& 0o177400 = op.opcode ∧ op.opcode.setWidth 8 = 0 := by
  cases op <;> first | exact absurd h (by decide) | decide

section Words

variable {op : Op}

theorem decode_doubleWord (h : op.group = .double) (s d : Specifier) :
    decode (op.doubleWord s d) = op := by
  have hop : op ≠ .HALT := fun he => by subst he; cases h
  -- The destination field is clear of the opcode, and so is the shifted source field.
  have hd : d.word &&& 0o170000 = 0 := by
    rw [show (0o170000 : Word) = 0o177700 &&& 0o170000 from rfl, ← BitVec.and_assoc,
      d.word_fields.2.2.1]
    exact BitVec.zero_and
  rw [decode_eq_iff hop, Op.codeCase, h]
  show (op.opcode ||| s.word <<< 6 ||| d.word) &&& 0o170000 = op.opcode
  rw [BitVec.and_or_distrib_right, BitVec.and_or_distrib_right, (Op.double_opcode h).1,
    s.word_fields.2.2.2.2.2, hd]
  exact BitVec.or_zero.trans BitVec.or_zero

theorem dest_doubleWord (h : op.group = .double) (s d : Specifier) :
    Specifier.dest (op.doubleWord s d) = d := by
  have ho := (Op.double_opcode h).2.1
  obtain ⟨hd, -, -, -, hs, -⟩ := s.word_fields
  obtain ⟨hd', -⟩ := d.word_fields
  rw [Specifier.dest] at ho hs hd' ⊢
  rw [Op.doubleWord, Specifier.ofWord_or, Specifier.ofWord_or, ho, hs, hd']
  simp [Specifier.zero_or]

theorem src_doubleWord (h : op.group = .double) (s d : Specifier) :
    Specifier.src (op.doubleWord s d) = s := by
  have ho := (Op.double_opcode h).2.2
  obtain ⟨-, -, -, hs, -⟩ := s.word_fields
  obtain ⟨-, hd, -⟩ := d.word_fields
  rw [Specifier.src] at ho hs hd ⊢
  rw [Op.doubleWord, Specifier.ofWord_or, Specifier.ofWord_or, ho, hs, hd]
  simp [Specifier.zero_or]

theorem decode_singleWord (h : op.group = .single) (d : Specifier) :
    decode (op.singleWord d) = op := by
  have hop : op ≠ .HALT := fun he => by subst he; cases h
  rw [decode_eq_iff hop, Op.codeCase, h]
  show (op.opcode ||| d.word) &&& 0o177700 = op.opcode
  rw [BitVec.and_or_distrib_right, (Op.single_opcode h).1, d.word_fields.2.2.1]
  exact BitVec.or_zero

theorem dest_singleWord (h : op.group = .single) (d : Specifier) :
    Specifier.dest (op.singleWord d) = d := by
  have ho := (Op.single_opcode h).2
  obtain ⟨hd, -⟩ := d.word_fields
  rw [Specifier.dest] at ho hd ⊢
  rw [Op.singleWord, Specifier.ofWord_or, ho, hd]
  simp [Specifier.zero_or]

theorem decode_branchWord (h : op.group = .branch) (offset : Byte) :
    decode (op.branchWord offset) = op := by
  have hop : op ≠ .HALT := fun he => by subst he; cases h
  have hoff : (offset.setWidth 16 : Word) &&& 0o177400 = 0 := by
    refine (and_allOnes_shiftLeft_eq_zero (k := 8) _).mpr ?_
    rw [BitVec.toNat_setWidth_of_le (by decide)]
    exact offset.isLt
  rw [decode_eq_iff hop, Op.codeCase, h]
  show (op.opcode ||| offset.setWidth 16) &&& 0o177400 = op.opcode
  rw [BitVec.and_or_distrib_right, (Op.branch_opcode h).1, hoff]
  exact BitVec.or_zero

theorem offset_branchWord (h : op.group = .branch) (offset : Byte) :
    (op.branchWord offset).setWidth 8 = offset := by
  rw [Op.branchWord, BitVec.setWidth_or, (Op.branch_opcode h).2,
    BitVec.setWidth_setWidth_of_le _ (by decide), BitVec.setWidth_eq]
  exact BitVec.zero_or

/-! ### Operands in R0–R5 -/

theorem address_register (loc : Loc) (b : Bool) (i : Fin 6) (m : Machine) :
    address loc b (.register i) m = m.setLoc loc (Reg.general i).busAddr := by
  rw [address_eq, Specifier.gpr_register]
  fin_cases i <;> rfl

/-- What an instruction with its destination in R`j` leaves behind, `v` being its result. -/
structure InRegister (op : Op) (j : Fin 6) (v : Word) (m m' : Machine) : Prop where
  pc : m'.pc = m.pc + 2
  psw : m'.psw = op.flagUpdate.psw m.psw v
  dest : op.aluStore = .word → m'.regs (.general j) = v
  other : ∀ k, k ≠ j → m'.regs (.general k) = m.regs (.general k)

theorem InRegister.of_finish {j : Fin 6} {v : Word} {m n : Machine} (hst : op.aluStore ≠ .psw)
    (hd : n.destAddress = (Reg.general j).busAddr) (halu : n.alu = v) (hpc : n.pc = m.pc + 2)
    (hregs : ∀ r, r ≠ .pc → n.regs r = m.regs r) : InRegister op j v m (op.finish n) := by
  -- The latch names R`j` and so no other register, PC and PSW among them.
  have hne {r : Reg} (h : r ≠ .general j) : n.destAddress ≠ r.busAddr := by
    rw [hd]
    exact fun he => h (Reg.busAddr_injective he).symm
  have hpsw : n.destAddress ≠ Reg.psw.busAddr := hne (Reg.general_ne_psw j).symm
  refine ⟨?_, ?_, fun hword => ?_, fun k hk => ?_⟩
  · exact (Op.finish_reg (r := .pc) nofun (hne (Reg.general_ne_pc j).symm)).trans hpc
  · rw [Op.finish_psw hst hpsw, halu, Machine.psw, hregs .psw nofun]
  · have hfetch := Op.finish_fetch_word hword hpsw
    rwa [hd, fetchData_busAddr, halu] at hfetch
  · rw [Op.finish_reg (Reg.general_ne_psw k) (hne (Reg.general_injective.ne hk)),
      hregs _ (Reg.general_ne_pc k)]

theorem fetchData_setLoc (m : Machine) (l : Loc) (a c : Addr) :
    fetchData (m.setLoc l c) a = fetchData m a := by
  cases l <;> rfl

theorem executeWord_double (hop : op.isOperand = true) (hg : op.group = .double)
    (hst : op.aluStore ≠ .psw) (i j : Fin 6) (m : Machine) :
    InRegister op j (op.value m.psw (m.regs (.general i)) (m.regs (.general j))) m
      (executeWord (op.doubleWord (.register i) (.register j)) m) := by
  have hdec := decode_doubleWord hg (.register i) (.register j)
  rw [executeWord, execInstruction_operand (by rwa [fetched_ir, hdec]), fetched_ir, hdec, Op.setUp,
    Op.afterSource, if_pos hg, setupDestAddressing_eq, setupSrcAddressing_eq, address_ir,
    fetched_ir, src_doubleWord hg, dest_doubleWord hg, address_register, address_register]
  generalize op.doubleWord _ _ = w
  -- Addressing a register loads a latch and touches nothing else.
  refine InRegister.of_finish hst rfl ?_ (fetched_pc w m) fun r hr => fetched_regs_of_ne w m hr
  rw [Machine.setAlu_alu, Op.result, fetchData_setLoc, fetchData_setLoc, fetchData_setLoc,
    fetchData_setLoc]
  show op.value (fetched w m).psw (fetchData (fetched w m) (Reg.general i).busAddr)
    (fetchData (fetched w m) (Reg.general j).busAddr) = _
  rw [fetchData_busAddr, fetchData_busAddr, fetched_psw,
    fetched_regs_of_ne _ _ (Reg.general_ne_pc i), fetched_regs_of_ne _ _ (Reg.general_ne_pc j)]

/-- A single-operand instruction computes from the destination and the PSW alone. -/
theorem Op.value_single (hop : op.isOperand = true) (hg : op.group = .single) (p s s' d : Word) :
    op.value p s d = op.value p s' d := by
  cases op <;> first | rfl | exact absurd hg (by decide)

theorem executeWord_single (hop : op.isOperand = true) (hg : op.group = .single)
    (hst : op.aluStore ≠ .psw) (j : Fin 6) (m : Machine) :
    InRegister op j (op.value m.psw 0 (m.regs (.general j))) m
      (executeWord (op.singleWord (.register j)) m) := by
  have hdec := decode_singleWord hg (.register j)
  rw [executeWord, execInstruction_operand (by rwa [fetched_ir, hdec]), fetched_ir, hdec, Op.setUp,
    Op.afterSource, if_neg (by rw [hg]; nofun), setupDestAddressing_eq, fetched_ir,
    dest_singleWord hg, address_register]
  generalize op.singleWord _ = w
  refine InRegister.of_finish hst rfl ?_ (fetched_pc w m) fun r hr => fetched_regs_of_ne w m hr
  rw [Machine.setAlu_alu, Op.result, fetchData_setLoc, fetchData_setLoc,
    Op.value_single hop hg _ _ 0]
  show op.value (fetched w m).psw 0 (fetchData (fetched w m) (Reg.general j).busAddr) = _
  rw [fetchData_busAddr, fetched_psw, fetched_regs_of_ne _ _ (Reg.general_ne_pc j)]

end Words

end XMachine.Cpu
