import XMachine.Cpu.Instructions

namespace XMachine.Cpu

open XMachine.Lib

/-!
# CPU — instruction decoding and the execution loop

`exec_instruction` is four nested switches on the instruction word, each under
a wider mask, the innermost one ending in `HALT`.  `decode` names the handler
they select; `handler` maps the name to the handler.  `handler_cases` is the
inversion of the two that the rest of the development uses: it says, once,
which handlers are instances of `oneOperand`, `twoOperand` and `branch`.
-/

/-- The handlers `exec_instruction` can call. -/
inductive Op
  | BR | BNE | BEQ | BGE | BLT | BGT | BLE | BPL | BMI | BHI | BLOS | BVC | BVS | BCC | BCS
  | MUL | DIV | ASH | ASHC | XOR | JSR
  | MOV | MOVB | CMP | CMPB | BIT | BITB | BIC | BICB | BIS | BISB | ADD | SUB
  | JMP | SWAB | CLR | CLRB | COM | COMB | INC | INCB | DEC | DECB | NEG | NEGB | ADC | ADCB
  | SBC | SBCB | TST | TSTB | ROR | RORB | ROL | ROLB | ASR | ASRB | ASL | ASLB | MTPS | MFPI
  | MFPD | MTPI | MTPD | SXT | MFPS | RTS
  | HALT
  deriving DecidableEq, Repr

/-- `switch (ir & 0177400)`: the branches. -/
def branchOp (ir : Word) : Option Op :=
  match (ir &&& 0o177400).toNat with
  | 0o000400 => some .BR | 0o001000 => some .BNE | 0o001400 => some .BEQ
  | 0o002000 => some .BGE | 0o002400 => some .BLT | 0o003000 => some .BGT
  | 0o003400 => some .BLE | 0o100000 => some .BPL | 0o100400 => some .BMI
  | 0o101000 => some .BHI | 0o101400 => some .BLOS | 0o102000 => some .BVC
  | 0o102400 => some .BVS | 0o103000 => some .BCC | 0o103400 => some .BCS
  | _ => none

/-- `switch (ir & 0177000)`: double operand with register source, and `JSR`. -/
def registerSourceOp (ir : Word) : Option Op :=
  match (ir &&& 0o177000).toNat with
  | 0o070000 => some .MUL | 0o071000 => some .DIV | 0o072000 => some .ASH
  | 0o073000 => some .ASHC | 0o074000 => some .XOR | 0o004000 => some .JSR
  | _ => none

/-- `switch (ir & 0170000)`: double operand. -/
def doubleOp (ir : Word) : Option Op :=
  match (ir &&& 0o170000).toNat with
  | 0o010000 => some .MOV | 0o110000 => some .MOVB | 0o020000 => some .CMP
  | 0o120000 => some .CMPB | 0o030000 => some .BIT | 0o130000 => some .BITB
  | 0o040000 => some .BIC | 0o140000 => some .BICB | 0o050000 => some .BIS
  | 0o150000 => some .BISB | 0o060000 => some .ADD | 0o160000 => some .SUB
  | _ => none

/-- `switch (ir & 0177700)`: single operand. -/
def singleOp (ir : Word) : Option Op :=
  match (ir &&& 0o177700).toNat with
  | 0o000100 => some .JMP | 0o000300 => some .SWAB | 0o005000 => some .CLR
  | 0o105000 => some .CLRB | 0o005100 => some .COM | 0o105100 => some .COMB
  | 0o005200 => some .INC | 0o105200 => some .INCB | 0o005300 => some .DEC
  | 0o105300 => some .DECB | 0o005400 => some .NEG | 0o105400 => some .NEGB
  | 0o005500 => some .ADC | 0o105500 => some .ADCB | 0o005600 => some .SBC
  | 0o105600 => some .SBCB | 0o005700 => some .TST | 0o105700 => some .TSTB
  | 0o006000 => some .ROR | 0o106000 => some .RORB | 0o006100 => some .ROL
  | 0o106100 => some .ROLB | 0o006200 => some .ASR | 0o106200 => some .ASRB
  | 0o006300 => some .ASL | 0o106300 => some .ASLB | 0o106400 => some .MTPS
  | 0o006500 => some .MFPI | 0o106500 => some .MFPD | 0o006600 => some .MTPI
  | 0o106600 => some .MTPD | 0o006700 => some .SXT | 0o106700 => some .MFPS
  | 0o000200 => some .RTS
  | _ => none

/-- The handler selected for an instruction word. -/
def decode (ir : Word) : Op :=
  match branchOp ir with
  | some op => op
  | none =>
    match registerSourceOp ir with
    | some op => op
    | none =>
      match doubleOp ir with
      | some op => op
      | none =>
        match singleOp ir with
        | some op => op
        | none => .HALT

def handler : Op → Machine → Machine
  | .BR => BR | .BNE => BNE | .BEQ => BEQ | .BGE => BGE | .BLT => BLT | .BGT => BGT
  | .BLE => BLE | .BPL => BPL | .BMI => BMI | .BHI => BHI | .BLOS => BLOS | .BVC => BVC
  | .BVS => BVS | .BCC => BCC | .BCS => BCS
  | .MUL => MUL | .DIV => DIV | .ASH => ASH | .ASHC => ASHC | .XOR => XOR | .JSR => JSR
  | .MOV => MOV | .MOVB => MOVB | .CMP => CMP | .CMPB => CMPB | .BIT => BIT | .BITB => BITB
  | .BIC => BIC | .BICB => BICB | .BIS => BIS | .BISB => BISB | .ADD => ADD | .SUB => SUB
  | .JMP => JMP | .SWAB => SWAB | .CLR => CLR | .CLRB => CLRB | .COM => COM | .COMB => COMB
  | .INC => INC | .INCB => INCB | .DEC => DEC | .DECB => DECB | .NEG => NEG | .NEGB => NEGB
  | .ADC => ADC | .ADCB => ADCB | .SBC => SBC | .SBCB => SBCB | .TST => TST | .TSTB => TSTB
  | .ROR => ROR | .RORB => RORB | .ROL => ROL | .ROLB => ROLB | .ASR => ASR | .ASRB => ASRB
  | .ASL => ASL | .ASLB => ASLB | .MTPS => MTPS | .MFPI => MFPI | .MFPD => MFPD
  | .MTPI => MTPI | .MTPD => MTPD | .SXT => SXT | .MFPS => MFPS | .RTS => RTS
  | .HALT => HALT

/-- The terminal output of `exec_instruction` (`dump_cpu`) is not modelled. -/
def execInstruction (m : Machine) : Machine := handler (decode m.ir) m

/-! ### The execution loop -/

/-- The fetch and the PC advance at the head of the loop. -/
def fetchInstruction (m : Machine) : Machine :=
  let m := { m with ir := fetchData m (m.pc.setWidth 32) }
  m.setReg .pc (m.pc + 2)

@[simp] theorem fetchInstruction_pc (m : Machine) : (fetchInstruction m).pc = m.pc + 2 := by
  simp [fetchInstruction, Machine.pc]

theorem fetchInstruction_regs_of_ne (m : Machine) {r : Reg} (h : r ≠ .pc) :
    (fetchInstruction m).regs r = m.regs r := by
  simp [fetchInstruction, h]

@[simp] theorem fetchInstruction_ir (m : Machine) : (fetchInstruction m).ir = wordAt m m.pc := rfl
@[simp] theorem fetchInstruction_mem (m : Machine) : (fetchInstruction m).mem = m.mem := rfl
@[simp] theorem fetchInstruction_destAddress (m : Machine) :
    (fetchInstruction m).destAddress = m.destAddress := rfl

/-- One iteration of the loop body of `execute`. -/
def iteration (m : Machine) : Machine := execInstruction (fetchInstruction m)

/-- The first `n` iterations of `while (!halted)`; once halted, nothing more happens. -/
def execute : ℕ → Machine → Machine
  | 0, m => m
  | n + 1, m => if m.halted then m else execute n (iteration m)

theorem execute_halted (n : ℕ) {m : Machine} (h : m.halted = true) : execute n m = m := by
  cases n with
  | zero => rfl
  | succ n => rw [execute, if_pos h]

theorem execute_succ (n : ℕ) (m : Machine) : execute (n + 1) m =
    if (execute n m).halted then execute n m else iteration (execute n m) := by
  induction n generalizing m with
  | zero => rfl
  | succ n ih =>
    rw [execute]
    by_cases hm : m.halted = true
    · rw [if_pos hm, execute_halted _ hm, if_pos hm]
    · rw [if_neg hm, ih, execute, if_neg hm]

/-- The state `execute` starts in: `init_cpu`, then PC from the command line. -/
def start (st : ByteStore Addr) (p : Word) : Machine := (initCpu st).setReg .pc p

/-! ### Inversion of the handler table -/

/-- The operand specifiers of an instruction word that belong to its handler's group. -/
inductive Group
  | branch | double | single | registerSource | jmp | jsr | rts | halt
  deriving DecidableEq, Repr

def Op.group : Op → Group
  | .BR | .BNE | .BEQ | .BGE | .BLT | .BGT | .BLE | .BPL | .BMI | .BHI | .BLOS | .BVC | .BVS
  | .BCC | .BCS => .branch
  | .MUL | .DIV | .ASH | .ASHC | .XOR => .registerSource
  | .MOV | .MOVB | .CMP | .CMPB | .BIT | .BITB | .BIC | .BICB | .BIS | .BISB | .ADD
  | .SUB => .double
  | .JMP => .jmp
  | .JSR => .jsr
  | .RTS => .rts
  | .HALT => .halt
  | _ => .single

/-- The handlers whose body is a call of `NOP`. -/
def Op.isStub : Op → Bool
  | .MUL | .DIV | .ASH | .ASHC | .XOR | .MFPI | .MFPD | .MTPI | .MTPD | .SXT => true
  | _ => false

/-- The handlers that store `alu` at `dest_address`. -/
def Op.storesDest : Op → Bool
  | .MOV | .MOVB | .BIC | .BICB | .BIS | .BISB | .ADD | .SUB
  | .SWAB | .CLR | .CLRB | .COM | .COMB | .INC | .INCB | .DEC | .DECB | .NEG | .NEGB | .ADC
  | .ADCB | .SBC | .SBCB | .ROR | .RORB | .ROL | .ROLB | .ASR | .ASRB | .ASL | .ASLB
  | .MFPS => true
  | _ => false

/-- What the handler of `op` is, up to the shapes of `Instructions`. -/
inductive Shape (op : Op) : (Machine → Machine) → Prop
  | br (hg : op.group = .branch) : Shape op takeBranch
  | branch (hg : op.group = .branch) (f : Word → Word) (taken : Word → Bool) :
      Shape op (Cpu.branch f taken)
  | two (hg : op.group = .double) (hn : op.isStub = false) (b : Bool) (f : Word → Word → Word)
      (st : AluStore) (fl : FlagUpdate) (hst : st ≠ .psw) (hs : op.storesDest = st.isDest) :
      Shape op (twoOperand b f st fl)
  | one (hg : op.group = .single) (hn : op.isStub = false) (b : Bool) (f : Word → Word → Word)
      (st : AluStore) (fl : FlagUpdate) (hs : op.storesDest = st.isDest) :
      Shape op (oneOperand b f st fl)
  | stub (hg : op.group = .single ∨ op.group = .registerSource) (hn : op.isStub = true) :
      Shape op NOP
  | jmp (h : op = .JMP) : Shape op JMP
  | jsr (h : op = .JSR) : Shape op JSR
  | rts (h : op = .RTS) : Shape op RTS
  | halt (h : op = .HALT) : Shape op HALT

/-- Every handler has the shape of its group. -/
theorem handler_cases (op : Op) : Shape op (handler op) := by
  cases op <;> dsimp only [handler]
  case BR => exact .br rfl
  case JMP => exact .jmp rfl
  case JSR => exact .jsr rfl
  case RTS => exact .rts rfl
  case HALT => exact .halt rfl
  case MUL | DIV | ASH | ASHC | XOR => exact .stub (.inr rfl) rfl
  case MFPI | MFPD | MTPI | MTPD | SXT => exact .stub (.inl rfl) rfl
  case MOV | MOVB | CMP | CMPB | BIT | BITB | BIC | BICB | BIS | BISB | ADD | SUB =>
    exact .two rfl rfl _ _ _ _ nofun rfl
  case BNE | BEQ | BGE | BLT | BGT | BLE | BPL | BMI | BHI | BLOS | BVC | BVS | BCC | BCS =>
    exact .branch rfl _ _
  all_goals exact .one rfl rfl _ _ _ _ rfl

/-- Every group's handlers select their words by the ten high bits alone. -/
theorem decode_and_mask (ir : Word) : decode (ir &&& 0o177700) = decode ir := by
  have h1 : (0o177700 : Word) &&& 0o177400 = 0o177400 := by decide
  have h2 : (0o177700 : Word) &&& 0o177000 = 0o177000 := by decide
  have h3 : (0o177700 : Word) &&& 0o170000 = 0o170000 := by decide
  have h4 : (0o177700 : Word) &&& 0o177700 = 0o177700 := by decide
  simp only [decode, branchOp, registerSourceOp, doubleOp, singleOp, BitVec.and_assoc, h1, h2, h3,
    h4]

end XMachine.Cpu
