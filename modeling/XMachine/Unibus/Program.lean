import XMachine.Lib.Client
import XMachine.Cpu.Handlers
import XMachine.Unibus.BusMemory

namespace XMachine.Unibus.Program

open XMachine.Lib XMachine.Cpu XMachine.Unibus.BusMemory

/-!
# Program — the text of `cpu` with its bus calls

The functions of `Cpu.Machine`, `Cpu.Addressing` and `Cpu.Execute` once more,
with `read_data_in`, `write_data_out` and `write_data_out_b` as the calls they
are: a fetch or a store outside the registers goes over the bus, in the order
the source makes them.  The record's own store is not looked at.

* `fetchData`, `storeData`, `storeDataB` — the accesses;
* `operandHandler` — the handlers of operand instructions, with the operands
  they fetch and the order they fetch them in;
* `iteration` — the loop body of `execute`;
* `Implements` — over an ideal store, code with calls does what a function on
  the machine with the store in it does;
* `Clear` — where the calls can go.
-/

/-- Code of `cpu` that makes bus calls. -/
abbrev Bus := Client Call (Option Word)

/-! ### Data access -/

def readDataIn (addr : Addr) : Bus Word := Client.ask (.readDataIn addr) (·.getD 0)

def writeDataOut (m : Machine) (addr : Addr) (data : Word) : Bus Machine :=
  Client.ask (.writeDataOut addr data) fun _ => m

def writeDataOutB (m : Machine) (addr : Addr) (data : Byte) : Bus Machine :=
  Client.ask (.writeDataOutB addr data) fun _ => m

def fetchData (m : Machine) (addr : Addr) : Bus Word :=
  if isInternalBusAddr addr then return fetchDataRegister m addr
  else readDataIn (translateBusAddr addr)

def storeData (m : Machine) (addr : Addr) (data : Word) : Bus Machine :=
  if isInternalBusAddr addr then return storeDataRegister m addr data
  else writeDataOut m (translateBusAddr addr) data

def storeDataB (m : Machine) (addr : Addr) (data : Byte) : Bus Machine :=
  if isInternalBusAddr addr then return storeDataRegister m addr (data.setWidth 16)
  else writeDataOutB m (translateBusAddr addr) data

/-! ### Operand addressing -/

def setupPcAddressing (loc : Loc) (mode reg : Word) (m : Machine) : Bus Machine :=
  match mode.toNat with
  | 0 => return m.setLoc loc (registerToBusAddr reg)
  -- From immediate.
  | 2 => return advancePc (m.setLoc loc (m.pc.setWidth 32))
  -- From absolute.
  | 3 => do
    let absolute ← fetchData m (m.pc.setWidth 32)
    return advancePc (m.setLoc loc (absolute.setWidth 32))
  -- Relative.
  | 6 => do
    let relative ← fetchData m (m.pc.setWidth 32)
    let m := advancePc m
    return m.setLoc loc (m.pc.setWidth 32 + relative.setWidth 32)
  | _ => return m

def setupSpAddressing (loc : Loc) (mode reg : Word) (m : Machine) : Bus Machine :=
  match mode.toNat with
  | 0 => return m.setLoc loc (registerToBusAddr reg)
  | 1 => return m.setLoc loc (m.sp.setWidth 32)
  -- Autoincrement: pop.
  | 2 =>
    let m := m.setLoc loc (m.sp.setWidth 32)
    return m.setReg .sp (m.sp + 2)
  | 3 => do
    let deferred ← fetchData m (m.sp.setWidth 32)
    let m := m.setLoc loc (deferred.setWidth 32)
    return m.setReg .sp (m.sp + 2)
  -- Autodecrement: push.
  | 4 =>
    let m := m.setReg .sp (m.sp - 2)
    return m.setLoc loc (m.sp.setWidth 32)
  | 6 => do
    let index ← fetchData m (m.pc.setWidth 32)
    let m := advancePc m
    return m.setLoc loc (m.sp.setWidth 32 + index.setWidth 32)
  | 7 => do
    let index ← fetchData m (m.pc.setWidth 32)
    let m := advancePc m
    let deferred ← fetchData m (index.setWidth 32 + m.sp.setWidth 32)
    return m.setLoc loc (deferred.setWidth 32)
  | _ => return m

def generalAddressing (isByteAddr : Bool) (loc : Loc) (mode reg : Word) (m : Machine) :
    Bus Machine :=
  match mode.toNat with
  | 0 => return m.setLoc loc (registerToBusAddr reg)
  | 1 => return m.setLoc loc ((fetchRegisterContents m reg).setWidth 32)
  | 2 =>
    return incRegister (m.setLoc loc ((fetchRegisterContents m reg).setWidth 32)) reg isByteAddr
  | 3 => do
    let index ← fetchData m ((fetchRegisterContents m reg).setWidth 32)
    let m := incRegister m reg isByteAddr
    let deferred ← fetchData m (index.setWidth 32)
    return m.setLoc loc (deferred.setWidth 32)
  | 4 =>
    return decRegister (m.setLoc loc ((fetchRegisterContents m reg).setWidth 32)) reg isByteAddr
  | 5 => do
    let deferred : Addr := (fetchRegisterContents m reg).setWidth 32
    let index ← fetchData m deferred
    let operand ← fetchData m (index.setWidth 32)
    let m := m.setLoc loc (operand.setWidth 32)
    storeData m deferred (index - if isByteAddr then 1 else 2)
  | 6 => do
    let index ← fetchData m (m.pc.setWidth 32)
    let m := advancePc m
    let deferred : Addr := (fetchRegisterContents m reg).setWidth 32
    let operand ← fetchData m (index.setWidth 32 + deferred)
    return m.setLoc loc (operand.setWidth 32)
  | 7 => do
    let index ← fetchData m (m.pc.setWidth 32)
    let m := advancePc m
    let deferred ← fetchData m ((fetchRegisterContents m reg).setWidth 32)
    let operand ← fetchData m (deferred.setWidth 32 + index.setWidth 32)
    return m.setLoc loc (operand.setWidth 32)
  | _ => return m

def setupAddressing (loc : Loc) (useByteAddr : Bool) (mode reg : Word) (m : Machine) :
    Bus Machine :=
  match reg.toNat with
  | 7 => setupPcAddressing loc mode reg m
  | 6 => setupSpAddressing loc mode reg m
  | _ => generalAddressing useByteAddr loc mode reg m

def setupDestAddressing (useByteAddr : Bool) (m : Machine) : Bus Machine :=
  setupAddressing .dest useByteAddr (destMode m.ir) (destReg m.ir) m

def setupSrcAddressing (useByteAddr : Bool) (m : Machine) : Bus Machine :=
  setupAddressing .src useByteAddr (srcMode m.ir) (srcReg m.ir) m

/-! ### Handlers -/

/-- The operands the handler fetches, the first one first. -/
def fetches : Op → List Loc
  | .ADD | .BIT | .BITB | .SUB => [.src, .dest]
  | .BIC | .BICB | .BIS | .BISB | .CMP | .CMPB => [.dest, .src]
  | .MOV | .MOVB => [.src]
  | .CLR | .CLRB | .MFPS => []
  | _ => [.dest]

/-- The words fetched, 0 for an operand that is not. -/
def fetchOperands (m : Machine) : List Loc → Bus (Loc → Word)
  | [] => return fun _ => 0
  | l :: ls => do
    let data ← fetchData m (m.loc l)
    let others ← fetchOperands m ls
    return Function.update others l data

def storeAlu (st : AluStore) (m : Machine) : Bus Machine :=
  match st with
  | .none => return m
  | .word => storeData m m.destAddress m.alu
  | .byte => storeDataB m m.destAddress (m.alu.setWidth 8)
  | .psw => return m.setReg .psw m.alu

/-- The source operand is addressed, where there is one. -/
def afterSource (op : Op) (m : Machine) : Bus Machine :=
  if op.group = .double then setupSrcAddressing op.useByteAddr m else return m

/-- The handler of an operand instruction. -/
def operandHandler (op : Op) (m : Machine) : Bus Machine := do
  let m ← afterSource op m
  let m ← setupDestAddressing op.useByteAddr m
  let operands ← fetchOperands m (fetches op)
  let m := m.setAlu (op.value m.psw (operands .src) (operands .dest))
  let m ← storeAlu op.aluStore m
  return op.flagUpdate.apply m

def JMP (m : Machine) : Bus Machine := do
  let m ← setupDestAddressing false m
  let target ← fetchData m m.destAddress
  return m.setReg .pc target

def JSR (m : Machine) : Bus Machine := do
  let reg : Word := (m.ir &&& 0o0700) >>> 6
  let m ← setupDestAddressing false m
  let tmp : Word := m.destAddress.setWidth 16
  let regContents := fetchRegisterContents m reg
  let m ← storeData m (m.sp.setWidth 32) regContents
  let m := decRegister m m.sp false
  let m := storeDataRegister m (registerToBusAddr reg) m.pc
  return m.setReg .pc tmp

def RTS (m : Machine) : Bus Machine := do
  let reg : Word := m.ir &&& 0o7
  let regContents := fetchRegisterContents m reg
  let m := m.setReg .pc regContents
  let m := incRegister m m.sp false
  let topStack ← fetchData m (m.sp.setWidth 32)
  return storeDataRegister m (registerToBusAddr reg) topStack

/-- Branches, stubs and `HALT` make no call. -/
def handler (op : Op) (m : Machine) : Bus Machine :=
  if op.isOperand then operandHandler op m
  else
    match op with
    | .JMP => JMP m
    | .JSR => JSR m
    | .RTS => RTS m
    | _ => return Cpu.handler op m

/-- One iteration of the loop body of `execute`. -/
def iteration (m : Machine) : Bus Machine := do
  let ir ← fetchData m (m.pc.setWidth 32)
  let m : Machine := { m with ir := ir }
  let m := m.setReg .pc (m.pc + 2)
  handler (decode m.ir) m

/-- The first `n` iterations of `while (!halted)`. -/
def execute : ℕ → Machine → Bus Machine
  | 0, m => return m
  | n + 1, m =>
    if m.halted then return m
    else do
      let m ← iteration m
      execute n m

/-! ### Over an ideal store -/

/-- The code does to the record, with the ideal store beside it, what `f` does
    to the machine that has the store in it. -/
def Implements (p : Machine → Bus Machine) (f : Machine → Machine) : Prop :=
  ∀ m st, (p m).run onStore st = ((f (m.setMem st)).mem, (f (m.setMem st)).setMem m.mem)

section SetMem

variable (m : Machine) (st : ByteStore Addr) (r : Reg) (v : Word) (l : Loc) (a : Addr)
  (reg : Word) (b : Bool)

@[simp] theorem setMem_setMem (st' : ByteStore Addr) : (m.setMem st).setMem st' = m.setMem st' :=
  rfl
@[simp] theorem setMem_self : m.setMem m.mem = m := rfl
theorem setReg_setMem : (m.setReg r v).setMem st = (m.setMem st).setReg r v := rfl
theorem advancePc_setMem : (advancePc m).setMem st = advancePc (m.setMem st) := rfl
theorem setLoc_setMem : (m.setLoc l a).setMem st = (m.setMem st).setLoc l a := by cases l <;> rfl

theorem incRegister_setMem :
    (incRegister m reg b).setMem st = incRegister (m.setMem st) reg b := by
  unfold incRegister
  split <;> rfl

theorem decRegister_setMem :
    (decRegister m reg b).setMem st = decRegister (m.setMem st) reg b := by
  unfold decRegister
  split <;> rfl

theorem storeDataRegister_setMem :
    (storeDataRegister m a v).setMem st = storeDataRegister (m.setMem st) a v := by
  unfold storeDataRegister
  split <;> rfl

theorem flagUpdate_setMem (f : FlagUpdate) :
    (f.apply m).setMem st = f.apply (m.setMem st) := by
  rw [FlagUpdate.apply_eq, FlagUpdate.apply_eq]
  rfl

end SetMem

section Run

variable (m : Machine) (st : ByteStore Addr) (a : Addr)

theorem run_fetchData :
    (fetchData m a).run onStore st = (st, Cpu.fetchData (m.setMem st) a) := by
  unfold fetchData Cpu.fetchData
  split <;> rfl

theorem run_register (v : Word) : (return storeDataRegister m a v : Bus Machine).run onStore st
    = ((storeDataRegister (m.setMem st) a v).mem,
        (storeDataRegister (m.setMem st) a v).setMem m.mem) := by
  have hmem : (storeDataRegister (m.setMem st) a v).mem = st :=
    congrArg Machine.mem (storeDataRegister_setMem m st v a).symm
  rw [hmem, storeDataRegister_setMem]
  rfl

theorem run_storeData (v : Word) : (storeData m a v).run onStore st
    = ((Cpu.storeData (m.setMem st) a v).mem, (Cpu.storeData (m.setMem st) a v).setMem m.mem) := by
  unfold storeData Cpu.storeData
  split
  · exact run_register m st a v
  · rfl

theorem run_storeDataB (b : Byte) : (storeDataB m a b).run onStore st
    = ((Cpu.storeDataB (m.setMem st) a b).mem,
        (Cpu.storeDataB (m.setMem st) a b).setMem m.mem) := by
  unfold storeDataB Cpu.storeDataB
  split
  · exact run_register m st a _
  · rfl

end Run

section Rules

variable {p q : Machine → Bus Machine} {f g : Machine → Machine}

theorem Implements.bind (hp : Implements p f) (hq : Implements q g) :
    Implements (fun m => p m >>= q) (fun m => g (f m)) := fun m st => by
  rw [Client.run_bind, hp, hq]
  rfl

/-- Code that makes no call. -/
theorem Implements.pure (hf : ∀ m st, (f m).setMem st = f (m.setMem st)) :
    Implements (fun m => return f m) f := fun m st => by
  rw [← hf, Client.run_pure]
  exact Prod.ext rfl ((hf m m.mem).symm)

/-- A word is fetched, by the state after `g`, before the code goes on. -/
theorem Implements.fetch {p : Word → Machine → Bus Machine} {f : Word → Machine → Machine}
    {a : Machine → Addr} {g : Machine → Machine} (hg : ∀ m st, (g m).setMem st = g (m.setMem st))
    (ha : ∀ m st, a (m.setMem st) = a m) (hp : ∀ w, Implements (p w) (f w)) :
    Implements (fun m => fetchData (g m) (a m) >>= fun w => p w m)
      (fun m => f (Cpu.fetchData (g m) (a m)) m) := fun m st => by
  rw [Client.run_bind, run_fetchData, hp, hg]
  simp only [ha]

theorem Implements.storeData {a : Machine → Addr} {v : Machine → Word} {g : Machine → Machine}
    (hg : ∀ m st, (g m).setMem st = g (m.setMem st)) (ha : ∀ m st, a (m.setMem st) = a m)
    (hv : ∀ m st, v (m.setMem st) = v m) :
    Implements (fun m => storeData (g m) (a m) (v m))
      (fun m => Cpu.storeData (g m) (a m) (v m)) := by
  intro m st
  -- `g` leaves the record's own store alone
  have hkeep : (g m).mem = m.mem := (congrArg Machine.mem (hg m m.mem)).symm
  simp only [run_storeData, hg, ha, hv, hkeep]

end Rules

section Addressing

variable (loc : Loc) (b : Bool) (mode reg : Word)

theorem implements_setupPcAddressing :
    Implements (setupPcAddressing loc mode reg) (Cpu.setupPcAddressing loc mode reg) := by
  unfold setupPcAddressing Cpu.setupPcAddressing
  match mode.toNat with
  | 0 => exact .pure fun m st => setLoc_setMem m st loc _
  | 2 => exact .pure fun m st => by cases loc <;> rfl
  | 3 =>
    refine .fetch (fun _ _ => rfl) (fun _ _ => rfl) fun w => .pure fun m st => ?_
    rw [advancePc_setMem, setLoc_setMem]
  | 6 =>
    refine .fetch (fun _ _ => rfl) (fun _ _ => rfl) fun w => .pure fun m st => ?_
    rw [setLoc_setMem, advancePc_setMem]
    rfl
  | 1 | 4 | 5 | n + 7 => exact .pure fun _ _ => rfl

theorem implements_setupSpAddressing :
    Implements (setupSpAddressing loc mode reg) (Cpu.setupSpAddressing loc mode reg) := by
  unfold setupSpAddressing Cpu.setupSpAddressing
  match mode.toNat with
  | 0 | 1 | 2 | 4 => exact .pure fun m st => by cases loc <;> rfl
  | 3 =>
    refine .fetch (fun _ _ => rfl) (fun _ _ => rfl) fun w => .pure fun m st => ?_
    cases loc <;> rfl
  | 6 =>
    refine .fetch (fun _ _ => rfl) (fun _ _ => rfl) fun w => .pure fun m st => ?_
    cases loc <;> rfl
  | 7 =>
    refine .fetch (f := fun w m => (advancePc m).setLoc loc
      ((Cpu.fetchData (advancePc m) (w.setWidth 32 + m.sp.setWidth 32)).setWidth 32))
      (fun _ _ => rfl) (fun _ _ => rfl) fun w => ?_
    refine .fetch (fun _ _ => rfl) (fun _ _ => rfl) fun w => .pure fun m st => ?_
    cases loc <;> rfl
  | 5 | n + 8 => exact .pure fun _ _ => rfl

theorem implements_generalAddressing :
    Implements (generalAddressing b loc mode reg) (Cpu.generalAddressing b loc mode reg) := by
  unfold generalAddressing Cpu.generalAddressing
  match mode.toNat with
  | 0 | 1 => exact .pure fun m st => setLoc_setMem m st loc _
  | 2 =>
    refine .pure fun m st => ?_
    rw [incRegister_setMem, setLoc_setMem]
    rfl
  | 3 =>
    refine .fetch (f := fun w m => (incRegister m reg b).setLoc loc
      ((Cpu.fetchData (incRegister m reg b) (w.setWidth 32)).setWidth 32))
      (fun _ _ => rfl) (fun _ _ => rfl) fun w => ?_
    refine .fetch (fun m st => incRegister_setMem m st reg b) (fun _ _ => rfl) fun w =>
      .pure fun m st => ?_
    rw [setLoc_setMem, incRegister_setMem]
  | 4 =>
    refine .pure fun m st => ?_
    rw [decRegister_setMem, setLoc_setMem]
    rfl
  | 5 =>
    refine .fetch (f := fun w m => Cpu.storeData
      (m.setLoc loc ((Cpu.fetchData m (w.setWidth 32)).setWidth 32))
      ((fetchRegisterContents m reg).setWidth 32) (w - if b then 1 else 2))
      (fun _ _ => rfl) (fun _ _ => rfl) fun w => ?_
    refine .fetch (f := fun w' m => Cpu.storeData (m.setLoc loc (w'.setWidth 32))
      ((fetchRegisterContents m reg).setWidth 32) (w - if b then 1 else 2))
      (fun _ _ => rfl) (fun _ _ => rfl) fun w' => ?_
    exact .storeData (fun m st => setLoc_setMem m st loc _) (fun _ _ => rfl) fun _ _ => rfl
  | 6 =>
    refine .fetch (f := fun w m => (advancePc m).setLoc loc ((Cpu.fetchData (advancePc m)
      (w.setWidth 32 + (fetchRegisterContents (advancePc m) reg).setWidth 32)).setWidth 32))
      (fun _ _ => rfl) (fun _ _ => rfl) fun w => ?_
    refine .fetch (fun _ _ => rfl) (fun _ _ => rfl) fun w => .pure fun m st => ?_
    rw [setLoc_setMem, advancePc_setMem]
  | 7 =>
    refine .fetch (f := fun w m => (advancePc m).setLoc loc ((Cpu.fetchData (advancePc m)
      ((Cpu.fetchData (advancePc m)
        ((fetchRegisterContents (advancePc m) reg).setWidth 32)).setWidth 32
          + w.setWidth 32)).setWidth 32))
      (fun _ _ => rfl) (fun _ _ => rfl) fun w => ?_
    refine .fetch (f := fun w' m => (advancePc m).setLoc loc ((Cpu.fetchData (advancePc m)
      (w'.setWidth 32 + w.setWidth 32)).setWidth 32))
      (fun _ _ => rfl) (fun _ _ => rfl) fun w' => ?_
    refine .fetch (fun _ _ => rfl) (fun _ _ => rfl) fun w => .pure fun m st => ?_
    rw [setLoc_setMem, advancePc_setMem]
  | n + 8 => exact .pure fun _ _ => rfl

theorem implements_setupAddressing :
    Implements (setupAddressing loc b mode reg) (Cpu.setupAddressing loc b mode reg) := by
  unfold setupAddressing Cpu.setupAddressing
  match reg.toNat with
  | 7 => exact implements_setupPcAddressing loc mode reg
  | 6 => exact implements_setupSpAddressing loc mode reg
  | 0 | 1 | 2 | 3 | 4 | 5 | n + 8 =>
    cases b
    · exact implements_generalAddressing loc false mode reg
    · exact implements_generalAddressing loc true mode reg

end Addressing

section Handlers

theorem implements_storeAlu (st : AluStore) : Implements (storeAlu st) st.apply := by
  cases st with
  | none => exact .pure fun _ _ => rfl
  | word => exact .storeData (fun _ _ => rfl) (fun _ _ => rfl) fun _ _ => rfl
  | byte => exact fun m st => run_storeDataB m st _ _
  | psw => exact .pure fun _ _ => rfl

theorem run_fetchOperands (m : Machine) (st : ByteStore Addr) (ls : List Loc) :
    (fetchOperands m ls).run onStore st
      = (st, fun l => if l ∈ ls then Cpu.fetchData (m.setMem st) (m.loc l) else 0) := by
  induction ls with
  | nil => rfl
  | cons l ls ih =>
    rw [fetchOperands, Client.run_bind, run_fetchData, Client.run_bind, ih, Client.run_pure]
    refine Prod.ext rfl (funext fun l' => ?_)
    by_cases hl : l' = l
    · simp [hl]
    · simp [hl]

/-- An operand that is not fetched is not looked at. -/
theorem value_fetches (op : Op) (p : Word) (f : Loc → Word) :
    op.value p (if .src ∈ fetches op then f .src else 0)
        (if .dest ∈ fetches op then f .dest else 0) = op.value p (f .src) (f .dest) := by
  cases op <;> rfl

theorem implements_afterSource (op : Op) : Implements (afterSource op) op.afterSource := by
  unfold afterSource Op.afterSource
  split
  · exact fun m st => implements_setupAddressing .src _ _ _ m st
  · exact .pure fun _ _ => rfl

theorem implements_setupDest (b : Bool) :
    Implements (setupDestAddressing b) (Cpu.setupDestAddressing b) :=
  fun m st => implements_setupAddressing .dest _ _ _ m st

theorem implements_operandHandler {op : Op} (hop : op.isOperand = true) :
    Implements (operandHandler op) (Cpu.handler op) := by
  have hfinish : Implements (fun m => storeAlu op.aluStore m >>= fun m =>
      return op.flagUpdate.apply m) op.finish :=
    .bind (g := op.flagUpdate.apply) (implements_storeAlu _)
      (.pure fun m st => flagUpdate_setMem m st _)
  have hrest : Implements (fun m => fetchOperands m (fetches op) >>= fun operands =>
      storeAlu op.aluStore (m.setAlu (op.value m.psw (operands .src) (operands .dest))) >>= fun m =>
        return op.flagUpdate.apply m) (fun n => op.finish (n.setAlu (op.result n))) := by
    intro m st
    rw [Client.run_bind, run_fetchOperands]
    have hvalue := value_fetches op m.psw fun l => Cpu.fetchData (m.setMem st) (m.loc l)
    simp only [hvalue]
    exact hfinish _ _
  intro m st
  rw [handler_operand hop]
  exact ((implements_afterSource op).bind ((implements_setupDest _).bind hrest)) m st

theorem implements_JMP : Implements JMP Cpu.JMP :=
  .bind (g := fun m => m.setReg .pc (Cpu.fetchData m m.destAddress)) (implements_setupDest false) <|
    .fetch (f := fun w m => m.setReg .pc w) (fun _ _ => rfl) (fun _ _ => rfl) fun _ =>
      .pure fun _ _ => rfl

theorem implements_RTS : Implements RTS Cpu.RTS := by
  intro m st
  let pop (m : Machine) : Machine :=
    let m := m.setReg .pc (fetchRegisterContents m (m.ir &&& 0o7))
    incRegister m m.sp false
  have hpop : (pop m).setMem st = pop (m.setMem st) :=
    incRegister_setMem (m.setReg .pc _) st _ false
  have hmem : (pop m).mem = m.mem := incRegister_mem ..
  have hload (reg : Word) : Implements (fun m => fetchData m (m.sp.setWidth 32) >>= fun w =>
      pure (storeDataRegister m (registerToBusAddr reg) w)) _ :=
    .fetch (f := fun w m => storeDataRegister m (registerToBusAddr reg) w) (fun _ _ => rfl)
      (fun _ _ => rfl) fun w => .pure fun m st => storeDataRegister_setMem m st w _
  have hrun := hload (m.ir &&& 0o7) (pop m) st
  rw [hpop, hmem] at hrun
  exact hrun

/-- What `JSR` does once the register is pushed. -/
def link (reg tmp : Word) (m : Machine) : Machine :=
  let m := decRegister m m.sp false
  let m := storeDataRegister m (registerToBusAddr reg) m.pc
  m.setReg .pc tmp

theorem link_setMem (reg tmp : Word) (m : Machine) (st : ByteStore Addr) :
    (link reg tmp m).setMem st = link reg tmp (m.setMem st) := by
  have hdec : decRegister (m.setMem st) (m.setMem st).sp false
      = (decRegister m m.sp false).setMem st := (decRegister_setMem m st m.sp false).symm
  simp only [link, setReg_setMem, storeDataRegister_setMem, hdec]
  rfl

theorem implements_JSR : Implements JSR Cpu.JSR := by
  have hlink (reg tmp : Word) : Implements (fun m => pure (link reg tmp m)) (link reg tmp) :=
    .pure fun m st => link_setMem reg tmp m st
  have hpush (reg : Word) : Implements (fun m => storeData m (m.sp.setWidth 32)
      (fetchRegisterContents m reg) >>= fun n => pure (link reg (m.destAddress.setWidth 16) n))
      (fun m => link reg (m.destAddress.setWidth 16)
        (Cpu.storeData m (m.sp.setWidth 32) (fetchRegisterContents m reg))) := by
    intro m st
    rw [Client.run_bind, run_storeData, hlink]
    rfl
  intro m st
  have hrun := ((implements_setupDest false).bind (hpush ((m.ir &&& 0o0700) >>> 6))) m st
  exact hrun

/-- The handlers without calls do not look at the store. -/
theorem handler_setMem {op : Op} (hop : op.isOperand = false) (hJMP : op ≠ .JMP)
    (hJSR : op ≠ .JSR) (hRTS : op ≠ .RTS) (m : Machine) (st : ByteStore Addr) :
    (Cpu.handler op m).setMem st = Cpu.handler op (m.setMem st) := by
  have hshape := handler_cases op
  generalize Cpu.handler op = h at hshape
  cases hshape with
  | br hg => rfl
  | branch hg f taken =>
    rw [branch_eq, branch_eq]
    show _ = if taken (f m.psw) then _ else _
    split <;> rfl
  | two hg hn | one hg hn => simp [Op.isOperand, hg, hn] at hop
  | stub hg hn => rfl
  | jmp h => exact absurd h hJMP
  | jsr h => exact absurd h hJSR
  | rts h => exact absurd h hRTS
  | halt h => rfl

theorem implements_handler (op : Op) : Implements (handler op) (Cpu.handler op) := by
  intro m st
  unfold handler
  by_cases hop : op.isOperand = true
  · rw [if_pos hop]
    exact implements_operandHandler hop m st
  · rw [if_neg hop]
    rw [Bool.not_eq_true] at hop
    split
    · exact implements_JMP m st
    · exact implements_JSR m st
    · exact implements_RTS m st
    · next hJMP hJSR hRTS =>
      exact Implements.pure (handler_setMem hop hJMP hJSR hRTS) m st

end Handlers

/-! ### The addresses called -/

/-- What the translation leaves: an address below 01000 or above the store. -/
def Clear (call : Call) : Prop := call.addr.toNat < 0o1000 ∨ 0o177777 < call.addr.toNat

theorem translateBusAddr_clear (a : Addr) :
    (translateBusAddr a).toNat < 0o1000 ∨ 0o177777 < (translateBusAddr a).toNat := by
  unfold translateBusAddr
  split
  · right
    rw [BitVec.toNat_or]
    exact Nat.lt_of_lt_of_le (by decide) Nat.right_le_or
  · next hmask =>
    -- the seven bits from 01000 on are clear, those above them need not be
    have hlow : (a.setWidth 16 : Word) &&& (BitVec.allOnes 16 <<< 9) = 0 := by
      have hcut := congrArg (BitVec.setWidth 16) (not_not.mp hmask)
      rwa [BitVec.setWidth_and] at hcut
    have hlt := (and_allOnes_shiftLeft_eq_zero (a.setWidth 16 : Word)).mp hlow
    rw [BitVec.toNat_setWidth] at hlt
    omega

section Calls

variable (m : Machine) (loc : Loc) (b : Bool) (mode reg : Word)

@[simp] theorem fetchData_allCalls (a : Addr) : (fetchData m a).AllCalls Clear := by
  unfold fetchData
  split
  · trivial
  · exact ⟨translateBusAddr_clear a, fun _ => trivial⟩

@[simp] theorem storeData_allCalls (a : Addr) (v : Word) : (storeData m a v).AllCalls Clear := by
  unfold storeData
  split
  · trivial
  · exact ⟨translateBusAddr_clear a, fun _ => trivial⟩

@[simp] theorem storeDataB_allCalls (a : Addr) (v : Byte) : (storeDataB m a v).AllCalls Clear := by
  unfold storeDataB
  split
  · trivial
  · exact ⟨translateBusAddr_clear a, fun _ => trivial⟩

@[simp] theorem setupAddressing_allCalls :
    (setupAddressing loc b mode reg m).AllCalls Clear := by
  unfold setupAddressing
  split
  · unfold setupPcAddressing
    split <;> simp
  · unfold setupSpAddressing
    split <;> simp
  · unfold generalAddressing
    split
    case h_8 => exact Client.allCalls_bind (fetchData_allCalls ..) fun _ => by simp
    all_goals simp

@[simp] theorem fetchOperands_allCalls (ls : List Loc) : (fetchOperands m ls).AllCalls Clear := by
  induction ls with
  | nil => trivial
  | cons l ls ih => simp [fetchOperands, ih]

theorem handler_allCalls (op : Op) : (handler op m).AllCalls Clear := by
  have hstore (st : AluStore) (m : Machine) : (storeAlu st m).AllCalls Clear := by
    cases st <;> simp [storeAlu]
  have hsource : (afterSource op m).AllCalls Clear := by
    unfold afterSource setupSrcAddressing
    split <;> simp
  unfold handler
  split
  · refine Client.allCalls_bind hsource fun m => Client.allCalls_bind ?_ fun m => ?_
    · exact setupAddressing_allCalls ..
    · simp [hstore]
  · split
    · simp [JMP, setupDestAddressing]
    · simp [JSR, setupDestAddressing]
    · simp [RTS]
    · trivial

theorem iteration_allCalls : (iteration m).AllCalls Clear :=
  Client.allCalls_bind (fetchData_allCalls m _) fun ir => handler_allCalls _ (decode ir)

end Calls

/-! ### Iterations -/

/-- The loop body with its bus calls is the loop body of the machine with the
    store in it. -/
theorem implements_iteration : Implements iteration Cpu.iteration := by
  have hbody (ir : Word) : Implements (fun m => handler (decode ir) (fetched ir m))
      (fun m => Cpu.handler (decode ir) (fetched ir m)) :=
    fun m st => implements_handler (decode ir) (fetched ir m) st
  exact .fetch (f := fun ir m => Cpu.handler (decode ir) (fetched ir m)) (fun _ _ => rfl)
    (fun _ _ => rfl) hbody

/-- **The text of `cpu` over an ideal store.**  Any number of iterations, with
    their bus calls in the order of the source, leave in the registers and in the
    store what the machine with the store in it comes to. -/
theorem execute_over_store (n : ℕ) (m : Machine) (st : ByteStore Addr) :
    (execute n m).run onStore st = ((Cpu.execute n (m.setMem st)).mem,
      (Cpu.execute n (m.setMem st)).setMem m.mem) := by
  induction n generalizing m st with
  | zero => rfl
  | succ n ih =>
    rw [execute, Cpu.execute, Machine.setMem_halted]
    split
    · rfl
    · rw [Client.run_bind, implements_iteration, ih]
      rfl

/-- **Where the processor calls.**  Whatever the bus returns, every call is below
    01000 or above 0177777: `mem` is never asked for a byte past its store. -/
theorem execute_calls_clear (n : ℕ) (m : Machine) : (execute n m).AllCalls Clear := by
  induction n generalizing m with
  | zero => trivial
  | succ n ih =>
    rw [execute]
    split
    · trivial
    · exact Client.allCalls_bind (iteration_allCalls m) ih

end XMachine.Unibus.Program
