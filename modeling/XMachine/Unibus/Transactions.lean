import XMachine.Unibus.Program

namespace XMachine.Unibus.Program

open XMachine.Lib XMachine.Cpu XMachine.Unibus.BusMemory

/-!
# Transactions — the bus calls of an instruction

Which calls the loop body of `execute` makes, in which order and with which
data, for every instruction and every addressing mode.  The machine told about
has the store in it, as in `Implements`.

* `addressingCalls` — the calls of addressing an operand;
* `operandCalls`, `handlerCalls` — those of a handler;
* `transactions` — those of the loop body of `execute`;
* `execute_transactions`, `execute_calls_length_le` — a run's calls are the
  transactions of its instructions, one after the other, and not more than ten
  for each.
-/

/-! ### Accesses -/

/-- A register is fetched without a call. -/
def fetchCalls (a : Addr) : List Call :=
  if isInternalBusAddr a then [] else [.readDataIn (translateBusAddr a)]

/-- Nor is it stored with one. -/
def storeCalls (a : Addr) (v : Word) : List Call :=
  if isInternalBusAddr a then [] else [.writeDataOut (translateBusAddr a) v]

def storeBCalls (a : Addr) (b : Byte) : List Call :=
  if isInternalBusAddr a then [] else [.writeDataOutB (translateBusAddr a) b]

section Accesses

variable (m : Machine) (st : ByteStore Addr) (a : Addr)

@[simp] theorem fetchCalls_setWidth (w : Word) :
    fetchCalls (w.setWidth 32) = [.readDataIn (translateBusAddr (w.setWidth 32))] := by
  simp [fetchCalls]

@[simp] theorem fetchCalls_add (v w : Word) : fetchCalls (v.setWidth 32 + w.setWidth 32)
    = [.readDataIn (translateBusAddr (v.setWidth 32 + w.setWidth 32))] := by
  simp [fetchCalls]

@[simp] theorem storeCalls_setWidth (w v : Word) :
    storeCalls (w.setWidth 32) v = [.writeDataOut (translateBusAddr (w.setWidth 32)) v] := by
  simp [storeCalls]

@[simp] theorem calls_fetchData : (fetchData m a).calls onStore st = fetchCalls a := by
  unfold fetchData fetchCalls
  split <;> rfl

@[simp] theorem calls_storeData (v : Word) :
    (storeData m a v).calls onStore st = storeCalls a v := by
  unfold storeData storeCalls
  split <;> rfl

@[simp] theorem calls_storeDataB (b : Byte) :
    (storeDataB m a b).calls onStore st = storeBCalls a b := by
  unfold storeDataB storeBCalls
  split <;> rfl

end Accesses

/-! ### Addressing an operand -/

/-- The addresses of the words that addressing fetches. -/
def operandReads (o : Specifier) (m : Machine) : List Addr :=
  let rn := m.regs o.gpr
  let X := wordAt m m.pc
  if o.reg = 7 then
    match o.mode with
    | 3 | 6 => [m.pc.setWidth 32]
    | _ => []
  else if o.reg = 6 then
    match o.mode with
    | 3 => [rn.setWidth 32]
    | 6 => [m.pc.setWidth 32]
    | 7 => [m.pc.setWidth 32, X.setWidth 32 + rn.setWidth 32]
    | _ => []
  else
    match o.mode with
    | 3 | 5 => [rn.setWidth 32, (wordAt m rn).setWidth 32]
    | 6 => [m.pc.setWidth 32, X.setWidth 32 + rn.setWidth 32]
    | 7 => [m.pc.setWidth 32, rn.setWidth 32, (wordAt m rn).setWidth 32 + X.setWidth 32]
    | _ => []

/-- The word that mode 5 on R0–R5 writes. -/
def operandWrites (b : Bool) (o : Specifier) (m : Machine) : List Call :=
  if o.writesBack then
    storeCalls ((m.regs o.gpr).setWidth 32) (wordAt m (m.regs o.gpr) - if b then 1 else 2)
  else []

def addressingCalls (b : Bool) (o : Specifier) (m : Machine) : List Call :=
  (operandReads o m).flatMap fetchCalls ++ operandWrites b o m

section Addressing

open Specifier

variable (loc : Loc) (b : Bool) (m : Machine) (st : ByteStore Addr)

theorem calls_setupPcAddressing (mode : Fin 8) :
    (setupPcAddressing loc (fieldWord mode) (gpr ⟨mode, 7⟩).number m).calls onStore st
      = addressingCalls b ⟨mode, 7⟩ (m.setMem st) := by
  fin_cases mode <;>
    simp [setupPcAddressing, fieldWord, addressingCalls, operandReads, operandWrites, writesBack,
      Machine.pc]

theorem calls_setupSpAddressing (mode : Fin 8) :
    (setupSpAddressing loc (fieldWord mode) (gpr ⟨mode, 6⟩).number m).calls onStore st
      = addressingCalls b ⟨mode, 6⟩ (m.setMem st) := by
  fin_cases mode <;>
    simp [setupSpAddressing, fieldWord, addressingCalls, operandReads, operandWrites, writesBack,
      run_fetchData, advancePc, Machine.sp, Machine.pc]

theorem calls_generalAddressing (mode : Fin 8) {reg : Fin 8} (h6 : reg ≠ 6) (h7 : reg ≠ 7) :
    (generalAddressing b loc (fieldWord mode) (gpr ⟨mode, reg⟩).number m).calls onStore st
      = addressingCalls b ⟨mode, reg⟩ (m.setMem st) := by
  have hpc : Reg.ofFin reg ≠ .pc := gpr_ne_pc ⟨mode, reg⟩ h7
  fin_cases mode <;>
    simp [generalAddressing, fieldWord, addressingCalls, operandReads, operandWrites, writesBack,
      run_fetchData, advancePc, h6, h7, hpc, gpr, Machine.pc, setReg_setMem]

/-- The routine each register class gets. -/
theorem setupAddressing_eq (o : Specifier) :
    setupAddressing loc b (fieldWord o.mode) (fieldWord o.reg) m
      = if o.reg = 7 then setupPcAddressing loc (fieldWord o.mode) o.gpr.number m
        else if o.reg = 6 then setupSpAddressing loc (fieldWord o.mode) o.gpr.number m
        else generalAddressing b loc (fieldWord o.mode) o.gpr.number m := by
  rw [number_gpr]
  obtain ⟨mode, reg⟩ := o
  fin_cases reg <;> rfl

theorem calls_setupAddressing (o : Specifier) :
    (setupAddressing loc b (fieldWord o.mode) (fieldWord o.reg) m).calls onStore st
      = addressingCalls b o (m.setMem st) := by
  rw [setupAddressing_eq]
  obtain ⟨mode, reg⟩ := o
  by_cases h7 : reg = 7
  · subst h7
    exact calls_setupPcAddressing loc b m st mode
  · by_cases h6 : reg = 6
    · subst h6
      exact calls_setupSpAddressing loc b m st mode
    · rw [if_neg h7, if_neg h6]
      exact calls_generalAddressing loc b m st mode h6 h7

theorem calls_setupDest : (setupDestAddressing b m).calls onStore st
    = addressingCalls b (.dest m.ir) (m.setMem st) := by
  obtain ⟨hreg, hmode⟩ := fieldWord_ofWord m.ir 0 (by decide)
  rw [← calls_setupAddressing .dest, Specifier.dest, hreg, hmode]
  rfl

theorem calls_setupSrc : (setupSrcAddressing b m).calls onStore st
    = addressingCalls b (.src m.ir) (m.setMem st) := by
  obtain ⟨hreg, hmode⟩ := fieldWord_ofWord m.ir 6 (by decide)
  rw [← calls_setupAddressing .src, Specifier.src, hreg, hmode]
  rfl

end Addressing

/-! ### Instructions -/

/-- The calls of the store phase. -/
def storeAluCalls : AluStore → Machine → List Call
  | .word, m => storeCalls m.destAddress m.alu
  | .byte, m => storeBCalls m.destAddress (m.alu.setWidth 8)
  | .none, _ | .psw, _ => []

/-- The calls of an operand instruction: the source is addressed, then the
    destination, the operands are fetched, `alu` is stored. -/
def operandCalls (op : Op) (m : Machine) : List Call :=
  let n := op.setUp m
  (if op.group = .double then addressingCalls op.useByteAddr (.src m.ir) m else []) ++
    (addressingCalls op.useByteAddr (.dest m.ir) (op.afterSource m) ++
      ((fetches op).flatMap (fun l => fetchCalls (n.loc l)) ++
        storeAluCalls op.aluStore (n.setAlu (op.result n))))

/-- The calls of the handler, `m` having the store. -/
def handlerCalls (op : Op) (m : Machine) : List Call :=
  if op.isOperand then operandCalls op m
  else
    match op with
    | .JMP =>
      let n := Cpu.setupDestAddressing false m
      addressingCalls false (.dest m.ir) m ++ fetchCalls n.destAddress
    | .JSR =>
      let n := Cpu.setupDestAddressing false m
      addressingCalls false (.dest m.ir) m ++
        storeCalls (n.sp.setWidth 32) (fetchRegisterContents n ((m.ir &&& 0o0700) >>> 6))
    | .RTS =>
      let n := m.setReg .pc (fetchRegisterContents m (m.ir &&& 0o7))
      fetchCalls ((incRegister n n.sp false).sp.setWidth 32)
    | _ => []

/-- The calls of the loop body of `execute`. -/
def transactions (m : Machine) : List Call :=
  fetchCalls (m.pc.setWidth 32) ++
    handlerCalls (decode (wordAt m m.pc)) (fetched (wordAt m m.pc) m)

/-- The code makes these calls, the list told by the machine with the store in it. -/
def Makes (p : Machine → Bus α) (cs : Machine → List Call) : Prop :=
  ∀ m st, (p m).calls onStore st = cs (m.setMem st)

section Instructions

variable {p : Machine → Bus Machine} {f : Machine → Machine} {cs cs' : Machine → List Call}

/-- One piece of code after another. -/
theorem Makes.bind {q : Machine → Bus α} (hp : Makes p cs) (hf : Implements p f)
    (hq : Makes q cs') : Makes (fun m => p m >>= q) (fun m => cs m ++ cs' (f m)) := fun m st => by
  rw [Client.calls_bind, hp, hf, hq]
  rfl

theorem makes_setupDest (b : Bool) :
    Makes (setupDestAddressing b) (fun m => addressingCalls b (.dest m.ir) m) :=
  fun m st => calls_setupDest b m st

theorem makes_afterSource (op : Op) : Makes (afterSource op) (fun m =>
    if op.group = .double then addressingCalls op.useByteAddr (.src m.ir) m else []) := by
  intro m st
  unfold afterSource
  split
  · exact calls_setupSrc op.useByteAddr m st
  · rfl

theorem calls_fetchOperands (m : Machine) (st : ByteStore Addr) (ls : List Loc) :
    (fetchOperands m ls).calls onStore st = ls.flatMap fun l => fetchCalls (m.loc l) := by
  induction ls with
  | nil => rfl
  | cons l ls ih => simp [fetchOperands, Client.calls_bind, run_fetchData, ih]

theorem makes_storeAlu (s : AluStore) : Makes (storeAlu s) (storeAluCalls s) := by
  intro m st
  cases s <;> simp [storeAlu, storeAluCalls]

theorem makes_operandHandler (op : Op) : Makes (operandHandler op) (operandCalls op) := by
  -- what follows once the operands are addressed
  have hrest : Makes (fun n => fetchOperands n (fetches op) >>= fun operands =>
      storeAlu op.aluStore (n.setAlu (op.value n.psw (operands .src) (operands .dest))) >>= fun n =>
        return op.flagUpdate.apply n)
      (fun n => (fetches op).flatMap (fun l => fetchCalls (n.loc l)) ++
        storeAluCalls op.aluStore (n.setAlu (op.result n))) := by
    intro n st
    have hvalue := value_fetches op n.psw fun l => Cpu.fetchData (n.setMem st) (n.loc l)
    rw [Client.calls_bind, calls_fetchOperands, run_fetchOperands, Client.calls_bind,
      makes_storeAlu]
    simp only [hvalue, Client.calls_pure, List.append_nil]
    rfl
  intro m st
  have hcalls := ((makes_afterSource op).bind (implements_afterSource op)
    ((makes_setupDest op.useByteAddr).bind (implements_setupDest _) hrest)) m st
  simp only [Op.afterSource_ir] at hcalls
  exact hcalls

theorem makes_handler (op : Op) : Makes (handler op) (handlerCalls op) := by
  intro m st
  unfold handler handlerCalls
  by_cases hop : op.isOperand = true
  · rw [if_pos hop, if_pos hop]
    exact makes_operandHandler op m st
  · rw [if_neg hop, if_neg hop]
    split
    · have hfetch : Makes (fun n => fetchData n n.destAddress >>= fun target =>
          return n.setReg .pc target) (fun n => fetchCalls n.destAddress) := by
        intro n st
        simp
      exact ((makes_setupDest false).bind (implements_setupDest false) hfetch) m st
    · have hpush (reg : Word) : Makes (fun n => storeData n (n.sp.setWidth 32)
          (fetchRegisterContents n reg) >>= fun k => pure (link reg (n.destAddress.setWidth 16) k))
          (fun n => storeCalls (n.sp.setWidth 32) (fetchRegisterContents n reg)) := by
        intro n st
        rw [Client.calls_bind, calls_storeData]
        exact List.append_nil _
      exact ((makes_setupDest false).bind (implements_setupDest false) (hpush _)) m st
    · have hsp := congrArg Machine.sp (incRegister_setMem
        (m.setReg .pc (fetchRegisterContents m (m.ir &&& 0o7))) st m.sp false)
      rw [RTS, Client.calls_bind, calls_fetchData]
      refine (List.append_nil _).trans (congrArg (fun sp : Word => fetchCalls (sp.setWidth 32)) ?_)
      exact hsp
    · next hJMP hJSR hRTS =>
      cases op with
      | JMP => exact absurd rfl hJMP
      | JSR => exact absurd rfl hJSR
      | RTS => exact absurd rfl hRTS
      | _ => rfl

theorem makes_iteration : Makes iteration transactions := by
  intro m st
  rw [iteration, Client.calls_bind, calls_fetchData, run_fetchData, makes_handler]
  rfl

end Instructions

/-- **What goes over the bus.**  The calls of any number of iterations, in order,
    are the transactions of the ideal machine's instructions, one after the other
    up to its `HALT`. -/
theorem execute_transactions (n : ℕ) (m : Machine) (st : ByteStore Addr) :
    (execute n m).calls onStore st = (List.range n).flatMap fun j =>
      let k := Cpu.execute j (m.setMem st)
      if k.halted then [] else transactions k := by
  induction n generalizing m st with
  | zero => rfl
  | succ n ih =>
    rw [execute, List.range_succ_eq_map, List.flatMap_cons]
    by_cases hhalted : m.halted = true
    · -- nothing runs once halted
      have hstill (j : ℕ) : (Cpu.execute j (m.setMem st)).halted = true := by
        rw [execute_halted j (show (m.setMem st).halted = true from hhalted)]
        exact hhalted
      simp [hhalted, hstill]
    · have hnext (j : ℕ) : Cpu.execute (j + 1) (m.setMem st)
          = Cpu.execute j (Cpu.iteration (m.setMem st)) := if_neg hhalted
      rw [if_neg hhalted, Client.calls_bind, makes_iteration, implements_iteration, ih,
        List.flatMap_map]
      simp only [hnext]
      exact congrArg (· ++ _) (if_neg hhalted).symm

/-! ### How many -/

section Length

variable (b : Bool) (o : Specifier) (op : Op) (m : Machine) (a : Addr)

theorem length_fetchCalls_le : (fetchCalls a).length ≤ 1 := by
  unfold fetchCalls
  split <;> simp

theorem length_flatMap_fetchCalls_le (as : List Addr) :
    (as.flatMap fetchCalls).length ≤ as.length := by
  induction as with
  | nil => exact Nat.le_refl _
  | cons a as ih =>
    have hone := length_fetchCalls_le a
    rw [List.flatMap_cons, List.length_append, List.length_cons]
    omega

theorem length_storeCalls_le (v : Word) : (storeCalls a v).length ≤ 1 := by
  unfold storeCalls
  split <;> simp

/-- Three words at most, mode 5 writing the third. -/
theorem length_addressingCalls_le : (addressingCalls b o m).length ≤ 3 := by
  have hreads : (operandReads o m).length + (if o.writesBack then 1 else 0) ≤ 3 := by
    unfold operandReads
    dsimp only
    split
    · next h7 =>
      have hwrites : o.writesBack = false := by simp [Specifier.writesBack, h7]
      split <;> simp [hwrites]
    · split
      · next h6 =>
        have hwrites : o.writesBack = false := by simp [Specifier.writesBack, h6]
        split <;> simp [hwrites]
      · split
        all_goals
          split <;> simp_all [Specifier.writesBack]
  have hfetch := length_flatMap_fetchCalls_le (operandReads o m)
  rw [addressingCalls, List.length_append]
  unfold operandWrites
  split
  · next hwrites =>
    have hstore := length_storeCalls_le ((m.regs o.gpr).setWidth 32)
      (wordAt m (m.regs o.gpr) - if b then 1 else 2)
    rw [if_pos hwrites] at hreads
    omega
  · rw [List.length_nil]
    omega

theorem length_storeAluCalls_le (s : AluStore) : (storeAluCalls s m).length ≤ 1 := by
  unfold storeAluCalls
  split
  · exact length_storeCalls_le ..
  · unfold storeBCalls
    split <;> simp
  · exact Nat.zero_le 1
  · exact Nat.zero_le 1

theorem length_operandCalls_le : (operandCalls op m).length ≤ 9 := by
  have hfetches : (fetches op).length ≤ 2 := by cases op <;> decide
  have hsource : (if op.group = .double then addressingCalls op.useByteAddr (.src m.ir) m
      else []).length ≤ 3 := by
    split
    · exact length_addressingCalls_le ..
    · exact Nat.zero_le 3
  have hdest := length_addressingCalls_le op.useByteAddr (.dest m.ir) (op.afterSource m)
  have hfetch := length_flatMap_fetchCalls_le ((fetches op).map (op.setUp m).loc)
  have hstore := length_storeAluCalls_le ((op.setUp m).setAlu (op.result (op.setUp m))) op.aluStore
  rw [List.flatMap_map, List.length_map] at hfetch
  simp only [operandCalls, List.length_append]
  omega

theorem length_transactions_le : (transactions m).length ≤ 10 := by
  have hword := length_fetchCalls_le (m.pc.setWidth 32)
  have hhandler (op : Op) (m : Machine) : (handlerCalls op m).length ≤ 9 := by
    unfold handlerCalls
    split
    · exact length_operandCalls_le op m
    · split
      · have haddress := length_addressingCalls_le false (.dest m.ir) m
        have hfetch := length_fetchCalls_le (Cpu.setupDestAddressing false m).destAddress
        rw [List.length_append]
        omega
      · have haddress := length_addressingCalls_le false (.dest m.ir) m
        dsimp only
        have hpush := length_storeCalls_le
          ((Cpu.setupDestAddressing false m).sp.setWidth 32)
          (fetchRegisterContents (Cpu.setupDestAddressing false m) ((m.ir &&& 0o0700) >>> 6))
        rw [List.length_append]
        omega
      · exact Nat.le_trans (length_fetchCalls_le _) (by decide)
      · exact Nat.zero_le 9
  have hcalls := hhandler (decode (wordAt m m.pc)) (fetched (wordAt m m.pc) m)
  rw [transactions, List.length_append]
  omega

end Length

/-- `ADD @X(R1), @X(R1)` makes all ten. -/
example : (transactions (initCpu (ByteStore.writeWord (fun _ => 0) 0 0o067171))).length
    = 10 := by
  decide +kernel

/-- **How much goes over the bus.**  No run makes more than ten calls an iteration. -/
theorem execute_calls_length_le (n : ℕ) (m : Machine) (st : ByteStore Addr) :
    ((execute n m).calls onStore st).length ≤ 10 * n := by
  induction n generalizing m st with
  | zero => exact Nat.le_refl 0
  | succ n ih =>
    rw [execute]
    split
    · exact Nat.zero_le _
    · have hlength := length_transactions_le (m.setMem st)
      have hothers := ih ((iteration m).run onStore st).2 ((iteration m).run onStore st).1
      rw [Client.calls_bind, makes_iteration, List.length_append]
      omega

end XMachine.Unibus.Program
