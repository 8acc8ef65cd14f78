import XMachine.Lib.Reaches
import XMachine.Unibus.Processor
import XMachine.Unibus.Transactions
import XMachine.Cpu.Branches

namespace XMachine.Guest

open XMachine.Lib XMachine.Cpu XMachine.Unibus.BusMemory XMachine.Unibus.BusMemory.Processor
open XMachine.Unibus.Program (fetchCalls storeCalls addressingCalls operandReads operandWrites
  storeAluCalls operandCalls handlerCalls transactions fetches makes_iteration)

/-!
# Guest programs — rules for instructions

What an iteration of `execute` does where the instruction word is known, and
when the bus serves it.

* `Executes` — the effect of an operand instruction that stores a word;
* `served_iff` — the transactions of the instruction are below 01000;
* `iteration_double`, `iteration_single`, `iteration_branch`, `iteration_halt`
  — the rules.
-/

/-! ### Addresses -/

theorem translateBusAddr_low {a : Addr} (h : a.toNat < 0o1000) : translateBusAddr a = a := by
  have hwide : ((a.setWidth 16 : Word).setWidth 32 : Addr) = a := by
    apply BitVec.eq_of_toNat_eq
    rw [BitVec.toNat_setWidth, BitVec.toNat_setWidth]
    omega
  have hlow : (a.setWidth 16 : Word).toNat < 0o1000 := by
    rw [BitVec.toNat_setWidth]
    omega
  rw [← hwide]
  exact translateBusAddr_of_lt hlow

theorem not_isInternalBusAddr {a : Addr} (h : a.toNat < 0o1000) :
    ¬ isInternalBusAddr a = true := by
  rw [isInternalBusAddr_of_lt (by omega)]
  exact Bool.false_ne_true

theorem fetchCalls_inStore {a : Addr} (h : a.toNat < 0o1000) :
    ∀ call ∈ fetchCalls a, InStore call := by
  intro call hcall
  rw [fetchCalls, if_neg (not_isInternalBusAddr h)] at hcall
  obtain rfl := List.mem_singleton.mp hcall
  rwa [translateBusAddr_low h]

theorem storeCalls_inStore {a : Addr} (v : Word) (h : a.toNat < 0o1000) :
    ∀ call ∈ storeCalls a v, InStore call := by
  intro call hcall
  rw [storeCalls, if_neg (not_isInternalBusAddr h)] at hcall
  obtain rfl := List.mem_singleton.mp hcall
  rw [translateBusAddr_low h]
  exact h

@[simp] theorem fetchCalls_busAddr (r : Reg) : fetchCalls r.busAddr = [] := by
  rw [fetchCalls, if_pos (isInternalBusAddr_busAddr r)]

@[simp] theorem storeCalls_busAddr (r : Reg) (v : Word) : storeCalls r.busAddr v = [] := by
  rw [storeCalls, if_pos (isInternalBusAddr_busAddr r)]

/-! ### What is served -/

theorem iterationCalls_eq (m : Machine) : iterationCalls m = transactions m :=
  makes_iteration (m.setMem noStore) m.mem

theorem served_iff (m : Machine) :
    Served m ↔ m.halted = false ∧ ∀ call ∈ transactions m, InStore call := by
  rw [Served, iterationCalls_eq]

/-! ### Operand instructions -/

/-- The iteration from `m` addresses its operands, which comes to `n`, stores the
    result `v` of `op` at `dst` and sets the flags. -/
structure Executes (op : Op) (m n : Machine) (dst : Addr) (v : Word) : Prop where
  regs : (iteration m).regs
    = Function.update (storeData n dst v).regs .psw (op.flagUpdate.psw m.psw v)
  mem : (iteration m).mem = (storeData n dst v).mem
  halted : (iteration m).halted = m.halted

section Operands

variable {op : Op} {m n : Machine} {s d : Specifier} {w : Word}

theorem storeData_setAlu (n : Machine) (a : Addr) (x v : Word) :
    storeData (n.setAlu x) a v = (storeData n a v).setAlu x := by
  unfold storeData storeDataRegister
  split
  · split <;> rfl
  · rfl

/-- The store and flag phases, `alu` holding `v`. -/
theorem finish_setAlu (hst : op.aluStore = .word) (hd : n.destAddress ≠ Reg.psw.busAddr)
    (v : Word) : op.finish (n.setAlu v) = ((storeData n n.destAddress v).setAlu v).setReg .psw
      (op.flagUpdate.psw n.psw v) := by
  have hstore : AluStore.word.apply (n.setAlu v) = (storeData n n.destAddress v).setAlu v :=
    storeData_setAlu n n.destAddress v v
  have hpsw : (storeData n n.destAddress v).psw = n.psw := storeData_regs_of_ne n v hd
  rw [Op.finish_eq, hst, hstore, ← hpsw]
  rfl

theorem halted_setUp (op : Op) (m : Machine) : (op.setUp m).halted = m.halted := by
  rw [Op.setUp_eq, address_halted, Op.afterSource_eq]
  split
  · exact address_halted ..
  · rfl

/-- The latches of an operand instruction and its effect in terms of them. -/
theorem iteration_operand (hop : op.isOperand = true) (hst : op.aluStore = .word)
    (hw : wordAt m m.pc = w) (hdec : decode w = op) (hd : (Specifier.dest w).present = true) :
    let n := op.setUp (fetched w m)
    n.destAddress = (Specifier.dest w).target (op.afterSource (fetched w m)) ∧
      Executes op m n n.destAddress
        (op.value m.psw (fetchData n n.srcAddress) (fetchData n n.destAddress)) := by
  intro n
  have hdest : n.destAddress = (Specifier.dest w).target (op.afterSource (fetched w m)) := by
    have hlatch := op.setUp_destAddress (fetched w m)
    rwa [fetched_ir, if_pos hd] at hlatch
  have hpsw : n.destAddress ≠ Reg.psw.busAddr := by
    rw [hdest]
    exact Specifier.target_ne_pswBusAddr _ _
  have hresult : op.result n = op.value m.psw (fetchData n n.srcAddress)
      (fetchData n n.destAddress) := by
    rw [Op.result, Op.setUp_psw, fetched_psw]
  have hiter : iteration m = op.finish (n.setAlu (op.result n)) := by
    rw [iteration_eq_executeWord, hw, executeWord,
      execInstruction_operand (by rwa [fetched_ir, hdec]), fetched_ir, hdec]
  rw [← hresult]
  have hkeep : n.psw = m.psw := (Op.setUp_psw ..).trans (fetched_psw w m)
  have hfinish := hiter.trans (finish_setAlu hst hpsw (op.result n))
  rw [hkeep] at hfinish
  refine ⟨hdest, ?_, ?_, ?_⟩
  · rw [hfinish]
    rfl
  · rw [hfinish]
    rfl
  · rw [hiter, Op.finish_halted, Machine.setAlu_halted, halted_setUp]
    rfl

/-- The rule of double-operand instructions. -/
theorem iteration_double (hop : op.isOperand = true) (hg : op.group = .double)
    (hst : op.aluStore = .word) (hw : wordAt m m.pc = op.doubleWord s d)
    (hs : s.present = true) (hd : d.present = true) :
    let f := fetched (op.doubleWord s d) m
    let a := address .src op.useByteAddr s f
    let n := address .dest op.useByteAddr d a
    Executes op m n (d.target a)
      (op.value m.psw (fetchData n (s.target f)) (fetchData n (d.target a))) ∧
    transactions m = fetchCalls (m.pc.setWidth 32) ++ (addressingCalls op.useByteAddr s f ++
      (addressingCalls op.useByteAddr d a ++
        ((fetches op).flatMap (fun l => fetchCalls (if l = .src then s.target f else d.target a)) ++
          storeCalls (d.target a)
            (op.value m.psw (fetchData n (s.target f)) (fetchData n (d.target a)))))) := by
  intro f a n
  have hdec := decode_doubleWord hg s d
  have hsrc := src_doubleWord hg s d
  have hdst := dest_doubleWord hg s d
  have hsource : op.afterSource f = a := by
    rw [Op.afterSource_eq, if_pos hg]
    exact congrArg (fun o => address .src op.useByteAddr o f) hsrc
  have hsetUp : op.setUp f = n := by
    rw [Op.setUp_eq, hsource]
    exact congrArg (fun o => address .dest op.useByteAddr o a) hdst
  have hlatch : n.srcAddress = s.target f :=
    (address_dest_srcAddress ..).trans (address_srcLatch op.useByteAddr f hs)
  obtain ⟨hdest, hexec⟩ := iteration_operand hop hst hw hdec (by rwa [hdst])
  have hdest' : n.destAddress = d.target a := address_destLatch op.useByteAddr a hd
  rw [hsetUp, hlatch, hdest'] at hexec
  refine ⟨hexec, ?_⟩
  have hresult : op.result n
      = op.value m.psw (fetchData n (s.target f)) (fetchData n (d.target a)) := by
    rw [Op.result, hlatch, hdest', ← hsetUp, Op.setUp_psw, fetched_psw]
  have hcalls : handlerCalls op f = operandCalls op f := if_pos hop
  have hloc (l : Loc) : n.loc l = if l = .src then s.target f else d.target a := by
    cases l
    · exact hlatch
    · exact hdest'
  rw [transactions, hw, hdec, hcalls, operandCalls, if_pos hg, hsetUp, hsource, hresult]
  have hir : f.ir = op.doubleWord s d := fetched_ir ..
  simp only [hloc, storeAluCalls, hst, hir, hsrc, hdst, Machine.setAlu_destAddress,
    Machine.setAlu_alu, hdest']

/-- The rule of single-operand instructions. -/
theorem iteration_single (hop : op.isOperand = true) (hg : op.group = .single)
    (hst : op.aluStore = .word) (hw : wordAt m m.pc = op.singleWord d) (hd : d.present = true) :
    let f := fetched (op.singleWord d) m
    let n := address .dest op.useByteAddr d f
    Executes op m n (d.target f) (op.value m.psw 0 (fetchData n (d.target f))) ∧
    transactions m = fetchCalls (m.pc.setWidth 32) ++ (addressingCalls op.useByteAddr d f ++
      ((fetches op).flatMap (fun _ => fetchCalls (d.target f)) ++
        storeCalls (d.target f) (op.value m.psw 0 (fetchData n (d.target f))))) := by
  intro f n
  have hdec := decode_singleWord hg d
  have hdst := dest_singleWord hg d
  have hdouble : op.group ≠ .double := by rw [hg]; nofun
  have hsource : op.afterSource f = f := by rw [Op.afterSource_eq, if_neg hdouble]
  have hsetUp : op.setUp f = n := by
    rw [Op.setUp_eq, hsource]
    exact congrArg (fun o => address .dest op.useByteAddr o f) hdst
  obtain ⟨hdest, hexec⟩ := iteration_operand hop hst hw hdec (by rwa [hdst])
  have hdest' : n.destAddress = d.target f := address_destLatch op.useByteAddr f hd
  have hvalue := Op.value_single hop hg m.psw (fetchData n n.srcAddress) 0
    (fetchData n (d.target f))
  rw [hsetUp, hdest', hvalue] at hexec
  refine ⟨hexec, ?_⟩
  have hresult : op.result n = op.value m.psw 0 (fetchData n (d.target f)) := by
    rw [Op.result, hdest', ← hsetUp, Op.setUp_psw, fetched_psw, hsetUp, hvalue]
  have hcalls : handlerCalls op f = operandCalls op f := if_pos hop
  have hfetches : ∀ l ∈ fetches op, l = .dest := by
    cases op <;> first | exact absurd hg (by decide) | decide
  have hir : f.ir = op.singleWord d := fetched_ir ..
  rw [transactions, hw, hdec, hcalls, operandCalls, if_neg hdouble, hsetUp, hsource, hresult,
    List.nil_append]
  have hloc : (fetches op).flatMap (fun l => fetchCalls (n.loc l))
      = (fetches op).flatMap fun _ => fetchCalls (d.target f) :=
    List.flatMap_congr fun l hl => by rw [hfetches l hl, Machine.loc_dest, hdest']
  simp only [storeAluCalls, hst, hir, hdst, Machine.setAlu_destAddress, Machine.setAlu_alu, hdest',
    hloc]

end Operands

/-! ### Operands -/

namespace Operand

/-- `Rj`. -/
abbrev register (j : Fin 6) : Specifier := .register j

/-- `(Rj)+`. -/
def autoincrement (j : Fin 6) : Specifier := { Specifier.register j with mode := 2 }

/-- `#v`. -/
def immediate : Specifier := ⟨2, 7⟩

/-- A relative address. -/
def relative : Specifier := ⟨6, 7⟩

variable (loc : Loc) (b : Bool) (j : Fin 6) (m : Machine)

@[simp] theorem regs_register : (address loc b (register j) m).regs = m.regs := by
  rw [address_register, Machine.setLoc_regs]

@[simp] theorem regs_autoincrement : (address loc false (autoincrement j) m).regs
    = Function.update m.regs (.general j) (m.regs (.general j) + 2) := by
  fin_cases j <;> cases loc <;> rfl

@[simp] theorem regs_immediate :
    (address loc b immediate m).regs = Function.update m.regs .pc (m.pc + 2) := by
  cases loc <;> rfl

@[simp] theorem regs_relative :
    (address loc b relative m).regs = Function.update m.regs .pc (m.pc + 2) := by
  cases loc <;> rfl

@[simp] theorem mem_register : (address loc b (register j) m).mem = m.mem := by
  rw [address_register, Machine.setLoc_mem]

@[simp] theorem mem_autoincrement : (address loc b (autoincrement j) m).mem = m.mem := by
  fin_cases j <;> cases loc <;> cases b <;> rfl

@[simp] theorem mem_immediate : (address loc b immediate m).mem = m.mem := by
  cases loc <;> rfl

@[simp] theorem mem_relative : (address loc b relative m).mem = m.mem := by
  cases loc <;> rfl

theorem present_register : (register j).present = true := by
  fin_cases j <;> rfl

theorem present_autoincrement : (autoincrement j).present = true := by
  fin_cases j <;> rfl

@[simp] theorem target_register : (register j).target m = (Reg.general j).busAddr := by
  fin_cases j <;> rfl

@[simp] theorem target_autoincrement :
    (autoincrement j).target m = (m.regs (.general j)).setWidth 32 := by
  fin_cases j <;> rfl

@[simp] theorem target_immediate : immediate.target m = m.pc.setWidth 32 := rfl

@[simp] theorem target_relative :
    relative.target m = (m.pc + 2).setWidth 32 + (wordAt m m.pc).setWidth 32 := rfl

@[simp] theorem calls_register : addressingCalls b (register j) m = [] := by
  fin_cases j <;> rfl

@[simp] theorem calls_autoincrement : addressingCalls b (autoincrement j) m = [] := by
  fin_cases j <;> rfl

@[simp] theorem calls_immediate : addressingCalls b immediate m = [] := rfl

@[simp] theorem calls_relative :
    addressingCalls b relative m = fetchCalls (m.pc.setWidth 32) := by
  simp [addressingCalls, operandReads, operandWrites, relative, Specifier.writesBack]

end Operand

/-! ### Branches and `HALT` -/

section Others

variable {op : Op} {m : Machine}

theorem iteration_branch (hg : op.group = .branch) {offset : Byte}
    (hw : wordAt m m.pc = op.branchWord offset) :
    Branches op offset m (iteration m) ∧ transactions m = fetchCalls (m.pc.setWidth 32) := by
  constructor
  · rw [iteration_eq_executeWord, hw]
    exact executeWord_branch hg offset m
  · have hcalls : handlerCalls op (fetched (op.branchWord offset) m) = [] := by
      cases op <;> first | exact absurd hg (by decide) | rfl
    rw [transactions, hw, decode_branchWord hg, hcalls, List.append_nil]

theorem iteration_halt (hw : wordAt m m.pc = 0) :
    iteration m = HALT (fetched 0 m) ∧ transactions m = fetchCalls (m.pc.setWidth 32) := by
  have hdec : decode 0 = .HALT := by decide
  constructor
  · rw [iteration_eq_executeWord, hw, executeWord, execInstruction, fetched_ir, hdec]
    rfl
  · rw [transactions, hw, hdec]
    exact List.append_nil _

end Others

/-! ### The rules -/

/-- The iteration from `m` is served and leaves these registers and this store. -/
structure Iterates (m : Machine) (regs : Reg → Word) (mem : ByteStore Addr) : Prop where
  served : Served m
  regs : (iteration m).regs = regs
  mem : (iteration m).mem = mem
  running : (iteration m).halted = false

section Rules

open Operand

variable {op : Op} {m : Machine}

section

variable {n : Machine} {dst : Addr} {j : Fin 6} {v : Word} {regs : Reg → Word}

/-- A word stored below 01000. -/
theorem Executes.iterates_memory (h : Executes op m n dst v) (hserved : Served m)
    (hdst : dst.toNat < 0o1000) (hregs : n.regs = regs) (hmem : n.mem = m.mem) :
    Iterates m (Function.update regs .psw (op.flagUpdate.psw m.psw v))
      (m.mem.writeWord dst v) := by
  have hstore : storeData n dst v = n.setMem (n.mem.writeWord dst v) := by
    rw [storeData_external n (isInternalBusAddr_of_lt (by omega)), translateBusAddr_low hdst]
  refine ⟨hserved, ?_, ?_, h.halted.trans hserved.1⟩
  · rw [h.regs, hstore, ← hregs]
    rfl
  · rw [h.mem, hstore, ← hmem]
    rfl

/-- A word stored in a register. -/
theorem Executes.iterates_register (h : Executes op m n (Reg.general j).busAddr v)
    (hserved : Served m) (hregs : n.regs = regs) (hmem : n.mem = m.mem) :
    Iterates m (Function.update (Function.update regs (.general j) v) .psw
      (op.flagUpdate.psw m.psw v)) m.mem := by
  refine ⟨hserved, ?_, ?_, h.halted.trans hserved.1⟩
  · rw [h.regs, storeData_busAddr, ← hregs]
    rfl
  · rw [h.mem, storeData_busAddr, ← hmem]
    rfl

end

@[simp] theorem fetched_regs (w : Word) (m : Machine) :
    (fetched w m).regs = Function.update m.regs .pc (m.pc + 2) := rfl

@[simp] theorem wordAt_fetched (w : Word) (m : Machine) (x : Word) :
    wordAt (fetched w m) x = wordAt m x := wordAt_congr (fetched_mem w m) x

/-- The rule of `MOV`. -/
theorem iteration_mov {s d : Specifier} (hw : wordAt m m.pc = Op.MOV.doubleWord s d)
    (hs : s.present = true) (hd : d.present = true) :
    let f := fetched (Op.MOV.doubleWord s d) m
    let a := address .src false s f
    let n := address .dest false d a
    Executes .MOV m n (d.target a) (fetchData n (s.target f)) ∧
    transactions m = fetchCalls (m.pc.setWidth 32) ++ (addressingCalls false s f ++
      (addressingCalls false d a ++ (fetchCalls (s.target f) ++
        storeCalls (d.target a) (fetchData n (s.target f))))) := by
  obtain ⟨hexec, hcalls⟩ :=
    iteration_double (show Op.MOV.isOperand = true from rfl) rfl rfl hw hs hd
  simp only [fetches, List.flatMap_cons, List.flatMap_nil, List.append_nil, if_true] at hcalls
  exact ⟨hexec, hcalls⟩

section

variable {s d : Specifier} {w v : Word} {dst : Addr} {regs : Reg → Word}

/-- `MOV` to memory, its operands and accesses being known. -/
theorem mov_to_memory (hrun : m.halted = false) (hw : wordAt m m.pc = Op.MOV.doubleWord s d)
    (hs : s.present = true) (hd : d.present = true) (hdec : Op.MOV.doubleWord s d = w)
    (hpc : m.pc.toNat + 2 ≤ 0o1000) (hlow : dst.toNat < 0o1000)
    (hdst : d.target (address .src false s (fetched w m)) = dst)
    (hregs : (address .dest false d (address .src false s (fetched w m))).regs = regs)
    (hmem : (address .dest false d (address .src false s (fetched w m))).mem = m.mem)
    (hv : fetchData (address .dest false d (address .src false s (fetched w m)))
      (s.target (fetched w m)) = v)
    (hsrc : ∀ call ∈ addressingCalls false s (fetched w m), InStore call)
    (hdest : ∀ call ∈ addressingCalls false d (address .src false s (fetched w m)), InStore call)
    (hread : ∀ call ∈ fetchCalls (s.target (fetched w m)), InStore call) :
    Iterates m (Function.update regs .psw (Op.MOV.flagUpdate.psw m.psw v))
      (m.mem.writeWord dst v) := by
  obtain ⟨hexec, hcalls⟩ := iteration_mov hw hs hd
  rw [hdec, hv, hdst] at hexec hcalls
  have hserved : Served m := by
    refine (served_iff m).mpr ⟨hrun, ?_⟩
    simp only [hcalls, List.forall_mem_append]
    exact ⟨fetchCalls_inStore (by bv_omega), hsrc, hdest, hread, storeCalls_inStore v hlow⟩
  exact hexec.iterates_memory hserved hlow hregs hmem

/-- `MOV` to a register. -/
theorem mov_to_register (j : Fin 6) (hrun : m.halted = false)
    (hw : wordAt m m.pc = Op.MOV.doubleWord s (register j)) (hs : s.present = true)
    (hdec : Op.MOV.doubleWord s (register j) = w) (hpc : m.pc.toNat + 2 ≤ 0o1000)
    (hregs : (address .src false s (fetched w m)).regs = regs)
    (hmem : (address .src false s (fetched w m)).mem = m.mem)
    (hv : fetchData (address .dest false (register j) (address .src false s (fetched w m)))
      (s.target (fetched w m)) = v)
    (hsrc : ∀ call ∈ addressingCalls false s (fetched w m), InStore call)
    (hread : ∀ call ∈ fetchCalls (s.target (fetched w m)), InStore call) :
    Iterates m (Function.update (Function.update regs (.general j) v) .psw
      (Op.MOV.flagUpdate.psw m.psw v)) m.mem := by
  obtain ⟨hexec, hcalls⟩ := iteration_mov hw hs (present_register j)
  rw [hdec, hv, target_register] at hexec hcalls
  have hserved : Served m := by
    refine (served_iff m).mpr ⟨hrun, ?_⟩
    simp only [hcalls, calls_register, storeCalls_busAddr, List.forall_mem_append]
    exact ⟨fetchCalls_inStore (by bv_omega), hsrc, nofun, hread, nofun⟩
  exact hexec.iterates_register hserved (by rw [regs_register, hregs]) (by rw [mem_register, hmem])

end

/-- `MOV #v, (Rj)+`. -/
theorem mov_immediate_autoincrement (j : Fin 6) (hrun : m.halted = false)
    (hw : wordAt m m.pc = Op.MOV.doubleWord immediate (autoincrement j))
    (hpc : m.pc.toNat + 4 ≤ 0o1000) (hj : (m.regs (.general j)).toNat < 0o1000) :
    let v := wordAt m (m.pc + 2)
    Iterates m (Function.update (Function.update (Function.update m.regs .pc (m.pc + 4))
      (.general j) (m.regs (.general j) + 2)) .psw (Op.MOV.flagUpdate.psw m.psw v))
      (m.mem.writeWord ((m.regs (.general j)).setWidth 32) v) := by
  intro v
  generalize hdec : Op.MOV.doubleWord immediate (autoincrement j) = w
  have hmem : (address .dest false (autoincrement j)
      (address .src false immediate (fetched w m))).mem = m.mem := by simp
  have hsrc : immediate.target (fetched w m) = (m.pc + 2).setWidth 32 := by simp
  refine mov_to_memory hrun hw rfl (present_autoincrement j) hdec (by omega) (by bv_omega)
    (by simp) ?_ hmem ?_ (by simp) (by simp) ?_
  · simp [Machine.pc, BitVec.add_assoc]
  · rw [hsrc]
    exact wordAt_congr hmem _
  · rw [hsrc]
    exact fetchCalls_inStore (by bv_omega)

/-- `MOV #v, Rj`. -/
theorem mov_immediate (j : Fin 6) (hrun : m.halted = false)
    (hw : wordAt m m.pc = Op.MOV.doubleWord immediate (register j))
    (hpc : m.pc.toNat + 4 ≤ 0o1000) :
    let v := wordAt m (m.pc + 2)
    Iterates m (Function.update (Function.update (Function.update m.regs .pc (m.pc + 4))
      (.general j) v) .psw (Op.MOV.flagUpdate.psw m.psw v)) m.mem := by
  intro v
  generalize hdec : Op.MOV.doubleWord immediate (register j) = w
  have hsrc : immediate.target (fetched w m) = (m.pc + 2).setWidth 32 := by simp
  refine mov_to_register j hrun hw rfl hdec (by omega) ?_ (by simp) ?_ (by simp) ?_
  · simp [Machine.pc, BitVec.add_assoc]
  · rw [hsrc]
    exact wordAt_congr (by simp) _
  · rw [hsrc]
    exact fetchCalls_inStore (by bv_omega)

/-- The address a relative operand of the instruction at PC names, `offset` being its word. -/
def relativeAddr (m : Machine) : Word := m.pc + 4 + wordAt m (m.pc + 2)

theorem target_relative_eq {k : Machine} (hk : k.pc = m.pc + 2) (hmem : k.mem = m.mem)
    (hpc : m.pc.toNat + 4 ≤ 0o1000) (hX : (wordAt m (m.pc + 2)).toNat < 0o1000) :
    relative.target k = (relativeAddr m).setWidth 32 := by
  rw [target_relative, hk, wordAt_congr hmem, relativeAddr]
  bv_omega

/-- `MOV A, Rj`. -/
theorem mov_relative_register (j : Fin 6) (hrun : m.halted = false)
    (hw : wordAt m m.pc = Op.MOV.doubleWord relative (register j))
    (hpc : m.pc.toNat + 4 ≤ 0o1000) (hX : (wordAt m (m.pc + 2)).toNat < 0o1000)
    (hsrc : (relativeAddr m).toNat < 0o1000) :
    let v := wordAt m (relativeAddr m)
    Iterates m (Function.update (Function.update (Function.update m.regs .pc (m.pc + 4))
      (.general j) v) .psw (Op.MOV.flagUpdate.psw m.psw v)) m.mem := by
  intro v
  generalize hdec : Op.MOV.doubleWord relative (register j) = w
  have htarget : relative.target (fetched w m) = (relativeAddr m).setWidth 32 :=
    target_relative_eq (fetched_pc w m) rfl hpc hX
  refine mov_to_register j hrun hw rfl hdec (by omega) ?_ (by simp) ?_ ?_ ?_
  · simp [Machine.pc, BitVec.add_assoc]
  · rw [htarget]
    exact wordAt_congr (by simp) _
  · rw [calls_relative, fetched_pc]
    exact fetchCalls_inStore (by bv_omega)
  · rw [htarget]
    exact fetchCalls_inStore (by bv_omega)

/-- `MOV Ri, A`. -/
theorem mov_register_relative (i : Fin 6) (hrun : m.halted = false)
    (hw : wordAt m m.pc = Op.MOV.doubleWord (register i) relative)
    (hpc : m.pc.toNat + 4 ≤ 0o1000) (hX : (wordAt m (m.pc + 2)).toNat < 0o1000)
    (hdst : (relativeAddr m).toNat < 0o1000) :
    let v := m.regs (.general i)
    Iterates m (Function.update (Function.update m.regs .pc (m.pc + 4)) .psw
      (Op.MOV.flagUpdate.psw m.psw v)) (m.mem.writeWord ((relativeAddr m).setWidth 32) v) := by
  intro v
  generalize hdec : Op.MOV.doubleWord (register i) relative = w
  let a := address .src false (register i) (fetched w m)
  have hapc : a.pc = m.pc + 2 := by simp [a, Machine.pc]
  have hregs : (address .dest false relative a).regs = Function.update m.regs .pc (m.pc + 4) := by
    simp [a, Machine.pc, BitVec.add_assoc]
  refine mov_to_memory hrun hw (present_register i) rfl hdec (by omega) (by bv_omega)
    (target_relative_eq hapc (by simp) hpc hX) hregs (by simp) ?_ (by simp) ?_ (by simp)
  · rw [target_register, fetchData_busAddr, hregs]
    simp [v]
  · rw [calls_relative]
    exact fetchCalls_inStore (by rw [hapc]; bv_omega)

/-- A single-operand instruction on `Rj`. -/
theorem single_register (hop : op.isOperand = true) (hg : op.group = .single)
    (hst : op.aluStore = .word) (j : Fin 6) (hrun : m.halted = false)
    (hw : wordAt m m.pc = op.singleWord (register j)) (hpc : m.pc.toNat + 2 ≤ 0o1000) :
    let v := op.value m.psw 0 (m.regs (.general j))
    Iterates m (Function.update (Function.update (Function.update m.regs .pc (m.pc + 2))
      (.general j) v) .psw (op.flagUpdate.psw m.psw v)) m.mem := by
  intro v
  obtain ⟨hexec, hcalls⟩ := iteration_single hop hg hst hw (present_register j)
  generalize op.singleWord _ = w at hexec hcalls
  let n := address .dest op.useByteAddr (register j) (fetched w m)
  have hn : n.regs = Function.update m.regs .pc (m.pc + 2) := by simp [n]
  have hmem : n.mem = m.mem := by simp [n]
  have hv : fetchData n (Reg.general j).busAddr = m.regs (.general j) := by
    rw [fetchData_busAddr, hn]
    simp
  rw [target_register, hv] at hexec hcalls
  have hserved : Served m := by
    refine (served_iff m).mpr ⟨hrun, ?_⟩
    simp only [hcalls, calls_register, fetchCalls_busAddr, storeCalls_busAddr,
      List.forall_mem_append]
    exact ⟨fetchCalls_inStore (by bv_omega), nofun, by simp, nofun⟩
  exact hexec.iterates_register hserved hn hmem

/-- A branch. -/
theorem branch_iterates (hg : op.group = .branch) {offset : Byte} (hrun : m.halted = false)
    (hw : wordAt m m.pc = op.branchWord offset) (hpc : m.pc.toNat + 2 ≤ 0o1000) :
    Iterates m (Function.update m.regs .pc (if op.condition m.psw then
      m.pc + 2 + 2 * offset.signExtend 16 else m.pc + 2)) m.mem := by
  obtain ⟨hbranch, hcalls⟩ := iteration_branch hg hw
  refine ⟨(served_iff m).mpr ⟨hrun, ?_⟩, ?_, hbranch.mem, hbranch.halted.trans hrun⟩
  · rw [hcalls]
    exact fetchCalls_inStore (by bv_omega)
  · funext r
    by_cases hr : r = .pc
    · rw [hr, Function.update_self]
      exact hbranch.pc
    · rw [Function.update_of_ne hr, hbranch.regs r hr]

/-- `HALT` ends the run. -/
theorem halt_ends (hrun : m.halted = false) (hw : wordAt m m.pc = 0)
    (hpc : m.pc.toNat + 2 ≤ 0o1000) :
    Served m ∧ (iteration m).halted = true ∧
      (iteration m).regs = Function.update m.regs .pc (m.pc + 2) ∧ (iteration m).mem = m.mem := by
  obtain ⟨hiter, hcalls⟩ := iteration_halt hw
  refine ⟨(served_iff m).mpr ⟨hrun, ?_⟩, ?_, ?_, ?_⟩
  · rw [hcalls]
    exact fetchCalls_inStore (by bv_omega)
  all_goals
    rw [hiter]
    rfl

/-- What is known of the state after a served iteration goes on from there. -/
theorem Iterates.reaches {regs : Reg → Word} {mem : ByteStore Addr} {Q : Machine → Prop}
    (h : Iterates m regs mem)
    (hQ : ∀ m', m'.regs = regs → m'.mem = mem → m'.halted = false →
      Reaches iteration Served Q m') : Reaches iteration Served Q m :=
  .next h.served (hQ _ h.regs h.mem h.running)

end Rules

end XMachine.Guest
