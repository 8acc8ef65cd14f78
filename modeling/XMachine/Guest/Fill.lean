import XMachine.Guest.Rules
import XMachine.Unibus.AddressMap

namespace XMachine.Guest

open XMachine.Lib XMachine.Cpu XMachine.Unibus.BusMemory XMachine.Unibus.BusMemory.Processor

/-!
# Guest programs — a loop that fills memory

`L: MOV #v, (Rj)+`, `DEC Ri`, `BNE L`, the loop of `movr_inc.s`, anywhere below
01000 and with any two registers.

* `Filling` — its invariant, by the words filled and the turns left;
* `fill_turns` — the loop takes as many turns as there is room for;
* `Filling.not_served` — at 01000 it comes to an end that is none.
-/

/-! ### Stores and code -/

section Stores

variable {m m' : Machine} {x y v : Word}

theorem wordAt_of_write (hmem : m'.mem = m.mem.writeWord (x.setWidth 32) v)
    (hx : x.toNat < 0o1000) : wordAt m' x = v := by
  have hstore : m'.mem = (storeData m (x.setWidth 32) v).mem := by
    rw [hmem, storeData_setWidth, translateBusAddr_of_lt hx]
    rfl
  rw [wordAt_congr hstore]
  exact Unibus.wordAt_storeData_self m v hx

theorem wordAt_of_write_apart (hmem : m'.mem = m.mem.writeWord (x.setWidth 32) v)
    (hx : x.toNat < 0o1000) (hy : y.toNat < 0o1000)
    (hxy : x.toNat + 2 ≤ y.toNat ∨ y.toNat + 2 ≤ x.toNat) : wordAt m' y = wordAt m y := by
  have hstore : m'.mem = (storeData m (x.setWidth 32) v).mem := by
    rw [hmem, storeData_setWidth, translateBusAddr_of_lt hx]
    rfl
  rw [wordAt_congr hstore]
  exact Unibus.wordAt_storeData_of_disjoint m v hx hy hxy

theorem mem_of_write_apart (hmem : m'.mem = m.mem.writeWord (x.setWidth 32) v)
    (hx : x.toNat < 0o1000) {c : Addr} (hc : c.toNat < x.toNat ∨ x.toNat + 2 ≤ c.toNat) :
    m'.mem c = m.mem c := by
  rw [hmem]
  exact ByteStore.writeWord_of_ne _ _ (by bv_omega) (by bv_omega)

/-- A word is where its two bytes are. -/
theorem wordAt_of_bytes (hx : x.toNat < 0o1000)
    (hbytes : ∀ c : Addr, x.toNat ≤ c.toNat → c.toNat < x.toNat + 2 → m'.mem c = m.mem c) :
    wordAt m' x = wordAt m x := by
  rw [wordAt_eq, wordAt_eq, translateBusAddr_of_lt hx, ByteStore.readWord, ByteStore.readWord,
    hbytes _ (by bv_omega) (by bv_omega), hbytes _ (by bv_omega) (by bv_omega)]

end Stores

@[simp] theorem pc_ne_general (j : Fin 6) : Reg.pc ≠ .general j := (Reg.general_ne_pc j).symm

@[simp] theorem psw_ne_general (j : Fin 6) : Reg.psw ≠ .general j := (Reg.general_ne_psw j).symm

/-! ### The loop -/

/-- `L: MOV #v, (Rj)+`, `DEC Ri`, `BNE L` at `q`. -/
structure FillCode (q v : Word) (i j : Fin 6) (m : Machine) : Prop where
  move : wordAt m q = Op.MOV.doubleWord Operand.immediate (Operand.autoincrement j)
  value : wordAt m (q + 2) = v
  count : wordAt m (q + 4) = Op.DEC.singleWord (Operand.register i)
  again : wordAt m (q + 6) = Op.BNE.branchWord 0o374

/-- The loop at `q` and the `n` words at `a` are below 01000 and apart. -/
structure Room (q a : Word) (n : ℕ) : Prop where
  code : q.toNat + 8 ≤ 0o1000
  area : a.toNat + 2 * n ≤ 0o1000
  apart : q.toNat + 8 ≤ a.toNat ∨ a.toNat + 2 * n ≤ q.toNat

/-- The loop has filled `k` words at `a` and has `t` turns left; `m₀` is the state before it. -/
structure Filling (m₀ : Machine) (q a v : Word) (i j : Fin 6) (k t : ℕ) (m : Machine) : Prop where
  running : m.halted = false
  pc : m.pc = if t = 0 then q + 8 else q
  counter : m.regs (.general i) = BitVec.ofNat 16 t
  pointer : m.regs (.general j) = a + BitVec.ofNat 16 (2 * k)
  others : ∀ r, r ≠ .general i → r ≠ .general j → r ≠ .pc → r ≠ .psw → m.regs r = m₀.regs r
  words : ∀ l < k, wordAt m (a + BitVec.ofNat 16 (2 * l)) = v
  frame : ∀ c : Addr, c.toNat < a.toNat ∨ a.toNat + 2 * k ≤ c.toNat → m.mem c = m₀.mem c

section Loop

variable {m₀ m : Machine} {q a v : Word} {i j : Fin 6} {n k t : ℕ}

/-- What is stored in the area leaves the loop as it is. -/
theorem FillCode.of_frame (h : FillCode q v i j m₀) (hroom : Room q a n)
    (hframe : ∀ c : Addr, c.toNat < a.toNat ∨ a.toNat + 2 * n ≤ c.toNat → m.mem c = m₀.mem c) :
    FillCode q v i j m := by
  obtain ⟨hcode, harea, hapart⟩ := hroom
  have hsame (x : Word) (hlo : q.toNat ≤ x.toNat) (hhi : x.toNat + 2 ≤ q.toNat + 8) :
      wordAt m x = wordAt m₀ x :=
    wordAt_of_bytes (by omega) fun c hc hc' => hframe c (by omega)
  refine ⟨?_, ?_, ?_, ?_⟩
  · rw [hsame q (by omega) (by omega), h.move]
  · rw [hsame (q + 2) (by bv_omega) (by bv_omega), h.value]
  · rw [hsame (q + 4) (by bv_omega) (by bv_omega), h.count]
  · rw [hsame (q + 6) (by bv_omega) (by bv_omega), h.again]

/-- One turn: a word is stored, the counter goes down and the branch looks at it. -/
theorem Filling.turn (hij : i ≠ j) (hroom : Room q a (k + 1)) (hcode : FillCode q v i j m₀)
    (ht : t < 65536) (h : Filling m₀ q a v i j k (t + 1) m) :
    Reaches iteration Served (Filling m₀ q a v i j (k + 1) t) m := by
  have hloop : FillCode q v i j m := hcode.of_frame hroom fun c hc => h.frame c (by omega)
  obtain ⟨hroom1, hroom2, hroom3⟩ := id hroom
  have hpc : m.pc = q := by rw [h.pc, if_neg (Nat.succ_ne_zero t)]
  have hptr : (m.regs (.general j)).toNat = a.toNat + 2 * k := by
    rw [h.pointer]
    bv_omega
  have hmove := mov_immediate_autoincrement j h.running (by rw [hpc]; exact hloop.move)
    (by rw [hpc]; omega) (by rw [hptr]; omega)
  rw [hpc, hloop.value] at hmove
  refine hmove.reaches fun m₁ hregs₁ hmem₁ hrun₁ => ?_
  have hframe₁ : ∀ c : Addr, c.toNat < a.toNat ∨ a.toNat + 2 * (k + 1) ≤ c.toNat →
      m₁.mem c = m₀.mem c := by
    intro c hc
    rw [mem_of_write_apart hmem₁ (by omega) (by omega), h.frame c (by omega)]
  have hloop₁ : FillCode q v i j m₁ := hcode.of_frame hroom fun c hc => hframe₁ c (by omega)
  have hpc₁ : m₁.pc = q + 4 := by simp [Machine.pc, hregs₁]
  have hgen : Reg.general i ≠ Reg.general j := Reg.general_injective.ne hij
  -- `DEC Ri`
  have hcount := single_register (show Op.DEC.isOperand = true from rfl) rfl rfl i hrun₁
    (by rw [hpc₁]; exact hloop₁.count) (by rw [hpc₁]; bv_omega)
  have hi₁ : m₁.regs (.general i) = BitVec.ofNat 16 (t + 1) := by
    simp [hregs₁, hgen, h.counter]
  have hvalue : Op.DEC.value m₁.psw 0 (m₁.regs (.general i)) = BitVec.ofNat 16 t := by
    rw [hi₁]
    show BitVec.ofNat 16 (t + 1) - 1 = _
    bv_omega
  rw [hvalue, hpc₁] at hcount
  refine hcount.reaches fun m₂ hregs₂ hmem₂ hrun₂ => ?_
  have hpc₂ : m₂.pc = q + 6 := by
    simp [Machine.pc, hregs₂]
    bv_omega
  have hloop₂ : FillCode q v i j m₂ := hloop₁.of_frame hroom fun c _ => by rw [hmem₂]
  -- `BNE L`
  have hbranch := branch_iterates (show Op.BNE.group = .branch from rfl) hrun₂
    (by rw [hpc₂]; exact hloop₂.again) (by rw [hpc₂]; bv_omega)
  refine hbranch.reaches fun m₃ hregs₃ hmem₃ hrun₃ => .here ?_
  have hzero : m₂.psw.getLsbD 2 = (BitVec.ofNat 16 t == 0) := by
    rw [Machine.psw, hregs₂, Function.update_self, FlagUpdate.getLsbD_psw (by decide), if_pos rfl]
  have hcond : Op.BNE.condition m₂.psw = !decide (t = 0) := by
    have hbit : (BitVec.ofNat 16 t == 0) = decide (t = 0) := by
      rw [Bool.eq_iff_iff, beq_iff_eq, decide_eq_true_iff]
      constructor <;> intro ht <;> bv_omega
    show (!m₂.psw.getLsbD 2) = _
    rw [hzero, hbit]
  refine ⟨hrun₃, ?_, ?_, ?_, ?_, ?_, ?_⟩
  · rw [Machine.pc, hregs₃, Function.update_self, hcond, hpc₂]
    by_cases ht : t = 0
    · simp [ht]
      bv_omega
    · have hback : (0o374 : Byte).signExtend 16 = -4 := by decide
      rw [hback]
      simp [ht]
      bv_omega
  · simp [hregs₃, hregs₂]
  · simp [hregs₃, hregs₂, hregs₁, hgen.symm, h.pointer]
    bv_omega
  · intro r hri hrj hpc hpsw
    simp [hregs₃, hregs₂, hregs₁, hri, hrj, hpc, hpsw, h.others r hri hrj hpc hpsw]
  · intro l hl
    rw [wordAt_congr (hmem₃.trans hmem₂)]
    rcases Nat.lt_succ_iff_lt_or_eq.mp hl with hlt | rfl
    · rw [wordAt_of_write_apart hmem₁ (by omega) (by bv_omega) (by bv_omega), h.words l hlt]
    · rw [← h.pointer]
      exact wordAt_of_write hmem₁ (by omega)
  · intro c hc
    rw [hmem₃, hmem₂, hframe₁ c hc]

/-- The state before the first turn. -/
theorem filling_start (hn : n ≠ 0) (hrun : m.halted = false) (hpc : m.pc = q)
    (hi : m.regs (.general i) = BitVec.ofNat 16 n) (hj : m.regs (.general j) = a) :
    Filling m q a v i j 0 n m where
  running := hrun
  pc := by rw [if_neg hn, hpc]
  counter := hi
  pointer := by simp [hj]
  others _ _ _ _ _ := rfl
  words l hl := absurd hl (Nat.not_lt_zero l)
  frame _ _ := rfl

/-- As many turns as there is room for. -/
theorem fill_turns (hij : i ≠ j) (hn : k + t = n) (hlt : n ≤ 65536) (hroom : Room q a k)
    (hcode : FillCode q v i j m) (h : Filling m q a v i j 0 n m) :
    Reaches iteration Served (Filling m q a v i j k t) m := by
  obtain ⟨hroom1, hroom2, hroom3⟩ := hroom
  have hturns : Reaches iteration Served
      (fun m' => ∃ l, l + (t + 0) = n ∧ Filling m q a v i j l (t + 0) m') m := by
    refine Reaches.loop (I := fun d m' => ∃ l, l + (t + d) = n ∧ Filling m q a v i j l (t + d) m')
      (n := k) ?_ ⟨0, by omega, ?_⟩
    · rintro d m' ⟨l, hl, hfill⟩
      have hroom' : Room q a (l + 1) := ⟨hroom1, by omega, by omega⟩
      have hturn := Filling.turn (t := t + d) hij hroom' hcode (by omega) hfill
      exact hturn.mono fun _ hnext => ⟨l + 1, by omega, hnext⟩
    · rwa [show t + k = n by omega]
  refine hturns.mono fun m' ⟨l, hl, hfill⟩ => ?_
  obtain rfl : l = k := by omega
  exact hfill

/-- At the end of the store the loop asks for a word that nobody has. -/
theorem Filling.not_served (hroom : Room q a k) (hcode : FillCode q v i j m₀)
    (h : Filling m₀ q a v i j k (t + 1) m) (hfull : a.toNat + 2 * k = 0o1000) : ¬ Served m := by
  have hloop : FillCode q v i j m := hcode.of_frame hroom fun c hc => h.frame c (by omega)
  have hpc : m.pc = q := by rw [h.pc, if_neg (Nat.succ_ne_zero t)]
  have hptr : m.regs (.general j) = 0o1000 := by
    rw [h.pointer]
    bv_omega
  have hcalls := (iteration_mov (by rw [hpc]; exact hloop.move) rfl
    (Operand.present_autoincrement j)).2
  intro hserved
  have hlow := ((served_iff m).mp hserved).2
  rw [hcalls] at hlow
  simp only [List.forall_mem_append, Operand.target_autoincrement] at hlow
  obtain ⟨-, -, -, -, hstore⟩ := hlow
  have hreg (w : Word) : (address .src false Operand.immediate (fetched w m)).regs (.general j)
      = 0o1000 := by simp [hptr]
  rw [hreg, Unibus.Program.storeCalls_setWidth] at hstore
  have hfar := hstore _ (List.mem_singleton.mpr rfl)
  have hout : ¬ (translateBusAddr ((0o1000 : Word).setWidth 32)).toNat < 0o1000 := by decide
  exact hout hfar

end Loop

end XMachine.Guest
