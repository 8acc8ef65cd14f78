import XMachine.Cpu.Execute
import XMachine.Cpu.Operands

namespace XMachine.Cpu

open XMachine.Lib

/-!
# CPU — subroutine linkage

`JSR` and `RTS` on well-nested code, together with balanced pushes and pops.

* `Body` — a well-nested sequence; `Fetched` says that the processor fetches
  its instructions one after the other, wherever they lie;
* `Linked` — every call returns to the word after it, restores link and SP and
  leaves the words at and above SP as they were;
* `Meets` — the condition under which it does.

The source hands `dec_register` and `inc_register` the value of SP where they
expect a register number, so SP stays put: a call writes its link over the word
on top of the stack, and a nested call writes over its caller's.
-/

/-! ### Well-nested code -/

/-- The registers a subroutine can be linked through: R0–R5 and PC. -/
def Reg.isLink : Reg → Bool
  | .sp | .psw => false
  | _ => true

abbrev Link := { r : Reg // r.isLink = true }

/-- A well-nested sequence of calls, pushes and pops. -/
inductive Body
  | done
  | pushPop (x : Specifier) (y : Fin 6) (inner rest : Body)
  | call (k : Link) (dst : Specifier) (inner rest : Body)

/-- `JSR k, dst` -/
def jsrWord (k : Reg) (dst : Specifier) : Word := 0o004000 ||| k.number <<< 6 ||| dst.word

/-- `RTS k` -/
def rtsWord (k : Reg) : Word := 0o000200 ||| k.number

/-- `MOV x, -(SP)` -/
def pushWord (x : Specifier) : Word := 0o010046 ||| x.word <<< 6

/-- `MOV (SP)+, y` -/
def popWord (y : Fin 6) : Word := 0o012600 ||| (Reg.general y).number

/-- The state after the sequence. -/
def Body.run : Body → Machine → Machine
  | .done, m => m
  | .pushPop _ _ inner rest, m | .call _ _ inner rest, m =>
    rest.run (iteration (inner.run (iteration m)))

/-- Every instruction of the sequence is the one fetched when its turn comes. -/
def Body.Fetched : Body → Machine → Prop
  | .done, _ => True
  | .pushPop x y inner rest, m =>
    let m1 := iteration m
    let m2 := inner.run m1
    wordAt m m.pc = pushWord x ∧ inner.Fetched m1 ∧
      wordAt m2 m2.pc = popWord y ∧ rest.Fetched (iteration m2)
  | .call k dst inner rest, m =>
    let m1 := iteration m
    let m2 := inner.run m1
    wordAt m m.pc = jsrWord k dst ∧ inner.Fetched m1 ∧
      wordAt m2 m2.pc = rtsWord k ∧ rest.Fetched (iteration m2)

/-- No pop goes to the link register of a call it is inside of. -/
def Body.LinksKept : List Link → Body → Prop
  | _, .done => True
  | live, .pushPop _ y inner rest =>
    (∀ k ∈ live, k.val ≠ .general y) ∧ inner.LinksKept live ∧ rest.LinksKept live
  | live, .call k _ inner rest => inner.LinksKept (k :: live) ∧ rest.LinksKept live

/-! ### What linkage promises -/

/-- One call: `m` before `JSR`, `m1` after it, `m2` before `RTS`, `m3` after it. -/
structure Returns (k : Link) (dst : Specifier) (m m1 m2 m3 : Machine) : Prop where
  pc : m3.pc = m.pc + 2 + if dst.hasOperandWord then 2 else 0
  link : k.val ≠ .pc → m3.regs k = m.regs k
  sp : m3.sp = m.sp
  jsr_frame : ∀ r, r ≠ .pc → r ≠ .sp → r ≠ k.val → m1.regs r = m.regs r
  rts_frame : ∀ r, r ≠ .pc → r ≠ .sp → r ≠ k.val → m3.regs r = m2.regs r
  mem : ∀ a, m.sp ≤ a → wordAt m3 a = wordAt m a

/-- Every call of the sequence returns as it should. -/
def Body.Linked : Body → Machine → Prop
  | .done, _ => True
  | .pushPop _ _ inner rest, m =>
    inner.Linked (iteration m) ∧ rest.Linked (iteration (inner.run (iteration m)))
  | .call k dst inner rest, m =>
    let m1 := iteration m
    let m2 := inner.run m1
    Returns k dst m m1 m2 (iteration m2) ∧ inner.Linked m1 ∧ rest.Linked (iteration m2)

/-! ### The condition -/

/-- The bus address of a program address. -/
def busOf (w : Word) : Addr := translateBusAddr (w.setWidth 32)

/-- The word at `w` shares no byte of the bus with a word at or above SP. -/
def Clear (m : Machine) (w : Word) : Prop :=
  ∀ a, m.sp ≤ a → busOf a ≠ busOf w ∧ busOf a ≠ busOf w + 1 ∧
    busOf a + 1 ≠ busOf w ∧ busOf a + 1 ≠ busOf w + 1

/-- A call that works: the value of SP is no register number, or one whose
    register absorbs the step; the word it overwrites already holds what it
    saves; and the destination steps no register, takes the words it should and
    writes no live memory. -/
structure CallOk (k : Link) (dst : Specifier) (m : Machine) : Prop where
  sp : 9 ≤ m.sp.toNat ∨ m.sp = 7 ∨ m.sp = k.val.number
  saved : wordAt m m.sp
    = if k.val = .pc then m.pc + 2 + if dst.hasOperandWord then 2 else 0 else m.regs k
  delta : dst.delta false = 0
  mode : dst ≠ ⟨7, 7⟩
  writes : dst.writesBack = true → Clear m (m.regs dst.gpr)

/-- A push that disturbs no call it is inside of. -/
structure PushOk (live : List Link) (x : Specifier) (m : Machine) : Prop where
  sp : x.gpr = .sp → x.delta false = 0
  links : ∀ k ∈ live, x.gpr = k.val → x.delta false = 0
  writes : x.writesBack = true → Clear m (m.regs x.gpr)
  room : Clear m (m.sp - 2)

/-- Every call works, and so does every push inside a call. -/
def Body.Meets : List Link → Body → Machine → Prop
  | _, .done, _ => True
  | live, .pushPop x _ inner rest, m =>
    (live ≠ [] → PushOk live x m) ∧ inner.Meets live (iteration m) ∧
      rest.Meets live (iteration (inner.run (iteration m)))
  | live, .call k dst inner rest, m =>
    CallOk k dst m ∧ inner.Meets (k :: live) (iteration m) ∧
      rest.Meets live (iteration (inner.run (iteration m)))

/-! ### Instruction words -/

theorem decode_jsrWord {k : Reg} (hk : k.isLink = true) : ∀ dst : Specifier,
    decode (jsrWord k dst) = .JSR ∧ Specifier.dest (jsrWord k dst) = dst ∧
      (jsrWord k dst &&& 0o0700) >>> 6 = k.number := by
  cases k <;> first | exact absurd hk (by decide) | (clear hk; decide +kernel)

theorem decode_rtsWord {k : Reg} (hk : k.isLink = true) :
    decode (rtsWord k) = .RTS ∧ rtsWord k &&& 0o7 = k.number := by
  cases k <;> first | exact absurd hk (by decide) | (clear hk; decide +kernel)

theorem decode_pushWord : ∀ x : Specifier, decode (pushWord x) = .MOV ∧
    Specifier.src (pushWord x) = x ∧ Specifier.dest (pushWord x) = ⟨4, 6⟩ := by
  decide +kernel

theorem decode_popWord : ∀ y : Fin 6, decode (popWord y) = .MOV ∧
    Specifier.src (popWord y) = ⟨2, 6⟩ ∧ (Specifier.dest (popWord y)).mode = 0 ∧
      (Specifier.dest (popWord y)).gpr = .general y := by
  decide +kernel

theorem consumes_eq_hasOperandWord : ∀ o : Specifier, o ≠ ⟨7, 7⟩ →
    o.consumes = o.hasOperandWord := by
  decide

/-! ### Memory at and above SP -/

theorem wordAt_busOf (m : Machine) (a : Word) : wordAt m a = m.mem.readWord (busOf a) :=
  wordAt_eq m a

/-- A write to a clear word leaves the words at and above SP alone. -/
theorem Clear.readWord {m : Machine} {w a : Word} (h : Clear m w) (ha : m.sp ≤ a)
    (st : ByteStore Addr) (v : Word) :
    (st.writeWord (busOf w) v).readWord (busOf a) = st.readWord (busOf a) := by
  obtain ⟨h00, h01, h10, h11⟩ := h a ha
  exact ByteStore.readWord_writeWord_of_disjoint st v h00 h01 h10 h11

/-- There is room below a clear word under SP. -/
theorem Clear.sub_two_le {m : Machine} (h : Clear m (m.sp - 2)) {a : Word} (ha : m.sp ≤ a) :
    m.sp - 2 ≤ a := by
  by_contra hlt
  exact (h (m.sp - 2) (by bv_omega)).1 rfl

/-- Addressing writes only clear words. -/
theorem memAfter_readWord {m : Machine} {o : Specifier} {b : Bool}
    (h : o.writesBack = true → Clear m (m.regs o.gpr)) {a : Word} (ha : m.sp ≤ a) :
    (o.memAfter b m).readWord (busOf a) = m.mem.readWord (busOf a) := by
  unfold Specifier.memAfter
  split
  · next hw => exact (h hw).readWord ha _ _
  · rfl

/-! ### One instruction at a time -/

/-- What the step of the register numbered by SP takes off PC. -/
def slip (sp : Word) : Word := if sp = 7 then 2 else 0

/-- Where the step goes for an admissible value of SP. -/
theorem registerPointer_sp {k : Link} {sp : Word}
    (h : 9 ≤ sp.toNat ∨ sp = 7 ∨ sp = k.val.number) :
    registerPointer sp = none ∧ slip sp = 0 ∨ registerPointer sp = some .pc ∧ slip sp = 2 ∨
      registerPointer sp = some k.val ∧ k.val ≠ .pc ∧ slip sp = 0 := by
  obtain h9 | rfl | rfl := h
  · exact .inl ⟨registerPointer_eq_none h9, if_neg (by bv_omega)⟩
  · exact .inr (.inl ⟨rfl, rfl⟩)
  · by_cases hk : k.val = .pc
    · rw [hk]
      exact .inr (.inl ⟨rfl, rfl⟩)
    · refine .inr (.inr ⟨registerPointer_number _, hk, ?_⟩)
      revert hk
      cases k.val <;> decide

section Step

variable {k : Link} {m : Machine} {sp : Word} (h : 9 ≤ sp.toNat ∨ sp = 7 ∨ sp = k.val.number)

include h

theorem decRegister_sp : (∀ r, r ≠ .pc → r ≠ k.val → (decRegister m sp false).regs r = m.regs r) ∧
    (decRegister m sp false).pc = m.pc - slip sp := by
  obtain ⟨hp, hs⟩ | ⟨hp, hs⟩ | ⟨hp, hk, hs⟩ := registerPointer_sp h <;>
    simp only [decRegister, hp, hs]
  · simp
  · refine ⟨fun r hr _ => by simp [hr], by simp [Machine.pc]⟩
  · refine ⟨fun r _ hr => by simp [hr], by simp [Machine.pc, Ne.symm hk]⟩

theorem incRegister_sp : (∀ r, r ≠ .pc → r ≠ k.val → (incRegister m sp false).regs r = m.regs r) ∧
    (incRegister m sp false).pc = m.pc + slip sp := by
  obtain ⟨hp, hs⟩ | ⟨hp, hs⟩ | ⟨hp, hk, hs⟩ := registerPointer_sp h <;>
    simp only [incRegister, hp, hs]
  · simp
  · refine ⟨fun r hr _ => by simp [hr], by simp [Machine.pc]⟩
  · refine ⟨fun r _ hr => by simp [hr], by simp [Machine.pc, Ne.symm hk]⟩

end Step

theorem Link.ne_sp (k : Link) : k.val ≠ .sp := by
  intro hk
  have := k.property
  rw [hk] at this
  cases this

/-- `JSR` by the fields of its instruction word. -/
theorem JSR_eq (k : Link) (dst : Specifier) {m : Machine} (hir : m.ir = jsrWord k dst) :
    JSR m =
      let n := address .dest false dst m
      let p := storeData n (n.sp.setWidth 32) (n.regs k)
      let q := decRegister p p.sp false
      (q.setReg k q.pc).setReg .pc (n.destAddress.setWidth 16) := by
  obtain ⟨-, hdst, hreg⟩ := decode_jsrWord k.property dst
  rw [JSR, setupDestAddressing_eq, hir, hdst, hreg]
  simp

theorem RTS_eq (k : Link) {m : Machine} (hir : m.ir = rtsWord k) :
    RTS m =
      let p := m.setReg .pc (m.regs k)
      let q := incRegister p p.sp false
      q.setReg k (wordAt q q.sp) := by
  obtain ⟨-, hreg⟩ := decode_rtsWord k.property
  rw [RTS, hir, hreg]
  simp

theorem jsr_step {k : Link} {dst : Specifier} {m : Machine} (hw : wordAt m m.pc = jsrWord k dst)
    (hok : CallOk k dst m) :
    (∀ r, r ≠ .pc → r ≠ k.val → (iteration m).regs r = m.regs r) ∧
      (k.val ≠ .pc → (iteration m).regs k =
        m.pc + 2 + (if dst.hasOperandWord then 2 else 0) - slip m.sp) ∧
      ∀ a, m.sp ≤ a → wordAt (iteration m) a = wordAt m a := by
  have hir : (fetchInstruction m).ir = jsrWord k dst := hw
  have hexec : iteration m = JSR (fetchInstruction m) := by
    rw [iteration, execInstruction, hir, (decode_jsrWord k.property dst).1, handler]
  rw [hexec, JSR_eq k dst hir]
  dsimp only
  -- `n`, after addressing: PC is past the operand word, nothing else has moved.
  have hnreg (r : Reg) (hr : r ≠ .pc) :
      (address .dest false dst (fetchInstruction m)).regs r = m.regs r := by
    rw [address_regs_of_ne _ _ _ _ hr fun _ => hok.delta, fetchInstruction_regs_of_ne m hr]
  have hnpc : (address .dest false dst (fetchInstruction m)).pc
      = m.pc + 2 + if dst.hasOperandWord then 2 else 0 := by
    rw [address_pc, fetchInstruction_pc, consumes_eq_hasOperandWord dst hok.mode]
  have hnmem (a : Word) (ha : m.sp ≤ a) :
      (address .dest false dst (fetchInstruction m)).mem.readWord (busOf a)
        = m.mem.readWord (busOf a) := by
    rw [address_mem]
    refine memAfter_readWord (m := fetchInstruction m) (fun hwr => ?_) ha
    have hne : dst.gpr ≠ .pc := by
      rintro hpc
      have h7 : dst.reg = 7 := Reg.ofFin_injective hpc
      simp [Specifier.writesBack, h7] at hwr
    rw [fetchInstruction_regs_of_ne m hne]
    exact hok.writes hwr
  generalize address .dest false dst (fetchInstruction m) = n at hnreg hnpc hnmem ⊢
  have hnsp : n.sp = m.sp := hnreg .sp (by decide)
  -- The word pushed is the word already there, so the store changes nothing.
  have hlink : n.regs k = n.mem.readWord (busOf m.sp) := by
    rw [hnmem m.sp (BitVec.le_refl _), ← wordAt_busOf, hok.saved]
    by_cases hk : k.val = .pc
    · rw [if_pos hk, hk, ← hnpc]
    · rw [if_neg hk, hnreg _ hk]
  have hstore : storeData n (n.sp.setWidth 32) (n.regs k) = n := by
    rw [storeData_setWidth, hlink, hnsp]
    show n.setMem (n.mem.writeWord (busOf m.sp) (n.mem.readWord (busOf m.sp))) = n
    rw [ByteStore.writeWord_readWord]
    rfl
  obtain ⟨hdreg, hdpc⟩ := decRegister_sp (m := n) hok.sp
  rw [hstore, hnsp]
  refine ⟨fun r hpc hk => ?_, fun hk => ?_, fun a ha => ?_⟩
  · simp [hpc, hk, hdreg r hpc hk, hnreg r hpc]
  · rw [← hnpc, ← hdpc]
    simp [hk]
  · rw [wordAt_busOf, wordAt_busOf, ← hnmem a ha]
    simp

theorem rts_step {k : Link} {m : Machine} (hw : wordAt m m.pc = rtsWord k)
    (hsp : 9 ≤ m.sp.toNat ∨ m.sp = 7 ∨ m.sp = k.val.number) :
    (∀ r, r ≠ .pc → r ≠ k.val → (iteration m).regs r = m.regs r) ∧
      (iteration m).regs k = wordAt m m.sp ∧
      (k.val ≠ .pc → (iteration m).pc = m.regs k + slip m.sp) ∧
      (iteration m).mem = m.mem := by
  have hir : (fetchInstruction m).ir = rtsWord k := hw
  have hexec : iteration m = RTS (fetchInstruction m) := by
    rw [iteration, execInstruction, hir, (decode_rtsWord k.property).1, handler]
  have hreg (r : Reg) (hr : r ≠ .pc) :
      ((fetchInstruction m).setReg .pc ((fetchInstruction m).regs k)).regs r = m.regs r := by
    simp [hr, fetchInstruction_regs_of_ne]
  have hpc : k.val ≠ .pc →
      ((fetchInstruction m).setReg .pc ((fetchInstruction m).regs k)).pc = m.regs k := fun hk => by
    simp [Machine.pc, fetchInstruction_regs_of_ne m hk]
  have hmem : ((fetchInstruction m).setReg .pc ((fetchInstruction m).regs k)).mem = m.mem := rfl
  rw [hexec, RTS_eq k hir]
  dsimp only
  generalize (fetchInstruction m).setReg .pc ((fetchInstruction m).regs k) = p at hreg hpc hmem ⊢
  have hpsp : p.sp = m.sp := hreg .sp (by decide)
  obtain ⟨hireg, hipc⟩ := incRegister_sp (m := p) hsp
  rw [hpsp]
  have hqsp : (incRegister p m.sp false).sp = m.sp :=
    (hireg .sp (by decide) (Ne.symm k.ne_sp)).trans hpsp
  refine ⟨fun r hr hk => ?_, ?_, fun hk => ?_, ?_⟩
  · simp [hk, hireg r hr hk, hreg r hr]
  · rw [hqsp, wordAt_busOf, wordAt_busOf, incRegister_mem, hmem]
    simp
  · rw [← hpc hk, ← hipc]
    simp [Machine.pc, Ne.symm hk]
  · rw [Machine.setReg_mem, incRegister_mem, hmem]

/-! ### Pushes and pops -/

/-- `MOV` after its operands: a store and the flags. -/
theorem iteration_MOV {m : Machine} {x d : Specifier} (hop : decode (wordAt m m.pc) = .MOV)
    (hx : Specifier.src (wordAt m m.pc) = x) (hd : Specifier.dest (wordAt m m.pc) = d) :
    let n := address .dest false d (address .src false x (fetchInstruction m))
    ∃ v p, iteration m = (storeData (n.setAlu v) n.destAddress v).setReg .psw p := by
  have hiter : iteration m
      = twoOperand false (fun s _ => s) .word .zeroNegW (fetchInstruction m) := by
    rw [iteration, execInstruction, fetchInstruction_ir, hop]
    rfl
  rw [twoOperand, setupSrcAddressing_eq, setupDestAddressing_eq, address_ir, fetchInstruction_ir,
    hx, hd, FlagUpdate.apply_eq] at hiter
  exact ⟨_, _, hiter⟩

theorem push_step {live : List Link} {x : Specifier} {m : Machine}
    (hw : wordAt m m.pc = pushWord x) (hok : PushOk live x m) :
    (iteration m).sp = m.sp - 2 ∧
      (∀ k ∈ live, k.val ≠ .pc → (iteration m).regs k = m.regs k) ∧
      ∀ a, m.sp ≤ a → wordAt (iteration m) a = wordAt m a := by
  obtain ⟨hop, hx, hd⟩ := decode_pushWord x
  rw [← hw] at hop hx hd
  obtain ⟨v, p, hiter⟩ := iteration_MOV hop hx hd
  -- After the source: registers in use have not moved, live words have not changed.
  have hreg (r : Reg) (hpc : r ≠ .pc) (hr : r = x.gpr → x.delta false = 0) :
      (address .src false x (fetchInstruction m)).regs r = m.regs r := by
    rw [address_regs_of_ne _ _ _ _ hpc hr, fetchInstruction_regs_of_ne m hpc]
  have hmem (a : Word) (ha : m.sp ≤ a) :
      (address .src false x (fetchInstruction m)).mem.readWord (busOf a)
        = m.mem.readWord (busOf a) := by
    rw [address_mem]
    refine memAfter_readWord (m := fetchInstruction m) (fun hwr => ?_) ha
    have hne : x.gpr ≠ .pc := by
      rintro hpc
      have h7 : x.reg = 7 := Reg.ofFin_injective hpc
      simp [Specifier.writesBack, h7] at hwr
    rw [fetchInstruction_regs_of_ne m hne]
    exact hok.writes hwr
  have hsp : (address .src false x (fetchInstruction m)).sp = m.sp :=
    hreg .sp (by decide) fun h => hok.sp h.symm
  generalize address .src false x (fetchInstruction m) = n at hreg hmem hsp hiter
  -- After the destination: SP is two less and latched.
  have hlatch : (address .dest false ⟨4, 6⟩ n).destAddress = (m.sp - 2).setWidth 32 := by
    rw [address_destLatch false n (by decide), ← hsp]
    rfl
  have hregD (r : Reg) (hr : r ≠ .sp) : (address .dest false ⟨4, 6⟩ n).regs r = n.regs r := by
    simp [address_regs, Specifier.regsAfter, Specifier.consumes, hr]
  have hspD : (address .dest false ⟨4, 6⟩ n).sp = m.sp - 2 := by
    rw [← hsp, Machine.sp, address_regs]
    simp [Specifier.regsAfter, Specifier.consumes, Specifier.delta, BitVec.sub_eq_add_neg]
  have hmemD : (address .dest false ⟨4, 6⟩ n).mem = n.mem := by
    rw [address_mem]
    rfl
  rw [hlatch, storeData_setWidth] at hiter
  rw [hiter]
  refine ⟨?_, fun k hk hpc => ?_, fun a ha => ?_⟩
  · rw [← hspD]
    simp [Machine.sp]
  · have hpsw : k.val ≠ .psw := fun h => by
      have := k.property
      rw [h] at this
      cases this
    simp only [Machine.setReg_regs, Function.update_of_ne hpsw, Machine.setMem_regs,
      Machine.setAlu_regs]
    rw [hregD _ k.ne_sp, hreg _ hpc fun h => hok.links k hk h.symm]
  · rw [wordAt_busOf, wordAt_busOf, ← hmem a ha, ← hmemD]
    exact hok.room.readWord ha _ _

theorem pop_step {y : Fin 6} {m : Machine} (hw : wordAt m m.pc = popWord y) :
    (iteration m).sp = m.sp + 2 ∧
      (∀ k : Link, k.val ≠ .pc → k.val ≠ .general y → (iteration m).regs k = m.regs k) ∧
      (iteration m).mem = m.mem := by
  obtain ⟨hop, hx, hmode, hgpr⟩ := decode_popWord y
  rw [← hw] at hop hx hmode hgpr
  obtain ⟨v, p, hiter⟩ := iteration_MOV hop hx rfl
  generalize Specifier.dest (wordAt m m.pc) = d at hmode hgpr hiter
  have hregS (r : Reg) (hpc : r ≠ .pc) (hr : r ≠ .sp) :
      (address .src false ⟨2, 6⟩ (fetchInstruction m)).regs r = m.regs r := by
    rw [← fetchInstruction_regs_of_ne m hpc]
    simp [address_regs, Specifier.regsAfter, Specifier.consumes, hr]
  have hspS : (address .src false ⟨2, 6⟩ (fetchInstruction m)).sp = m.sp + 2 := by
    rw [Machine.sp, address_regs, Machine.sp,
      ← fetchInstruction_regs_of_ne m (r := .sp) (by decide)]
    simp [Specifier.regsAfter, Specifier.consumes, Specifier.delta]
  have hmemS : (address .src false ⟨2, 6⟩ (fetchInstruction m)).mem = m.mem := by
    rw [address_mem]
    rfl
  generalize address .src false ⟨2, 6⟩ (fetchInstruction m) = n at hregS hspS hmemS hiter
  -- A register destination: addressing it changes nothing, and the store goes to `y`.
  have hd7 : d.reg ≠ 7 := fun h7 => Reg.general_ne_pc y (hgpr ▸ d.gpr_eq_pc h7)
  have hlatch : (address .dest false d n).destAddress = (Reg.general y).busAddr := by
    have hpres : d.present = true := by simp [Specifier.present, hmode, hd7]
    rw [address_destLatch false n hpres, Specifier.target]
    simp [hmode, hgpr, hd7]
  have hregD : (address .dest false d n).regs = n.regs := by
    funext r
    simp [address_regs, Specifier.regsAfter, Specifier.consumes, Specifier.delta, hmode, hd7]
  have hmemD : (address .dest false d n).mem = n.mem := by
    rw [address_mem]
    simp [Specifier.memAfter, Specifier.writesBack, hmode]
  rw [hlatch, storeData_busAddr] at hiter
  rw [hiter]
  refine ⟨?_, fun k hpc hy => ?_, ?_⟩
  · rw [← hspS]
    simp [Machine.sp, hregD, (Reg.general_ne_sp y).symm]
  · have hpsw : k.val ≠ .psw := fun h => by
      have := k.property
      rw [h] at this
      cases this
    simp [hpsw, hy, hregD, hregS _ hpc k.ne_sp]
  · rw [← hmemS, ← hmemD]
    simp

/-! ### Runs -/

/-- What a stretch of code inside the calls `live` leaves alone. -/
structure Kept (live : List Link) (m m' : Machine) : Prop where
  sp : m'.sp = m.sp
  links : ∀ k ∈ live, k.val ≠ .pc → m'.regs k = m.regs k
  mem : ∀ a, m.sp ≤ a → wordAt m' a = wordAt m a

/-- **Linkage.**  A well-nested run that meets the condition returns from every
    call, and inside calls it keeps SP, the live links and the stack above. -/
theorem Body.linked_and_kept {live : List Link} {b : Body} {m : Machine} (hf : b.Fetched m)
    (hl : b.LinksKept live) (hm : b.Meets live m) :
    b.Linked m ∧ (live ≠ [] → Kept live m (b.run m)) := by
  induction b generalizing live m with
  | done => exact ⟨trivial, fun _ => ⟨rfl, fun _ _ _ => rfl, fun _ _ => rfl⟩⟩
  | pushPop x y inner rest ihInner ihRest =>
    obtain ⟨hpush, hfi, hpop, hfr⟩ := hf
    obtain ⟨hy, hli, hlr⟩ := hl
    obtain ⟨hok, hmi, hmr⟩ := hm
    obtain ⟨hlinkI, hkeptI⟩ := ihInner hfi hli hmi
    obtain ⟨hlinkR, hkeptR⟩ := ihRest hfr hlr hmr
    refine ⟨⟨hlinkI, hlinkR⟩, fun hlive => ?_⟩
    obtain ⟨hsp1, hreg1, hmem1⟩ := push_step hpush (hok hlive)
    obtain ⟨hsp3, hreg3, hmem3⟩ := pop_step hpop
    have hI := hkeptI hlive
    have hR := hkeptR hlive
    have hsp : (iteration (inner.run (iteration m))).sp = m.sp := by
      rw [hsp3, hI.sp, hsp1]
      bv_omega
    refine ⟨hR.sp.trans hsp, fun k hk hpc => ?_, fun a ha => ?_⟩
    · calc (rest.run (iteration (inner.run (iteration m)))).regs k
          = (iteration (inner.run (iteration m))).regs k := hR.links k hk hpc
        _ = (inner.run (iteration m)).regs k := hreg3 k hpc (hy k hk)
        _ = (iteration m).regs k := hI.links k hk hpc
        _ = m.regs k := hreg1 k hk hpc
    · have ha1 : (iteration m).sp ≤ a := hsp1 ▸ (hok hlive).room.sub_two_le ha
      calc wordAt (rest.run (iteration (inner.run (iteration m)))) a
          = wordAt (iteration (inner.run (iteration m))) a := hR.mem a (hsp ▸ ha)
        _ = wordAt (inner.run (iteration m)) a := wordAt_congr hmem3 a
        _ = wordAt (iteration m) a := hI.mem a ha1
        _ = wordAt m a := hmem1 a ha
  | call k dst inner rest ihInner ihRest =>
    obtain ⟨hjsr, hfi, hrts, hfr⟩ := hf
    obtain ⟨hli, hlr⟩ := hl
    obtain ⟨hok, hmi, hmr⟩ := hm
    obtain ⟨hlinkI, hkeptI⟩ := ihInner hfi hli hmi
    obtain ⟨hlinkR, hkeptR⟩ := ihRest hfr hlr hmr
    have hI := hkeptI (List.cons_ne_nil k live)
    obtain ⟨hreg1, hret1, hmem1⟩ := jsr_step hjsr hok
    have hsp1 : (iteration m).sp = m.sp := hreg1 .sp (by decide) (Ne.symm k.ne_sp)
    have hsp2 : (inner.run (iteration m)).sp = m.sp := hI.sp.trans hsp1
    obtain ⟨hreg3, hlink3, hpc3, hmem3⟩ := rts_step hrts (by rw [hsp2]; exact hok.sp)
    have hsp3 : (iteration (inner.run (iteration m))).sp = m.sp :=
      (hreg3 .sp (by decide) (Ne.symm k.ne_sp)).trans hsp2
    have hmem (a : Word) (ha : m.sp ≤ a) :
        wordAt (iteration (inner.run (iteration m))) a = wordAt m a :=
      (wordAt_congr hmem3 a).trans ((hI.mem a (hsp1 ▸ ha)).trans (hmem1 a ha))
    -- The word on top of the stack is still the one `JSR` saved.
    have htop : wordAt (inner.run (iteration m)) (inner.run (iteration m)).sp = wordAt m m.sp := by
      rw [hsp2]
      exact (hI.mem m.sp (hsp1 ▸ BitVec.le_refl _)).trans (hmem1 m.sp (BitVec.le_refl _))
    rw [htop, hok.saved] at hlink3
    have hret : Returns k dst m (iteration m) (inner.run (iteration m))
        (iteration (inner.run (iteration m))) := by
      refine ⟨?_, fun hk => ?_, hsp3, fun r hpc _ hr => hreg1 r hpc hr,
        fun r hpc _ hr => hreg3 r hpc hr, hmem⟩
      · by_cases hk : k.val = .pc
        · rw [if_pos hk, hk] at hlink3
          exact hlink3
        · rw [hpc3 hk, hsp2, hI.links k List.mem_cons_self hk, hret1 hk]
          bv_omega
      · rw [hlink3, if_neg hk]
    refine ⟨⟨hret, hlinkI, hlinkR⟩, fun hlive => ?_⟩
    have hR := hkeptR hlive
    refine ⟨hR.sp.trans hsp3, fun j hj hpc => ?_, fun a ha => ?_⟩
    · rw [show (Body.run (.call k dst inner rest) m).regs j
          = (iteration (inner.run (iteration m))).regs j from hR.links j hj hpc]
      by_cases hjk : j.val = k.val
      · rw [hjk]
        exact hret.link (hjk ▸ hpc)
      · rw [hreg3 j hpc hjk, hI.links j (List.mem_cons_of_mem k hj) hpc, hreg1 j hpc hjk]
    · exact (hR.mem a (hsp3 ▸ ha)).trans (hmem a ha)

/-- Subroutine linkage on well-nested code that meets the condition. -/
theorem Body.linked_of_meets (b : Body) (m : Machine) (hf : b.Fetched m) (hl : b.LinksKept [])
    (hm : b.Meets [] m) : b.Linked m :=
  (linked_and_kept hf hl hm).1

/-- Below 01000 the translation aliases nothing, and every push has room. -/
theorem clear_of_le {m : Machine} (hlo : 2 ≤ m.sp) (hhi : m.sp ≤ 0o1000) : Clear m (m.sp - 2) := by
  intro a ha
  have hw : busOf (m.sp - 2) = (m.sp - 2).setWidth 32 := translateBusAddr_of_lt (by bv_omega)
  rw [hw]
  by_cases hlt : a.toNat < 0o1000
  · have hbus : busOf a = a.setWidth 32 := translateBusAddr_of_lt hlt
    rw [hbus]
    bv_omega
  · have hmask : (a.setWidth 32 : Addr) &&& 0o177000 ≠ 0 :=
      mt (and_translateMask_eq_zero a).mp hlt
    have hbus : busOf a = a.setWidth 32 ||| 0o700000 := by
      rw [busOf, translateBusAddr, if_pos hmask]
    have hge : 0o700000 ≤ (busOf a).toNat := by
      rw [hbus, BitVec.toNat_or]
      exact Nat.right_le_or
    have hlt : (busOf a).toNat < 0o1000000 := by
      rw [hbus, BitVec.toNat_or]
      exact Nat.or_lt_two_pow (n := 18) (by have := a.isLt; simp; omega) (by decide)
    bv_omega

/-- A leaf subroutine that saves R0: `jsr r5, (r1)` at 0100, and at 0200
    `mov r0, -(sp); mov (sp)+, r2; rts r5`. -/
def leafCall : Machine :=
  (((initCpu fun a =>
    if a = 0o100 then 0x49 else if a = 0o101 then 0x09
    else if a = 0o200 then 0x26 else if a = 0o201 then 0x10
    else if a = 0o202 then 0x82 else if a = 0o203 then 0x15
    else if a = 0o204 then 0x85 else 0).setReg .pc 0o100).setReg .r1 0o200).setReg .sp 0o400

theorem linked_leafCall :
    (Body.call ⟨.r5, rfl⟩ ⟨1, 1⟩ (.pushPop ⟨0, 0⟩ 2 .done .done) .done).Linked leafCall :=
  Body.linked_of_meets _ _
    ⟨by decide +kernel, ⟨by decide +kernel, trivial, by decide +kernel, trivial⟩,
      by decide +kernel, trivial⟩
    ⟨⟨by decide, trivial, trivial⟩, trivial⟩
    ⟨⟨.inl (by decide +kernel), by decide +kernel, by decide, by decide, nofun⟩,
      ⟨fun _ => ⟨by decide, by decide, nofun, clear_of_le (by decide +kernel) (by decide +kernel)⟩,
        trivial, trivial⟩,
      trivial⟩

/-- Two nested calls: `jsr pc, (r1)` at 0100, `jsr pc, (r2); rts pc` at 0200 and
    `rts pc` at 0300. -/
def nestedCall : Machine :=
  ((((initCpu fun a =>
    if a = 0o100 then 0xc9 else if a = 0o101 then 0x09
    else if a = 0o200 then 0xca else if a = 0o201 then 0x09
    else if a = 0o202 then 0x87 else if a = 0o300 then 0x87
    else 0).setReg .pc 0o100).setReg .r1 0o200).setReg .r2 0o300).setReg .sp 0o400

/-- The outer `rts` finds the inner call's return address on the stack. -/
theorem nestedCall_not_linked :
    ¬ ∀ (b : Body) (m : Machine), b.Fetched m → b.LinksKept [] → b.Linked m := by
  intro h
  have hlinked := h (.call ⟨.pc, rfl⟩ ⟨1, 1⟩ (.call ⟨.pc, rfl⟩ ⟨1, 2⟩ .done .done) .done) nestedCall
    ⟨by decide +kernel, ⟨by decide +kernel, trivial, by decide +kernel, trivial⟩,
      by decide +kernel, trivial⟩
    ⟨⟨trivial, trivial⟩, trivial⟩
  exact absurd hlinked.1.pc (by decide +kernel)

end XMachine.Cpu
