import XMachine.Cpu.Branches

namespace XMachine.Cpu

open XMachine.Lib

/-!
# CPU — addition, subtraction and the carry

Laws that several instructions have to agree on.

* `doubleWords_iff` — 32-bit addition and subtraction through `ADC` and `SBC`.
  `ADD` and `SUB` leave C as it was, so the chains are right when C happened to
  be the carry already;
* `addSub_iff` — `SUB` after `ADD`.  `SUB` subtracts the destination from the
  source, so it undoes the addition only for operands that are their own
  negatives.
-/

/-! ### 32-bit arithmetic -/

/-- Two 32-bit numbers in four registers. -/
structure DoubleWords where
  xh : Fin 6
  xl : Fin 6
  yh : Fin 6
  yl : Fin 6
  distinct : [xh, xl, yh, yl].Nodup

namespace DoubleWords

variable (q : DoubleWords) (m : Machine)

def x : BitVec 32 := m.regs (.general q.xh) ++ m.regs (.general q.xl)

def y : BitVec 32 := m.regs (.general q.yh) ++ m.regs (.general q.yl)

/-- `op1 xl, yl ; op2 yh ; op1 xh, yh` -/
def chain (op1 op2 : Op) : Machine :=
  let m := executeWord (op1.doubleWord (.register q.xl) (.register q.yl)) m
  let m := executeWord (op2.singleWord (.register q.yh)) m
  executeWord (op1.doubleWord (.register q.xh) (.register q.yh)) m

/-- `ADD xl, yl ; ADC yh ; ADD xh, yh` leaves the sum in `y`. -/
def Adds : Prop := q.y (q.chain m .ADD .ADC) = q.x m + q.y m

/-- `SUB xl, yl ; SBC yh ; SUB xh, yh` leaves the difference in `y`. -/
def Subtracts : Prop := q.y (q.chain m .SUB .SBC) = q.y m - q.x m

/-- C, before the chain, is the carry out of the low words. -/
def AddHolds : Prop :=
  m.psw.getLsbD 0 = BitVec.uaddOverflow (m.regs (.general q.xl)) (m.regs (.general q.yl))

/-- C, before the chain, is the borrow from the high words, and the two
    differences are 0 or 0100000, which are their own negatives. -/
def SubHolds : Prop :=
  let xl := m.regs (.general q.xl)
  let yl := m.regs (.general q.yl)
  let high := m.regs (.general q.yh) - m.regs (.general q.xh)
    - (BitVec.ofBool (BitVec.usubOverflow yl xl)).setWidth 16
  (yl - xl = 0 ∨ yl - xl = 0o100000) ∧ m.psw.getLsbD 0 = BitVec.usubOverflow yl xl ∧
    (high = 0 ∨ high = 0o100000)

/-- The low word and the high word the chain leaves, for instructions that store
    their result and do not touch C. -/
theorem chain_words (op1 op2 : Op) (h1 : op1.isOperand = true) (hg1 : op1.group = .double)
    (hs1 : op1.aluStore = .word) (hf1 : op1.flagUpdate ≠ .none) (h2 : op2.isOperand = true)
    (hg2 : op2.group = .single) (hs2 : op2.aluStore = .word)
    (hc : ∀ p p' s d, p.getLsbD 0 = p'.getLsbD 0 → op2.value p s d = op2.value p' s d)
    (hp : ∀ p p' s d, op1.value p s d = op1.value p' s d) :
    q.y (q.chain m op1 op2) =
      op1.value 0 (m.regs (.general q.xh)) (op2.value m.psw 0 (m.regs (.general q.yh))) ++
        op1.value 0 (m.regs (.general q.xl)) (m.regs (.general q.yl)) := by
  have hd := q.distinct
  simp only [List.nodup_cons, List.mem_cons, not_or, List.not_mem_nil, or_false] at hd
  obtain ⟨⟨hhl, hhh, hhy⟩, ⟨hlh, hll⟩, hyy, -⟩ := hd
  -- One fact for each instruction of the chain.
  have hfirst := executeWord_double h1 hg1 (by rw [hs1]; nofun) q.xl q.yl m
  generalize hm1 : executeWord (op1.doubleWord (.register q.xl) (.register q.yl)) m = m1 at hfirst
  have hsecond := executeWord_single h2 hg2 (by rw [hs2]; nofun) q.yh m1
  generalize hm2 : executeWord (op2.singleWord (.register q.yh)) m1 = m2 at hsecond
  have hthird := executeWord_double h1 hg1 (by rw [hs1]; nofun) q.xh q.yh m2
  -- The first instruction leaves C to the second as it found it.
  have hcarry : m1.psw.getLsbD 0 = m.psw.getLsbD 0 := by
    rw [hfirst.psw, FlagUpdate.getLsbD_psw hf1, if_neg (by decide), if_neg (by decide)]
  rw [y, chain, hm1, hm2, hthird.dest hs1, hthird.other _ (Ne.symm hyy), hsecond.dest hs2,
    hsecond.other _ (Ne.symm hyy), hsecond.other _ hhh, hfirst.dest hs1, hfirst.other _ hyy,
    hfirst.other _ hhy, hc _ _ _ _ hcarry, hp m2.psw 0, hp m.psw 0]

theorem append_inj {a c b d : Word} : a ++ b = c ++ d ↔ a = c ∧ b = d := by
  constructor
  · intro h
    have hn := congrArg BitVec.toNat h
    rw [toNat_append_eq, toNat_append_eq] at hn
    exact ⟨by bv_omega, by bv_omega⟩
  · rintro ⟨rfl, rfl⟩
    rfl

theorem ofBool_inj {c b : Bool} :
    ((BitVec.ofBool c).setWidth 16 : Word) = (BitVec.ofBool b).setWidth 16 ↔ c = b := by
  revert c b
  decide

/-- `ADC` and `SBC` see C alone. -/
theorem value_carry {p p' : Word} (h : p.getLsbD 0 = p'.getLsbD 0) (s d : Word) :
    Op.ADC.value p s d = Op.ADC.value p' s d ∧ Op.SBC.value p s d = Op.SBC.value p' s d := by
  simp only [Op.value, and_carryFlag, h, and_self]

theorem adds_iff : q.Adds m ↔ q.AddHolds m := by
  have hchain := q.chain_words m .ADD .ADC rfl rfl rfl nofun rfl rfl rfl
    (fun p p' s d h => (value_carry h s d).1) (fun _ _ _ _ => rfl)
  rw [Adds, hchain, AddHolds, x, y, append_add_append, append_inj]
  simp only [Op.value, and_carryFlag]
  rw [← BitVec.add_assoc, BitVec.add_right_inj, ofBool_inj, and_true]

/-- The high words: the borrow has to be the one left in C, for parity. -/
theorem high_difference_iff (a b : Word) (c e : Bool) :
    a - (b - (BitVec.ofBool c).setWidth 16) = b - a - (BitVec.ofBool e).setWidth 16 ↔
      c = e ∧ (b - a - (BitVec.ofBool e).setWidth 16 = 0 ∨
        b - a - (BitVec.ofBool e).setWidth 16 = 0o100000) := by
  have hfalse : ((BitVec.ofBool false).setWidth 16 : Word) = 0 := rfl
  have htrue : ((BitVec.ofBool true).setWidth 16 : Word) = 1 := rfl
  -- With the wrong borrow the two sides differ in their lowest bit.
  cases c <;> cases e <;> simp only [hfalse, htrue, true_and, reduceCtorEq, false_and, iff_false]
  · constructor <;> intro h <;> bv_omega
  · intro h
    bv_omega
  · intro h
    bv_omega
  · constructor <;> intro h <;> bv_omega

theorem subtracts_iff : q.Subtracts m ↔ q.SubHolds m := by
  have hchain := q.chain_words m .SUB .SBC rfl rfl rfl nofun rfl rfl rfl
    (fun p p' s d h => (value_carry h s d).2) (fun _ _ _ _ => rfl)
  -- `SUB` computes the negative of the difference.
  have hlow (a b : Word) : a - b = b - a ↔ b - a = 0 ∨ b - a = 0o100000 := by
    have hneg : a - b = -(b - a) := by bv_omega
    rw [hneg, eq_comm]
    exact eq_neg_iff (b - a)
  rw [Subtracts, hchain, SubHolds, x, y, append_sub_append, append_inj]
  simp only [Op.value, and_carryFlag]
  rw [hlow, high_difference_iff, and_comm]

/-- **When multi-word arithmetic through the carry works.** -/
theorem doubleWords_iff (q : DoubleWords) (m : Machine) :
    (q.Adds m ↔ q.AddHolds m) ∧ (q.Subtracts m ↔ q.SubHolds m) :=
  ⟨q.adds_iff m, q.subtracts_iff m⟩

/-- `x` in R0 and R1, `y` in R2 and R3. -/
def firstFour : DoubleWords := ⟨0, 1, 2, 3, by decide⟩

/-- R1 holding 0177777 and R3 holding 1. -/
def lowCarry : Machine := ((initCpu fun _ => 0).setReg .r1 0o177777).setReg .r3 1

/-- 0177777 + 1 loses the carry. -/
theorem doubleWords_wrong : ¬ ∀ (q : DoubleWords) (m : Machine), q.Adds m ∧ q.Subtracts m := by
  intro h
  have hadd : firstFour.y (firstFour.chain lowCarry .ADD .ADC)
      = firstFour.x lowCarry + firstFour.y lowCarry := (h firstFour lowCarry).1
  exact absurd hadd (by decide)

end DoubleWords

/-! ### Subtraction after addition -/

/-- A specifier that addresses R0–R5 or a memory word, in a mode that the code
    has a case for and that has no side effect. -/
def Specifier.isPlain (o : Specifier) : Bool :=
  o.present && !o.writesBack && o.delta false == 0 && (o.mode != 0 || o.reg.val < 6)

/-- The words at two operand addresses have no part in common. -/
def Apart (a b : Addr) : Prop :=
  a ≠ b ∧ (isInternalBusAddr a = false → isInternalBusAddr b = false →
    translateBusAddr a ≠ translateBusAddr b ∧ translateBusAddr a ≠ translateBusAddr b + 1 ∧
      translateBusAddr a + 1 ≠ translateBusAddr b)

instance (a b : Addr) : Decidable (Apart a b) := inferInstanceAs (Decidable (_ ∧ _))

/-- `op src, dst` at PC, the destination apart from the source. -/
structure OperandPair (op : Op) where
  machine : Machine
  src : Specifier
  dst : Specifier
  fetched : wordAt machine machine.pc = op.doubleWord src dst
  src_plain : src.isPlain = true
  dst_plain : dst.isPlain = true
  apart : let n := op.setUp (fetchInstruction machine)
    Apart n.srcAddress n.destAddress

/-- `ADD src, dst` at PC and `SUB src, dst` behind it, with the same operands:
    whatever `ADD` stores, it overwrites neither the second instruction nor its
    source nor what tells where the destination is.  The source may be an
    immediate, which each instruction has for itself. -/
structure AddSub extends OperandPair .ADD where
  next : ∀ v : Word, let n := Op.ADD.setUp (fetchInstruction machine)
    let m1 := Op.ADD.finish (n.setAlu v)
    wordAt m1 m1.pc = Op.SUB.doubleWord src dst ∧
      fetchData m1 (Op.SUB.setUp (fetchInstruction m1)).srcAddress
        = fetchData machine n.srcAddress ∧
      (Op.SUB.setUp (fetchInstruction m1)).destAddress = n.destAddress

namespace OperandPair

variable {op : Op} (q : OperandPair op)

/-- The state once the operands are addressed. -/
def addressed : Machine := op.setUp (fetchInstruction q.machine)

/-- The operands' words before the instruction. -/
def srcWord : Word := fetchData q.machine q.addressed.srcAddress

def dstWord : Word := fetchData q.machine q.addressed.destAddress

/-- The words found where the operands are, in another state. -/
def srcIn (m : Machine) : Word := fetchData m q.addressed.srcAddress

def dstIn (m : Machine) : Word := fetchData m q.addressed.destAddress

end OperandPair

/-- Two states that differ in PC at most hold the same operands. -/
theorem fetchData_congr {m m' : Machine} (hregs : ∀ r, r ≠ .pc → m'.regs r = m.regs r)
    (hmem : m'.mem = m.mem) {a : Addr} (ha : a ≠ Reg.pc.busAddr) :
    fetchData m' a = fetchData m a := by
  by_cases hint : isInternalBusAddr a = true
  · obtain ⟨r, rfl⟩ := exists_busAddr hint
    rw [fetchData_busAddr, fetchData_busAddr, hregs r fun he => ha (he ▸ rfl)]
  · rw [Bool.not_eq_true] at hint
    rw [fetchData_external m' hint, fetchData_external m hint, hmem]

/-- A store is not seen at an address apart from it. -/
theorem fetchData_storeData_of_apart (m : Machine) {a b : Addr} (h : Apart a b) (v : Word) :
    fetchData (storeData m b v) a = fetchData m a := by
  by_cases ha : isInternalBusAddr a = true
  · obtain ⟨r, rfl⟩ := exists_busAddr ha
    rw [fetchData_busAddr, fetchData_busAddr, storeData_regs_of_ne _ _ h.1.symm]
  · rw [Bool.not_eq_true] at ha
    rw [fetchData_external _ ha, fetchData_external _ ha]
    by_cases hb : isInternalBusAddr b = true
    · obtain ⟨r, rfl⟩ := exists_busAddr hb
      rw [storeData_busAddr, Machine.setReg_mem]
    · -- Both in memory: the two words have no byte in common.
      rw [Bool.not_eq_true] at hb
      obtain ⟨hne, hne1, hsucc⟩ := h.2 ha hb
      rw [storeData_external _ hb, Machine.setMem_mem]
      exact ByteStore.readWord_writeWord_of_disjoint _ _ hne hne1 hsucc
        fun he => hne (add_right_cancel he)

theorem Op.finish_fetch_of_apart {op : Op} (hst : op.aluStore = .word) {n : Machine} {a : Addr}
    (hpsw : a ≠ Reg.psw.busAddr) (h : Apart a n.destAddress) (v : Word) :
    fetchData (op.finish (n.setAlu v)) a = fetchData n a := by
  rw [Op.finish_fetch hpsw, hst]
  exact fetchData_storeData_of_apart (n.setAlu v) h v

/-- Addressing a plain specifier moves PC alone. -/
theorem address_plain {o : Specifier} (h : o.isPlain = true) (loc : Loc) (m : Machine) :
    (∀ r, r ≠ .pc → (address loc false o m).regs r = m.regs r) ∧
      (address loc false o m).mem = m.mem ∧ o.present = true ∧
      ∀ m', o.target m' ≠ Reg.pc.busAddr := by
  simp only [Specifier.isPlain, Bool.and_eq_true, Bool.not_eq_true', beq_iff_eq, Bool.or_eq_true,
    bne_iff_ne, decide_eq_true_eq] at h
  obtain ⟨⟨⟨hp, hw⟩, hd⟩, hreg⟩ := h
  refine ⟨fun r hr => address_regs_of_ne loc false o m hr fun _ => hd, ?_, hp, fun m' => ?_⟩
  · rw [address_mem, Specifier.memAfter, if_neg (by rw [hw]; exact Bool.false_ne_true)]
  · -- Mode 0 of PC is not plain, and an address of memory is no register's.
    obtain ⟨h0, ht⟩ | hlt := o.target_cases m'
    · rw [ht]
      refine Reg.busAddr_injective.ne (o.gpr_ne_pc fun h7 => ?_)
      have hlow := hreg.resolve_left (not_not.mpr h0)
      rw [h7] at hlow
      exact absurd hlow (by decide)
    · intro hpc
      rw [hpc] at hlt
      exact absurd hlt (by decide)

/-- The addressing phases of `ADD` and `SUB` on plain operands. -/
theorem setUp_plain {op : Op} (hg : op.group = .double) (hb : op.useByteAddr = false)
    {s d : Specifier} (hs : s.isPlain = true) (hd : d.isPlain = true) {m : Machine}
    (hir : m.ir = op.doubleWord s d) :
    (∀ a, a ≠ Reg.pc.busAddr → fetchData (op.setUp m) a = fetchData m a) ∧
      (op.setUp m).srcAddress ≠ Reg.pc.busAddr ∧ (op.setUp m).destAddress ≠ Reg.pc.busAddr ∧
      (op.setUp m).srcAddress ≠ Reg.psw.busAddr ∧ (op.setUp m).destAddress ≠ Reg.psw.busAddr := by
  have hsrc := src_doubleWord hg s d
  have hdst := dest_doubleWord hg s d
  obtain ⟨hregs, hmem, hps, hts⟩ := address_plain hs .src m
  obtain ⟨hregs', hmem', hpd, htd⟩ := address_plain hd .dest (address .src false s m)
  have hsa := op.setUp_srcAddress m
  have hda := op.setUp_destAddress m
  rw [hir, hsrc, if_pos ⟨hg, hps⟩] at hsa
  rw [hir, hdst, if_pos hpd] at hda
  refine ⟨fun a ha => ?_, ?_, ?_, ?_, ?_⟩
  · rw [op.setUp_eq, op.afterSource_eq, if_pos hg, hb, hir, hsrc, hdst]
    refine fetchData_congr (fun r hr => ?_) (hmem'.trans hmem) ha
    rw [hregs' r hr, hregs r hr]
  · rw [hsa]
    exact hts m
  · rw [hda]
    exact htd _
  · rw [hsa]
    exact Specifier.target_ne_pswBusAddr s m
  · rw [hda]
    exact Specifier.target_ne_pswBusAddr d _

/-- The operands are not seen to move while the instruction is fetched and they are addressed. -/
theorem fetchData_setUp_fetchInstruction {op : Op} {m : Machine}
    (h : ∀ a, a ≠ Reg.pc.busAddr →
      fetchData (op.setUp (fetchInstruction m)) a = fetchData (fetchInstruction m) a)
    {a : Addr} (ha : a ≠ Reg.pc.busAddr) :
    fetchData (op.setUp (fetchInstruction m)) a = fetchData m a := by
  rw [h a ha]
  exact fetchData_congr (fun r hr => fetchInstruction_regs_of_ne m hr) rfl ha

/-- `ADD` and `SUB`. -/
structure Op.IsSum (op : Op) : Prop where
  operand : op.isOperand = true
  double : op.group = .double
  words : op.useByteAddr = false
  stores : op.aluStore = .word
  value : ∀ p s d, op.value p s d = op.value 0 s d

theorem isSum_add : Op.IsSum .ADD := ⟨rfl, rfl, rfl, rfl, fun _ _ _ => rfl⟩

theorem isSum_sub : Op.IsSum .SUB := ⟨rfl, rfl, rfl, rfl, fun _ _ _ => rfl⟩

/-- One iteration of a sum on plain operands, from the words they held before it. -/
theorem sum_iteration {op : Op} (hop : op.IsSum) {s d : Specifier} (hs : s.isPlain = true)
    (hd : d.isPlain = true) {m : Machine} (hw : wordAt m m.pc = op.doubleWord s d) :
    let n := op.setUp (fetchInstruction m)
    let v := op.value 0 (fetchData m n.srcAddress) (fetchData m n.destAddress)
    iteration m = op.finish (n.setAlu v) ∧ fetchData (iteration m) n.destAddress = v ∧
      (Apart n.srcAddress n.destAddress →
        fetchData (iteration m) n.srcAddress = fetchData m n.srcAddress) := by
  have hir : (fetchInstruction m).ir = op.doubleWord s d := hw
  obtain ⟨hfetch, hsrc, hdst, hpsw', hpsw⟩ := setUp_plain hop.double hop.words hs hd hir
  have hdec : decode (fetchInstruction m).ir = op := by rw [hir, decode_doubleWord hop.double]
  -- The operands are read where they were before the instruction was fetched.
  have hiter : iteration m = op.finish ((op.setUp (fetchInstruction m)).setAlu
      (op.value 0 (fetchData m (op.setUp (fetchInstruction m)).srcAddress)
        (fetchData m (op.setUp (fetchInstruction m)).destAddress))) := by
    rw [iteration, execInstruction_operand (by rw [hdec, hop.operand]), hdec, Op.result, hop.value,
      fetchData_setUp_fetchInstruction hfetch hsrc, fetchData_setUp_fetchInstruction hfetch hdst]
  refine ⟨hiter, ?_, fun hapart => ?_⟩
  · rw [hiter]
    exact Op.finish_fetch_word hop.stores hpsw
  · rw [hiter]
    exact (Op.finish_fetch_of_apart hop.stores hpsw' hapart _).trans
      (fetchData_setUp_fetchInstruction hfetch hsrc)

/-- **What the instruction leaves**: its result at the destination, the source as it was. -/
theorem OperandPair.iteration_words {op : Op} (q : OperandPair op) (hop : op.IsSum) :
    q.dstIn (iteration q.machine) = op.value 0 q.srcWord q.dstWord ∧
      q.srcIn (iteration q.machine) = q.srcWord := by
  obtain ⟨-, hdst, hsrc⟩ := sum_iteration hop q.src_plain q.dst_plain q.fetched
  exact ⟨hdst, hsrc q.apart⟩

/-- What `SUB` leaves at the destination `ADD` wrote. -/
theorem AddSub.dstIn_sub (q : AddSub) :
    q.dstIn (iteration (iteration q.machine)) = q.srcWord - (q.srcWord + q.dstWord) := by
  obtain ⟨hiter, hdst, -⟩ := sum_iteration isSum_add q.src_plain q.dst_plain q.fetched
  obtain ⟨hnext, hsame, hsame'⟩ := q.next (q.srcWord + q.dstWord)
  -- The state `q.next` speaks of is the one after `ADD`.
  change iteration q.machine = Op.ADD.finish (q.addressed.setAlu (q.srcWord + q.dstWord)) at hiter
  rw [OperandPair.addressed] at hiter
  rw [← hiter] at hnext hsame hsame'
  obtain ⟨-, hsub, -⟩ := sum_iteration isSum_sub q.src_plain q.dst_plain hnext
  rw [hsame, hsame'] at hsub
  rw [OperandPair.dstIn, OperandPair.addressed, hsub]
  exact congrArg (q.srcWord - ·) hdst

/-- A word is its own negative. -/
def OwnNegative (v : Word) : Prop := v = 0 ∨ v = 0o100000

instance (v : Word) : Decidable (OwnNegative v) := inferInstanceAs (Decidable (_ ∨ _))

theorem ownNegative_iff (v : Word) : OwnNegative v ↔ v = -v := (eq_neg_iff v).symm

/-- **When `SUB` undoes `ADD`, and when it subtracts.**  The source always stays
    as it is. -/
theorem addSub_iff (p : AddSub) (q : OperandPair .SUB) :
    (p.dstIn (iteration (iteration p.machine)) = p.dstWord ↔ OwnNegative p.dstWord) ∧
      (q.dstIn (iteration q.machine) = q.dstWord - q.srcWord ↔
        OwnNegative (q.dstWord - q.srcWord)) ∧
      q.srcIn (iteration q.machine) = q.srcWord := by
  obtain ⟨hdst, hsrc⟩ := q.iteration_words isSum_sub
  refine ⟨?_, ?_, hsrc⟩
  · have hneg : p.srcWord - (p.srcWord + p.dstWord) = -p.dstWord := by bv_omega
    rw [p.dstIn_sub, hneg, ownNegative_iff, eq_comm]
  · have hneg : q.srcWord - q.dstWord = -(q.dstWord - q.srcWord) := by bv_omega
    rw [hdst, Op.value, hneg, ownNegative_iff, eq_comm]

/-- 3 in R1 and 10 in R0, with `ADD R1, R0` at address 0 and `SUB R1, R0` at 2. -/
def threeAndTen (pc : Word) : Machine :=
  let st := ByteStore.writeWord (ByteStore.writeWord (fun _ => 0) 0 0o060100) 2 0o160100
  ((start st pc).setReg .r1 3).setReg .r0 10

def subThree : OperandPair .SUB where
  machine := threeAndTen 2
  src := .register 1
  dst := .register 0
  fetched := by decide
  src_plain := rfl
  dst_plain := rfl
  apart := by decide

/-- A sum that goes to R0 leaves memory and the registers but R0 and PSW. -/
theorem finish_add_r0 {n : Machine} (hd : n.destAddress = Reg.r0.busAddr) (v : Word) :
    (∀ a, wordAt (Op.ADD.finish (n.setAlu v)) a = wordAt n a) ∧
      ∀ r, r ≠ .psw → r ≠ .r0 → (Op.ADD.finish (n.setAlu v)).regs r = n.regs r := by
  have hd' : (n.setAlu v).destAddress = Reg.r0.busAddr := by rw [Machine.setAlu_destAddress, hd]
  constructor
  · refine fun a => wordAt_congr ?_ a
    rw [Op.finish_mem, show Op.ADD.aluStore = .word from rfl, AluStore.apply, hd',
      storeData_busAddr, Machine.setReg_mem, Machine.setAlu_mem]
  · intro r hpsw hr
    exact Op.finish_reg hpsw (by rw [hd']; exact fun he => hr (Reg.busAddr_injective he).symm)

def addSubThree : AddSub where
  machine := threeAndTen 0
  src := .register 1
  dst := .register 0
  fetched := by decide
  src_plain := rfl
  dst_plain := rfl
  apart := by decide
  next v := by
    have hd : (Op.ADD.setUp (fetchInstruction (threeAndTen 0))).destAddress = Reg.r0.busAddr := by
      decide
    obtain ⟨hword, hregs⟩ := finish_add_r0 hd v
    dsimp only
    generalize Op.ADD.finish
      ((Op.ADD.setUp (fetchInstruction (threeAndTen 0))).setAlu v) = m at hword hregs ⊢
    have hpc : m.pc = 2 := (hregs .pc nofun nofun).trans (by decide)
    have hr1 : m.regs .r1 = 3 := (hregs .r1 nofun nofun).trans (by decide)
    have hw : wordAt m m.pc = Op.SUB.doubleWord (.register 1) (.register 0) := by
      rw [hpc, hword]
      decide
    refine ⟨hw, ?_, ?_⟩
    · have hsrc : (Op.SUB.setUp (fetchInstruction m)).srcAddress = Reg.r1.busAddr := by
        rw [Op.setUp_srcAddress, fetchInstruction_ir, hw]
        rfl
      rw [hsrc, fetchData_busAddr, hr1]
      decide
    · rw [Op.setUp_destAddress, fetchInstruction_ir, hw]
      rfl

/-- `ADD $3, R0` at address 0 and `SUB $3, R0` at 4. -/
def immediates : Machine :=
  let st := ByteStore.writeWord (ByteStore.writeWord (fun _ => 0) 0 0o062700) 2 3
  (start (ByteStore.writeWord (ByteStore.writeWord st 4 0o162700) 6 3) 0).setReg .r0 10

/-- Each instruction has a source word of its own, of the same value. -/
def addSubImmediate : AddSub where
  machine := immediates
  src := ⟨2, 7⟩
  dst := .register 0
  fetched := by decide
  src_plain := rfl
  dst_plain := rfl
  apart := by decide
  next v := by
    have hd : (Op.ADD.setUp (fetchInstruction immediates)).destAddress = Reg.r0.busAddr := by
      decide
    obtain ⟨hword, hregs⟩ := finish_add_r0 hd v
    dsimp only
    generalize Op.ADD.finish
      ((Op.ADD.setUp (fetchInstruction immediates)).setAlu v) = m at hword hregs ⊢
    have hpc : m.pc = 4 := (hregs .pc nofun nofun).trans (by decide)
    have hw : wordAt m m.pc = Op.SUB.doubleWord ⟨2, 7⟩ (.register 0) := by
      rw [hpc, hword]
      decide
    refine ⟨hw, ?_, ?_⟩
    · have hsrc : (Op.SUB.setUp (fetchInstruction m)).srcAddress
          = (6 : Word).setWidth 32 := by
        rw [Op.setUp_srcAddress, fetchInstruction_ir, hw]
        show (fetchInstruction m).pc.setWidth 32 = _
        rw [fetchInstruction_pc, hpc]
        rfl
      rw [hsrc]
      exact (hword 6).trans (by decide)
    · rw [Op.setUp_destAddress, fetchInstruction_ir, hw]
      rfl

example : addSubImmediate.dstIn (iteration (iteration addSubImmediate.machine)) = -10 := by
  decide

/-- `SUB R1, R0` leaves -7 in R0, and -10 after `ADD R1, R0`. -/
theorem subThree_wrong :
    (¬ ∀ q : AddSub, q.dstIn (iteration (iteration q.machine)) = q.dstWord) ∧
    ¬ ∀ q : OperandPair .SUB, q.dstIn (iteration q.machine) = q.dstWord - q.srcWord ∧
      q.srcIn (iteration q.machine) = q.srcWord := by
  constructor
  · intro h
    exact absurd (h addSubThree) (by decide)
  · intro h
    exact absurd (h subThree).1 (by decide)

end XMachine.Cpu
