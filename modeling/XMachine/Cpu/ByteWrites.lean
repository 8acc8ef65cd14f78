import XMachine.Cpu.Flags
import Mathlib.Data.BitVec

namespace XMachine.Cpu

open XMachine.Lib

/-!
# CPU — what a byte instruction writes

A byte instruction should write one byte (`OneByte`): no other byte of memory,
no high half of a register, and one step of an autoincrement.  The code does so
exactly where `OneByteHolds`:

* `ASLB` stores the word of `alu`, with the bit shifted out in its high byte;
* `store_data_b` clears the high byte of a register, for `MOVB` too;
* mode 5 counts the pointer in memory down and not the register;
* `COMB` asks for the word addressing and steps by two.

The main result is `byteWrites_iff`.
-/

/-! ### One byte -/

/-- The instructions that write a byte. -/
def Op.writesByte : Op → Bool
  | .ADCB | .ASLB | .ASRB | .BICB | .BISB | .CLRB | .COMB | .DECB | .INCB | .MOVB | .NEGB
  | .ROLB | .RORB | .SBCB => true
  | _ => false

/-- What modes 2 and 4 on R0–R5 should add to the register of a byte operand. -/
def Specifier.byteStep (o : Specifier) : Option Word :=
  if o.reg = 6 ∨ o.reg = 7 then none
  else if o.mode = 2 then some 1
  else if o.mode = 4 then some (-1)
  else none

section

variable (w : Word) (m : Machine)

/-- The state once the source is addressed. -/
def sourceAddressed : Machine := (decode w).afterSource (fetched w m)

/-- The state once both operands are addressed. -/
def addressed : Machine := (decode w).setUp (fetched w m)

/-- The byte instruction `w` writes one byte.  Its destination is where
    `dest_address` points once the operands are addressed. -/
structure OneByte : Prop where
  /-- A memory destination: no other byte of memory changes. -/
  memory : isInternalBusAddr (addressed w m).destAddress = false →
    ∀ c, c ≠ translateBusAddr (addressed w m).destAddress → (executeWord w m).mem c = m.mem c
  /-- A register destination: the high byte is kept. -/
  keeps : decode w ≠ .MOVB → isInternalBusAddr (addressed w m).destAddress = true →
    highByte (fetchData (executeWord w m) (addressed w m).destAddress) =
      highByte (fetchData (addressed w m) (addressed w m).destAddress)
  /-- `MOVB` to a register: the byte is sign-extended. -/
  signExtends : decode w = .MOVB → isInternalBusAddr (addressed w m).destAddress = true →
    fetchData (executeWord w m) (addressed w m).destAddress =
      (lowByte (fetchData (addressed w m) (addressed w m).srcAddress)).signExtend 16
  /-- The register of the source moves by one, and stays there unless the
      destination names it too. -/
  source : ∀ v, (decode w).group = .double → (Specifier.src w).byteStep = some v →
    (sourceAddressed w m).regs (Specifier.src w).gpr = m.regs (Specifier.src w).gpr + v ∧
      ((Specifier.src w).gpr ≠ (Specifier.dest w).gpr →
        (addressed w m).destAddress ≠ (Specifier.src w).gpr.busAddr →
          (executeWord w m).regs (Specifier.src w).gpr = m.regs (Specifier.src w).gpr + v)
  /-- The register of the destination moves by one. -/
  dest : ∀ v, (Specifier.dest w).byteStep = some v →
    (executeWord w m).regs (Specifier.dest w).gpr =
      (sourceAddressed w m).regs (Specifier.dest w).gpr + v

end

/-! ### When it does -/

/-- The bytes of memory the store covers, `a` being the destination. -/
def Op.Covers (op : Op) (a c : Addr) : Prop := c = a ∨ op = .ASLB ∧ c = a + 1

/-- The byte stored above the destination, `d` being the operand. -/
def Op.above (op : Op) (d : Word) : Byte :=
  if op = .ASLB then (BitVec.ofBool (d.getLsbD 7)).setWidth 8 else 0

namespace Specifier

variable (b : Bool) (o : Specifier) (m : Machine) (S : Addr → Prop)

/-- The address of the pointer of a deferred mode. -/
def pointer : Addr := translateBusAddr ((m.regs o.gpr).setWidth 32)

/-- The count of mode 5. -/
def count : Word := if b then 1 else 2

/-- Where mode 5 counts the pointer down, this changes only bytes of `S`. -/
def CountsWithin : Prop :=
  o.writesBack = true →
    S (o.pointer m) ∧ (S (o.pointer m + 1) ∨ (count b).toNat ≤ (m.mem (o.pointer m)).toNat)

end Specifier

/-- The byte instruction `w` meets none of the four. -/
structure OneByteHolds (w : Word) (m : Machine) : Prop where
  /-- A memory destination: mode 5 counts down the destination only, and `ASLB`
      finds above the destination the byte it stores there. -/
  memory : isInternalBusAddr (addressed w m).destAddress = false →
    let a := translateBusAddr (addressed w m).destAddress
    ((decode w).group = .double →
        (Specifier.src w).CountsWithin true (fetched w m) ((decode w).Covers a)) ∧
      (Specifier.dest w).CountsWithin (decode w).useByteAddr (sourceAddressed w m)
        ((decode w).Covers a) ∧
      (decode w = .ASLB →
        m.mem (a + 1)
          = (decode w).above (fetchData (addressed w m) (addressed w m).destAddress))
  /-- A register destination: its high byte is already what is stored there. -/
  keeps : decode w ≠ .MOVB → isInternalBusAddr (addressed w m).destAddress = true →
    highByte (fetchData (addressed w m) (addressed w m).destAddress)
      = (decode w).above (fetchData (addressed w m) (addressed w m).destAddress)
  /-- The byte moved to a register is not negative. -/
  signExtends : decode w = .MOVB → isInternalBusAddr (addressed w m).destAddress = true →
    (fetchData (addressed w m) (addressed w m).srcAddress).getLsbD 7 = false
  /-- `COMB` is not used with modes 2 and 4 on R0–R5. -/
  dest : decode w = .COMB → (Specifier.dest w).byteStep = none

/-! ### Counting down -/

namespace Specifier

variable (b : Bool) (o : Specifier) (m : Machine)

/-- What a byte of memory loses when the operand is addressed. -/
def fall (c : Addr) : Byte :=
  if o.writesBack then m.mem.fall (o.pointer m) (count b) c else 0

theorem memAfter_apply (c : Addr) : o.memAfter b m c = m.mem c - o.fall b m c := by
  have hcount : (count b).toNat < 256 := by cases b <;> decide
  rw [memAfter, fall]
  split
  · rw [wordAt_eq]
    exact ByteStore.writeWord_sub m.mem _ hcount c
  · exact (BitVec.sub_zero _).symm

theorem forall_fall_eq_zero_iff (S : Addr → Prop) :
    (∀ c, ¬ S c → o.fall b m c = 0) ↔ o.CountsWithin b m S := by
  have hcount : lowByte (count b) ≠ 0 := by cases b <;> decide
  have hsucc : o.pointer m ≠ o.pointer m + 1 := by bv_omega
  rw [CountsWithin]
  -- Only a mode 5 that counts in memory takes anything away.
  by_cases h : o.writesBack = true
  · simp only [fall, h, if_true, forall_const]
    exact ByteStore.forall_fall_eq_zero_iff m.mem hsucc hcount S
  · simp [fall, h]

/-- A byte operand takes at most one from a byte. -/
theorem fall_le_one (c : Addr) : (o.fall true m c).toNat ≤ 1 := by
  rw [fall, ByteStore.fall]
  split_ifs <;> decide

end Specifier

theorem sub_sub_eq_self_iff {x a b : Byte} (ha : a.toNat ≤ 1) (hb : b.toNat ≤ 1) :
    x - a - b = x ↔ a = 0 ∧ b = 0 := by
  rw [sub_sub, sub_eq_self]
  constructor
  · intro h
    constructor <;> bv_omega
  · rintro ⟨rfl, rfl⟩
    rfl

/-! ### The tables -/

theorem Op.writesByte_tables {op : Op} (h : op.writesByte = true) :
    op.isOperand = true ∧ op.aluStore = (if op = .ASLB then .word else .byte) ∧
      op.useByteAddr = (op != .COMB) ∧ (op.group = .double → op ≠ .COMB) := by
  refine ⟨?_, ?_, ?_, ?_⟩ <;>
    cases op <;> first | exact absurd h (by decide) | decide

theorem Specifier.byteStep_eq_some {o : Specifier} {v : Word} (h : o.byteStep = some v) :
    o.reg ≠ 7 ∧ o.mode ≠ 0 ∧ o.present = true ∧ o.consumes = false ∧ o.delta true = v ∧
      o.delta false ≠ v := by
  rw [byteStep] at h
  split at h
  · exact absurd h (by simp)
  · next hreg =>
    rw [not_or] at hreg
    obtain ⟨h6, h7⟩ := hreg
    -- Mode 2, then mode 4.
    split at h
    · next hmode =>
      rw [Option.some.injEq] at h
      subst h
      simp [present, consumes, delta, h6, h7, hmode]
    · split at h
      · next hmode =>
        rw [Option.some.injEq] at h
        subst h
        simp [present, consumes, delta, h6, h7, hmode]
      · exact absurd h (by simp)

/-! ### Memory -/

section

variable {w : Word} {m : Machine}

theorem executeWord_eq (h : (decode w).writesByte = true) (m : Machine) :
    executeWord w m =
      (decode w).finish ((addressed w m).setAlu ((decode w).result (addressed w m))) := by
  have hop := (Op.writesByte_tables h).1
  rw [executeWord, execInstruction_operand (by rwa [fetched_ir]), fetched_ir]
  rfl

theorem addressed_eq (w : Word) (m : Machine) : addressed w m =
    address .dest (decode w).useByteAddr (.dest w) (sourceAddressed w m) := by
  rw [addressed, Op.setUp_eq, fetched_ir]
  rfl

theorem sourceAddressed_double (h : (decode w).writesByte = true)
    (hg : (decode w).group = .double) (m : Machine) :
    sourceAddressed w m = address .src true (.src w) (fetched w m) := by
  obtain ⟨-, -, hbyte, hcomb⟩ := Op.writesByte_tables h
  rw [sourceAddressed, Op.afterSource_eq, if_pos hg, fetched_ir, hbyte, bne_iff_ne.mpr (hcomb hg)]

theorem sourceAddressed_single (hg : (decode w).group ≠ .double) (m : Machine) :
    sourceAddressed w m = fetched w m := by
  rw [sourceAddressed, Op.afterSource_eq, if_neg hg]

/-- Addressing leaves a byte alone when neither operand counts it down. -/
theorem addressed_mem_eq_iff (h : (decode w).writesByte = true) (m : Machine) (c : Addr) :
    (addressed w m).mem c = m.mem c ↔
      ((decode w).group = .double → (Specifier.src w).fall true (fetched w m) c = 0) ∧
        (Specifier.dest w).fall (decode w).useByteAddr (sourceAddressed w m) c = 0 := by
  obtain ⟨-, -, hbyte, hcomb⟩ := Op.writesByte_tables h
  rw [addressed_eq, address_mem, Specifier.memAfter_apply]
  by_cases hg : (decode w).group = .double
  · rw [sourceAddressed_double h hg, address_mem, Specifier.memAfter_apply, hbyte,
      bne_iff_ne.mpr (hcomb hg), fetched_mem]
    simp only [hg, forall_const]
    -- Two losses of at most one do not make up for each other.
    exact sub_sub_eq_self_iff (Specifier.fall_le_one ..) (Specifier.fall_le_one ..)
  · rw [sourceAddressed_single hg, fetched_mem, sub_eq_self]
    simp [hg]

theorem addressed_mem_within_iff (h : (decode w).writesByte = true) (m : Machine)
    (S : Addr → Prop) :
    (∀ c, ¬ S c → (addressed w m).mem c = m.mem c) ↔
      ((decode w).group = .double → (Specifier.src w).CountsWithin true (fetched w m) S) ∧
        (Specifier.dest w).CountsWithin (decode w).useByteAddr (sourceAddressed w m) S := by
  simp only [addressed_mem_eq_iff h, ← Specifier.forall_fall_eq_zero_iff]
  constructor
  · intro hall
    exact ⟨fun hg c hc => (hall c hc).1 hg, fun c hc => (hall c hc).2⟩
  · rintro ⟨hsrc, hdest⟩ c hc
    exact ⟨fun hg => hsrc hg c hc, hdest c hc⟩

/-- The store covers the destination only, but for `ASLB`. -/
theorem executeWord_mem_of_not_covers (h : (decode w).writesByte = true) {m : Machine}
    (hext : isInternalBusAddr (addressed w m).destAddress = false) {c : Addr}
    (hc : ¬ (decode w).Covers (translateBusAddr (addressed w m).destAddress) c) :
    (executeWord w m).mem c = (addressed w m).mem c := by
  rw [Op.Covers, not_or, not_and] at hc
  obtain ⟨hne, hsucc⟩ := hc
  rw [executeWord_eq h, Op.finish_mem, (Op.writesByte_tables h).2.1]
  split
  · next hop =>
    rw [AluStore.apply, Machine.setAlu_destAddress, storeData_external _ hext]
    exact ByteStore.writeWord_of_ne _ _ hne (hsucc hop)
  · rw [AluStore.apply, Machine.setAlu_destAddress, storeDataB_external _ hext]
    exact ByteStore.writeByte_of_ne _ _ hne

/-- `ASLB` shifts the sign of the byte into the high byte of `alu`. -/
theorem highByte_aslb (n : Machine) :
    highByte (Op.ASLB.result n) = Op.above .ASLB (fetchData n n.destAddress) := by
  have hbyte : ∀ b : Byte, highByte ((b.setWidth 16 : Word) <<< 1)
      = (BitVec.ofBool (b.getLsbD 7)).setWidth 8 := by
    decide +kernel
  have hbit (d : Word) : (lowByte d).getLsbD 7 = d.getLsbD 7 := by simp [lowByte]
  simp only [Op.result, Op.value, Op.above, if_true, and_lowMask, hbyte, hbit]

/-- `ASLB` stores the bit it shifts out above the destination. -/
theorem executeWord_mem_above (hop : decode w = .ASLB) {m : Machine}
    (hext : isInternalBusAddr (addressed w m).destAddress = false) :
    (executeWord w m).mem (translateBusAddr (addressed w m).destAddress + 1)
      = Op.above .ASLB (fetchData (addressed w m) (addressed w m).destAddress) := by
  have h : (decode w).writesByte = true := by rw [hop]; rfl
  rw [executeWord_eq h, Op.finish_mem, (Op.writesByte_tables h).2.1, if_pos hop, AluStore.apply,
    Machine.setAlu_destAddress, storeData_external _ hext, hop]
  exact (ByteStore.writeWord_succ ..).trans (highByte_aslb _)

/-- **Memory.** -/
theorem memory_iff (h : (decode w).writesByte = true) {m : Machine}
    (hext : isInternalBusAddr (addressed w m).destAddress = false) :
    let a := translateBusAddr (addressed w m).destAddress
    (∀ c, c ≠ a → (executeWord w m).mem c = m.mem c) ↔
      ((decode w).group = .double →
        (Specifier.src w).CountsWithin true (fetched w m) ((decode w).Covers a)) ∧
      (Specifier.dest w).CountsWithin (decode w).useByteAddr (sourceAddressed w m)
        ((decode w).Covers a) ∧
      (decode w = .ASLB →
        m.mem (a + 1)
          = (decode w).above (fetchData (addressed w m) (addressed w m).destAddress)) := by
  intro a
  rw [← and_assoc, ← addressed_mem_within_iff h]
  constructor
  · intro hall
    refine ⟨fun c hc => ?_, fun hop => ?_⟩
    · -- A byte the store does not cover is as addressing left it.
      rw [← executeWord_mem_of_not_covers h hext hc]
      exact hall c fun he => hc (.inl he)
    · have hsucc : a + 1 ≠ a := by bv_omega
      rw [← hall (a + 1) hsucc, executeWord_mem_above hop hext, hop]
  · rintro ⟨hwithin, habove⟩ c hc
    by_cases hcov : (decode w).Covers a c
    · -- Covered and not the destination: the byte above, in `ASLB`.
      obtain ⟨hop, rfl⟩ := hcov.resolve_left hc
      rw [executeWord_mem_above hop hext, habove hop, hop]
    · rw [executeWord_mem_of_not_covers h hext hcov, hwithin c hcov]

/-! ### Registers -/

/-- A register is left with the stored byte alone, but for `ASLB`. -/
theorem executeWord_register (h : (decode w).writesByte = true) (m : CpuState)
    (hint : isInternalBusAddr (addressed w m.machine).destAddress = true) :
    let n := addressed w m.machine
    fetchData (executeWord w m.machine) n.destAddress =
      if decode w = .ASLB then (decode w).result n
      else (lowByte ((decode w).result n)).setWidth 16 := by
  intro n
  have hlatch : n.destAddress ≠ Reg.psw.busAddr :=
    (decode w).setUp_destAddress_ne_psw (fetched w m.machine) m.dest_ne_psw
  obtain ⟨r, hr⟩ := exists_busAddr hint
  rw [executeWord_eq h, Op.finish_fetch hlatch, (Op.writesByte_tables h).2.1]
  split
  · exact fetchData_storeData ..
  · show fetchData (storeDataB _ n.destAddress _) n.destAddress = _
    rw [hr, storeDataB_busAddr, fetchData_busAddr, Machine.setReg_regs, Function.update_self]
    rfl

theorem highByte_setWidth : ∀ b : Byte, highByte (b.setWidth 16) = 0 := by decide +kernel

theorem setWidth_eq_signExtend_iff :
    ∀ b : Byte, (b.setWidth 16 : Word) = b.signExtend 16 ↔ b.getLsbD 7 = false := by
  decide +kernel

theorem keeps_iff (h : (decode w).writesByte = true) (m : CpuState)
    (hint : isInternalBusAddr (addressed w m.machine).destAddress = true) :
    let n := addressed w m.machine
    highByte (fetchData (executeWord w m.machine) n.destAddress)
        = highByte (fetchData n n.destAddress) ↔
      highByte (fetchData n n.destAddress) = (decode w).above (fetchData n n.destAddress) := by
  intro n
  have habove : highByte (fetchData (executeWord w m.machine) n.destAddress)
      = (decode w).above (fetchData n n.destAddress) := by
    rw [executeWord_register h m hint]
    split
    · next hop =>
      rw [hop]
      exact highByte_aslb n
    · next hop =>
      rw [highByte_setWidth, Op.above, if_neg hop]
  rw [habove]
  exact eq_comm

theorem signExtends_iff (hop : decode w = .MOVB) (m : CpuState)
    (hint : isInternalBusAddr (addressed w m.machine).destAddress = true) :
    let n := addressed w m.machine
    fetchData (executeWord w m.machine) n.destAddress
        = (lowByte (fetchData n n.srcAddress)).signExtend 16 ↔
      (fetchData n n.srcAddress).getLsbD 7 = false := by
  intro n
  have h : (decode w).writesByte = true := by rw [hop]; rfl
  have hbit : (lowByte (fetchData n n.srcAddress)).getLsbD 7
      = (fetchData n n.srcAddress).getLsbD 7 := by
    simp [lowByte]
  rw [executeWord_register h m hint, if_neg (by rw [hop]; decide), hop, ← hbit]
  show (lowByte (fetchData n n.srcAddress &&& 0o377)).setWidth 16 = _ ↔ _
  rw [and_lowMask, lowByte_setWidth]
  exact setWidth_eq_signExtend_iff _

/-! ### Steps -/

/-- Addressing moves the register by what the width gives. -/
theorem address_regs_gpr {o : Specifier} {v : Word} (hv : o.byteStep = some v) (loc : Loc)
    (b : Bool) (m : Machine) : (address loc b o m).regs o.gpr = m.regs o.gpr + o.delta b := by
  obtain ⟨-, -, -, hcons, -⟩ := Specifier.byteStep_eq_some hv
  rw [address_regs, Specifier.regsAfter]
  simp [hcons]

/-- A mode that steps a register addresses memory. -/
theorem addressed_destAddress_external {v : Word} (hv : (Specifier.dest w).byteStep = some v)
    (m : Machine) : isInternalBusAddr (addressed w m).destAddress = false := by
  obtain ⟨-, hmode, hpres, -⟩ := Specifier.byteStep_eq_some hv
  rw [addressed_eq, address_destLatch _ _ hpres]
  obtain ⟨h0, -⟩ | hlt := (Specifier.dest w).target_cases (sourceAddressed w m)
  · exact absurd h0 hmode
  · exact isInternalBusAddr_of_lt (Nat.lt_of_lt_of_le hlt (by decide))

/-- The store and the flags leave a register alone that is not the destination. -/
theorem executeWord_regs (h : (decode w).writesByte = true) {m : Machine} {r : Reg}
    (hr : r ≠ .psw) (hd : (addressed w m).destAddress ≠ r.busAddr) :
    (executeWord w m).regs r = (addressed w m).regs r := by
  rw [executeWord_eq h]
  exact Op.finish_reg hr hd

theorem source_step (h : (decode w).writesByte = true) (m : Machine) {v : Word}
    (hg : (decode w).group = .double) (hv : (Specifier.src w).byteStep = some v) :
    (sourceAddressed w m).regs (Specifier.src w).gpr = m.regs (Specifier.src w).gpr + v ∧
      ((Specifier.src w).gpr ≠ (Specifier.dest w).gpr →
        (addressed w m).destAddress ≠ (Specifier.src w).gpr.busAddr →
          (executeWord w m).regs (Specifier.src w).gpr = m.regs (Specifier.src w).gpr + v) := by
  obtain ⟨h7, -, -, -, hdelta, -⟩ := Specifier.byteStep_eq_some hv
  have hpc := Specifier.gpr_ne_pc _ h7
  have hsrc : (sourceAddressed w m).regs (Specifier.src w).gpr
      = m.regs (Specifier.src w).gpr + v := by
    rw [sourceAddressed_double h hg, address_regs_gpr hv, hdelta, fetched_regs_of_ne _ _ hpc]
  refine ⟨hsrc, fun hne hd => ?_⟩
  have hpsw : (Specifier.src w).gpr ≠ .psw := Reg.ofFin_ne_psw _
  rw [executeWord_regs h hpsw hd, addressed_eq,
    address_regs_of_ne _ _ _ _ hpc fun he => absurd he hne, hsrc]

theorem dest_step_iff (h : (decode w).writesByte = true) (m : Machine) {v : Word}
    (hv : (Specifier.dest w).byteStep = some v) :
    (executeWord w m).regs (Specifier.dest w).gpr
        = (sourceAddressed w m).regs (Specifier.dest w).gpr + v ↔
      decode w ≠ .COMB := by
  obtain ⟨-, -, -, -, htrue, hfalse⟩ := Specifier.byteStep_eq_some hv
  -- The store goes to memory, so the step is the one of the addressing.
  have hext := addressed_destAddress_external hv m
  have hd : (addressed w m).destAddress ≠ (Specifier.dest w).gpr.busAddr := by
    intro he
    rw [he, isInternalBusAddr_busAddr] at hext
    cases hext
  have hpsw : (Specifier.dest w).gpr ≠ .psw := Reg.ofFin_ne_psw _
  rw [executeWord_regs h hpsw hd, addressed_eq, address_regs_gpr hv,
    (Op.writesByte_tables h).2.2.1, add_right_inj]
  by_cases hop : decode w = .COMB
  · rw [bne_eq_false_iff_eq.mpr hop]
    exact iff_of_false hfalse (not_not.mpr hop)
  · rw [bne_iff_ne.mpr hop]
    exact iff_of_true htrue hop

/-- **Which byte instructions write one byte.** -/
theorem byteWrites_iff (m : CpuState) (w : Word) (h : (decode w).writesByte = true) :
    OneByte w m.machine ↔ OneByteHolds w m.machine := by
  constructor
  · intro hone
    refine ⟨fun hext => (memory_iff h hext).mp (hone.memory hext),
      fun hop hint => (keeps_iff h m hint).mp (hone.keeps hop hint),
      fun hop hint => (signExtends_iff hop m hint).mp (hone.signExtends hop hint), fun hop => ?_⟩
    -- With a step to make, `COMB` would not make it.
    rw [Option.eq_none_iff_forall_ne_some]
    intro v hv
    exact (dest_step_iff h m.machine hv).mp (hone.dest v hv) hop
  · intro hholds
    refine ⟨fun hext => (memory_iff h hext).mpr (hholds.memory hext),
      fun hop hint => (keeps_iff h m hint).mpr (hholds.keeps hop hint),
      fun hop hint => (signExtends_iff hop m hint).mpr (hholds.signExtends hop hint),
      fun v hg hv => source_step h m.machine hg hv, fun v hv => ?_⟩
    refine (dest_step_iff h m.machine hv).mpr fun hop => ?_
    rw [hholds.dest hop] at hv
    cases hv

end

/-- A store with two bytes set, at 0100. -/
def twoOnes : ByteStore Addr := fun a => if a = 0o100 ∨ a = 0o101 then 1 else 0

/-- R0 pointing at them, at the start of a run. -/
def onesAtR0 : CpuState where
  machine := (start twoOnes 0).setReg .r0 0o100
  dest_ne_psw := start_destAddress_ne_psw twoOnes 0

/-- `INCB @R0` -/
theorem byteWrites_iff_incb :
    OneByte 0o105210 onesAtR0.machine ↔ OneByteHolds 0o105210 onesAtR0.machine :=
  byteWrites_iff onesAtR0 0o105210 (by decide)

/-- `ASLB @R0` clears the byte above the one it shifts. -/
theorem byteWrites_aslb_wrong : ¬ ∀ (m : CpuState) (w : Word), (decode w).writesByte = true →
    OneByte w m.machine := by
  intro h
  have habove := (h onesAtR0 0o106310 (by decide)).memory (by decide) 0o101 (by decide)
  exact absurd habove (by decide)

end XMachine.Cpu
