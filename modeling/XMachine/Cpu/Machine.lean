import XMachine.Lib.ByteStore
import XMachine.Lib.BitMask
import Mathlib.Algebra.GroupWithZero.Nat
import Mathlib.Data.Fintype.Basic

namespace XMachine.Cpu

open XMachine.Lib

/-!
# CPU — processor state and data access

The `cpu` record, the nine registers behind the internal bus addresses
`0777700`–`0777707` and `0777776`, and the accesses `fetch_data`, `store_data`
and `store_data_b` with the address translation in front of the bus.  The bus
itself is an ideal little-endian byte store: `read_data_in`, `write_data_out`
and `write_data_out_b` act on it at once.

The switch tables over register numbers are kept as the source writes them;
`Reg.number` and `Reg.busAddr` name the two numberings they agree on, and the
lemmas beside each table let later files speak of `Reg` only.
-/

abbrev Byte := BitVec 8
abbrev Word := BitVec 16
/-- `uint32_t`, the type of addresses on their way to the bus. -/
abbrev Addr := BitVec 32

/-! ### State -/

def CARRYFLAG : Word := 0o000001
def OVERFLOWFLAG : Word := 0o000002
def ZEROFLAG : Word := 0o000004
def NEGATIVEFLAG : Word := 0o000010

/-- The registers of the `cpu` record that have a bus address. -/
inductive Reg
  | r0 | r1 | r2 | r3 | r4 | r5 | sp | pc | psw
  deriving DecidableEq, Repr

/-- `CPU_STATE` together with the store behind the bus. -/
structure Machine where
  regs : Reg → Word
  alu : Word
  ir : Word
  srcAddress : Addr
  destAddress : Addr
  halted : Bool
  mem : ByteStore Addr

def initCpu (st : ByteStore Addr) : Machine where
  regs _ := 0
  alu := 0
  ir := 0
  srcAddress := 0
  destAddress := 0
  halted := false
  mem := st

/-- The two operand latches an addressing routine can be asked to fill
    (`&CPU_STATE->src_address`, `&CPU_STATE->dest_address`). -/
inductive Loc
  | src | dest
  deriving DecidableEq, Repr

namespace Machine

abbrev sp (m : Machine) : Word := m.regs .sp
abbrev pc (m : Machine) : Word := m.regs .pc
abbrev psw (m : Machine) : Word := m.regs .psw

def setReg (m : Machine) (r : Reg) (v : Word) : Machine :=
  { m with regs := Function.update m.regs r v }

def setMem (m : Machine) (st : ByteStore Addr) : Machine := { m with mem := st }

def setAlu (m : Machine) (v : Word) : Machine := { m with alu := v }

def loc (m : Machine) : Loc → Addr
  | .src => m.srcAddress
  | .dest => m.destAddress

def setLoc (m : Machine) : Loc → Addr → Machine
  | .src, a => { m with srcAddress := a }
  | .dest, a => { m with destAddress := a }

variable (m : Machine) (r : Reg) (v : Word) (st : ByteStore Addr) (l : Loc) (a : Addr)

@[simp] theorem setReg_regs : (m.setReg r v).regs = Function.update m.regs r v := rfl
@[simp] theorem setReg_mem : (m.setReg r v).mem = m.mem := rfl
@[simp] theorem setReg_alu : (m.setReg r v).alu = m.alu := rfl
@[simp] theorem setReg_ir : (m.setReg r v).ir = m.ir := rfl
@[simp] theorem setReg_halted : (m.setReg r v).halted = m.halted := rfl
@[simp] theorem setReg_loc : (m.setReg r v).loc l = m.loc l := by cases l <;> rfl
@[simp] theorem setReg_srcAddress : (m.setReg r v).srcAddress = m.srcAddress := rfl
@[simp] theorem setReg_destAddress : (m.setReg r v).destAddress = m.destAddress := rfl

@[simp] theorem setMem_regs : (m.setMem st).regs = m.regs := rfl
@[simp] theorem setMem_mem : (m.setMem st).mem = st := rfl
@[simp] theorem setMem_alu : (m.setMem st).alu = m.alu := rfl
@[simp] theorem setMem_ir : (m.setMem st).ir = m.ir := rfl
@[simp] theorem setMem_halted : (m.setMem st).halted = m.halted := rfl
@[simp] theorem setMem_loc : (m.setMem st).loc l = m.loc l := by cases l <;> rfl
@[simp] theorem setMem_srcAddress : (m.setMem st).srcAddress = m.srcAddress := rfl
@[simp] theorem setMem_destAddress : (m.setMem st).destAddress = m.destAddress := rfl

@[simp] theorem setAlu_regs : (m.setAlu v).regs = m.regs := rfl
@[simp] theorem setAlu_mem : (m.setAlu v).mem = m.mem := rfl
@[simp] theorem setAlu_alu : (m.setAlu v).alu = v := rfl
@[simp] theorem setAlu_ir : (m.setAlu v).ir = m.ir := rfl
@[simp] theorem setAlu_halted : (m.setAlu v).halted = m.halted := rfl
@[simp] theorem setAlu_loc : (m.setAlu v).loc l = m.loc l := by cases l <;> rfl
@[simp] theorem setAlu_srcAddress : (m.setAlu v).srcAddress = m.srcAddress := rfl
@[simp] theorem setAlu_destAddress : (m.setAlu v).destAddress = m.destAddress := rfl

@[simp] theorem setLoc_regs : (m.setLoc l a).regs = m.regs := by cases l <;> rfl
@[simp] theorem setLoc_mem : (m.setLoc l a).mem = m.mem := by cases l <;> rfl
@[simp] theorem setLoc_alu : (m.setLoc l a).alu = m.alu := by cases l <;> rfl
@[simp] theorem setLoc_ir : (m.setLoc l a).ir = m.ir := by cases l <;> rfl
@[simp] theorem setLoc_halted : (m.setLoc l a).halted = m.halted := by cases l <;> rfl
@[simp] theorem setLoc_loc : (m.setLoc l a).loc l = a := by cases l <;> rfl
@[simp] theorem setLoc_src_destAddress : (m.setLoc .src a).destAddress = m.destAddress := rfl
@[simp] theorem setLoc_dest_srcAddress : (m.setLoc .dest a).srcAddress = m.srcAddress := rfl

@[simp] theorem loc_src : m.loc .src = m.srcAddress := rfl
@[simp] theorem loc_dest : m.loc .dest = m.destAddress := rfl

@[simp] theorem setReg_setReg (w : Word) : (m.setReg r v).setReg r w = m.setReg r w := by
  simp [setReg]

@[simp] theorem setReg_self : m.setReg r (m.regs r) = m := by simp [setReg]

theorem setLoc_loc_of_ne {l l' : Loc} (h : l' ≠ l) : (m.setLoc l a).loc l' = m.loc l' := by
  cases l <;> cases l' <;> first | rfl | exact absurd rfl h

end Machine

/-! ### Register tables -/

/-- The switch of `inc_register` and `dec_register`: the field a register
    number points at, none for a number without a case. -/
def registerPointer (reg : Word) : Option Reg :=
  match reg.toNat with
  | 0 => some .r0
  | 1 => some .r1
  | 2 => some .r2
  | 3 => some .r3
  | 4 => some .r4
  | 5 => some .r5
  | 6 => some .sp
  | 7 => some .pc
  | 8 => some .psw
  | _ => none

def incRegister (m : Machine) (reg : Word) (isByteAddr : Bool) : Machine :=
  match registerPointer reg with
  | none => m
  | some r => m.setReg r (m.regs r + if isByteAddr then 1 else 2)

def decRegister (m : Machine) (reg : Word) (isByteAddr : Bool) : Machine :=
  match registerPointer reg with
  | none => m
  | some r => m.setReg r (m.regs r - if isByteAddr then 1 else 2)

def fetchRegisterContents (m : Machine) (reg : Word) : Word :=
  match reg.toNat with
  | 0 => m.regs .r0
  | 1 => m.regs .r1
  | 2 => m.regs .r2
  | 3 => m.regs .r3
  | 4 => m.regs .r4
  | 5 => m.regs .r5
  | 6 => m.regs .sp
  | 7 => m.regs .pc
  | 8 => m.regs .psw
  | _ => 0xffff

def isInternalBusAddr (addr : Addr) : Bool :=
  match addr.toNat with
  | 0o777700 => true
  | 0o777701 => true
  | 0o777702 => true
  | 0o777703 => true
  | 0o777704 => true
  | 0o777705 => true
  | 0o777706 => true
  | 0o777707 => true
  | 0o777776 => true
  | _ => false

def registerToBusAddr (reg : Word) : Addr :=
  match reg.toNat with
  | 0 => 0o777700
  | 1 => 0o777701
  | 2 => 0o777702
  | 3 => 0o777703
  | 4 => 0o777704
  | 5 => 0o777705
  | 6 => 0o777706
  | 7 => 0o777707
  | 8 => 0o777776
  | _ => 0xffffffff

/-- `none` is the `NULL` of the source. -/
def busAddrToRegister (addr : Addr) : Option Reg :=
  match addr.toNat with
  | 0o777700 => some .r0
  | 0o777701 => some .r1
  | 0o777702 => some .r2
  | 0o777703 => some .r3
  | 0o777704 => some .r4
  | 0o777705 => some .r5
  | 0o777706 => some .sp
  | 0o777707 => some .pc
  | 0o777776 => some .psw
  | _ => none

/-- The register number the tables give `r`. -/
def Reg.number : Reg → Word
  | .r0 => 0 | .r1 => 1 | .r2 => 2 | .r3 => 3 | .r4 => 4 | .r5 => 5
  | .sp => 6 | .pc => 7 | .psw => 8

/-- The bus address the tables give `r`. -/
def Reg.busAddr : Reg → Addr
  | .r0 => 0o777700 | .r1 => 0o777701 | .r2 => 0o777702 | .r3 => 0o777703
  | .r4 => 0o777704 | .r5 => 0o777705 | .sp => 0o777706 | .pc => 0o777707
  | .psw => 0o777776

@[simp] theorem registerPointer_number (r : Reg) : registerPointer r.number = some r := by
  cases r <;> rfl

@[simp] theorem incRegister_number (m : Machine) (r : Reg) (b : Bool) :
    incRegister m r.number b = m.setReg r (m.regs r + if b then 1 else 2) := by
  simp [incRegister]

@[simp] theorem decRegister_number (m : Machine) (r : Reg) (b : Bool) :
    decRegister m r.number b = m.setReg r (m.regs r - if b then 1 else 2) := by
  simp [decRegister]

@[simp] theorem fetchRegisterContents_number (m : Machine) (r : Reg) :
    fetchRegisterContents m r.number = m.regs r := by
  cases r <;> rfl

@[simp] theorem registerToBusAddr_number (r : Reg) : registerToBusAddr r.number = r.busAddr := by
  cases r <;> rfl

@[simp] theorem isInternalBusAddr_busAddr (r : Reg) : isInternalBusAddr r.busAddr = true := by
  cases r <;> rfl

@[simp] theorem busAddrToRegister_busAddr (r : Reg) : busAddrToRegister r.busAddr = some r := by
  cases r <;> rfl

section

variable (m : Machine) (reg : Word) (b : Bool) (l : Loc)

@[simp] theorem incRegister_mem : (incRegister m reg b).mem = m.mem := by
  unfold incRegister; split <;> simp
@[simp] theorem incRegister_alu : (incRegister m reg b).alu = m.alu := by
  unfold incRegister; split <;> simp
@[simp] theorem incRegister_ir : (incRegister m reg b).ir = m.ir := by
  unfold incRegister; split <;> simp
@[simp] theorem incRegister_halted : (incRegister m reg b).halted = m.halted := by
  unfold incRegister; split <;> simp
@[simp] theorem incRegister_loc : (incRegister m reg b).loc l = m.loc l := by
  unfold incRegister; split <;> simp

@[simp] theorem decRegister_mem : (decRegister m reg b).mem = m.mem := by
  unfold decRegister; split <;> simp
@[simp] theorem decRegister_alu : (decRegister m reg b).alu = m.alu := by
  unfold decRegister; split <;> simp
@[simp] theorem decRegister_ir : (decRegister m reg b).ir = m.ir := by
  unfold decRegister; split <;> simp
@[simp] theorem decRegister_halted : (decRegister m reg b).halted = m.halted := by
  unfold decRegister; split <;> simp
@[simp] theorem decRegister_loc : (decRegister m reg b).loc l = m.loc l := by
  unfold decRegister; split <;> simp

end

theorem Reg.busAddr_injective : Function.Injective Reg.busAddr := fun r r' h =>
  Option.some.inj ((busAddrToRegister_busAddr r).symm.trans (h ▸ busAddrToRegister_busAddr r'))

/-- For the numerals of R0–R5. -/
instance instNeZeroSix : NeZero 6 := ⟨by decide⟩

/-- R0–R5. -/
def Reg.general (i : Fin 6) : Reg :=
  match i with
  | 0 => .r0 | 1 => .r1 | 2 => .r2 | 3 => .r3 | 4 => .r4 | 5 => .r5

@[simp] theorem Reg.general_ne_pc (i : Fin 6) : Reg.general i ≠ .pc := by
  revert i
  decide

@[simp] theorem Reg.general_ne_sp (i : Fin 6) : Reg.general i ≠ .sp := by
  revert i
  decide

@[simp] theorem Reg.general_ne_psw (i : Fin 6) : Reg.general i ≠ .psw := by
  revert i
  decide

theorem Reg.general_injective : Function.Injective Reg.general := by decide

/-- R`i`, for the three bits of an operand field. -/
def Reg.ofFin (i : Fin 8) : Reg :=
  match i with
  | 0 => .r0 | 1 => .r1 | 2 => .r2 | 3 => .r3 | 4 => .r4 | 5 => .r5 | 6 => .sp | 7 => .pc

theorem Reg.ofFin_injective : Function.Injective Reg.ofFin := by decide

@[simp] theorem Reg.ofFin_ne_psw (i : Fin 8) : Reg.ofFin i ≠ .psw := by
  revert i
  decide

@[simp] theorem Reg.psw_ne_ofFin (i : Fin 8) : Reg.psw ≠ Reg.ofFin i := (Reg.ofFin_ne_psw i).symm

/-- A number without a case is left alone by `registerPointer`'s switch. -/
theorem registerPointer_eq_none {reg : Word} (h : 9 ≤ reg.toNat) : registerPointer reg = none := by
  unfold registerPointer
  split <;> first | omega | rfl

/-- Addresses below the register page are not register addresses. -/
theorem isInternalBusAddr_of_lt {addr : Addr} (h : addr.toNat < 0o777700) :
    isInternalBusAddr addr = false := by
  unfold isInternalBusAddr
  split <;> first | omega | rfl

/-- `bus_addr_to_register` returns a register exactly on the internal
    addresses, so the accesses below never follow its `NULL`. -/
theorem isSome_busAddrToRegister (addr : Addr) :
    (busAddrToRegister addr).isSome = isInternalBusAddr addr := by
  unfold busAddrToRegister isInternalBusAddr
  split <;> rfl

/-! ### Data access -/

/-- Convert a high address to a bus address. -/
def translateBusAddr (addr : Addr) : Addr :=
  if addr &&& 0o177000 ≠ 0 then addr ||| 0o700000 else addr

def readDataIn (m : Machine) (addr : Addr) : Word := m.mem.readWord addr

def writeDataOut (m : Machine) (addr : Addr) (data : Word) : Machine :=
  m.setMem (m.mem.writeWord addr data)

def writeDataOutB (m : Machine) (addr : Addr) (data : Byte) : Machine :=
  m.setMem (m.mem.writeByte addr data)

def fetchDataRegister (m : Machine) (addr : Addr) : Word :=
  match busAddrToRegister addr with
  | some r => m.regs r
  | none => 0

def storeDataRegister (m : Machine) (addr : Addr) (data : Word) : Machine :=
  match busAddrToRegister addr with
  | some r => m.setReg r data
  | none => m

def fetchData (m : Machine) (addr : Addr) : Word :=
  if isInternalBusAddr addr then fetchDataRegister m addr
  else readDataIn m (translateBusAddr addr)

def storeData (m : Machine) (addr : Addr) (data : Word) : Machine :=
  if isInternalBusAddr addr then storeDataRegister m addr data
  else writeDataOut m (translateBusAddr addr) data

def storeDataB (m : Machine) (addr : Addr) (data : Byte) : Machine :=
  if isInternalBusAddr addr then storeDataRegister m addr (data.setWidth 16)
  else writeDataOutB m (translateBusAddr addr) data

variable (m : Machine)

/-- Where a store can go: into a register, into memory, or nowhere. -/
theorem storeData_cases (addr : Addr) (v : Word) :
    (∃ r, storeData m addr v = m.setReg r v) ∨ (∃ st, storeData m addr v = m.setMem st) ∨
      storeData m addr v = m := by
  unfold storeData storeDataRegister writeDataOut
  split
  · split
    · next r _ => exact .inl ⟨r, rfl⟩
    · exact .inr (.inr rfl)
  · exact .inr (.inl ⟨_, rfl⟩)

theorem storeDataB_cases (addr : Addr) (b : Byte) :
    (∃ r, storeDataB m addr b = m.setReg r (b.setWidth 16)) ∨
      (∃ st, storeDataB m addr b = m.setMem st) ∨ storeDataB m addr b = m := by
  unfold storeDataB storeDataRegister writeDataOutB
  split
  · split
    · next r _ => exact .inl ⟨r, rfl⟩
    · exact .inr (.inr rfl)
  · exact .inr (.inl ⟨_, rfl⟩)

section

variable (a : Addr) (v : Word) (b : Byte) (l : Loc)

@[simp] theorem storeData_alu : (storeData m a v).alu = m.alu := by
  obtain ⟨r, h⟩ | ⟨st, h⟩ | h := storeData_cases m a v <;> simp [h]
@[simp] theorem storeData_ir : (storeData m a v).ir = m.ir := by
  obtain ⟨r, h⟩ | ⟨st, h⟩ | h := storeData_cases m a v <;> simp [h]
@[simp] theorem storeData_halted : (storeData m a v).halted = m.halted := by
  obtain ⟨r, h⟩ | ⟨st, h⟩ | h := storeData_cases m a v <;> simp [h]
@[simp] theorem storeData_loc : (storeData m a v).loc l = m.loc l := by
  obtain ⟨r, h⟩ | ⟨st, h⟩ | h := storeData_cases m a v <;> simp [h]

@[simp] theorem storeDataB_alu : (storeDataB m a b).alu = m.alu := by
  obtain ⟨r, h⟩ | ⟨st, h⟩ | h := storeDataB_cases m a b <;> simp [h]
@[simp] theorem storeDataB_ir : (storeDataB m a b).ir = m.ir := by
  obtain ⟨r, h⟩ | ⟨st, h⟩ | h := storeDataB_cases m a b <;> simp [h]
@[simp] theorem storeDataB_halted : (storeDataB m a b).halted = m.halted := by
  obtain ⟨r, h⟩ | ⟨st, h⟩ | h := storeDataB_cases m a b <;> simp [h]
@[simp] theorem storeDataB_loc : (storeDataB m a b).loc l = m.loc l := by
  obtain ⟨r, h⟩ | ⟨st, h⟩ | h := storeDataB_cases m a b <;> simp [h]

end

@[simp] theorem fetchDataRegister_busAddr (r : Reg) : fetchDataRegister m r.busAddr = m.regs r := by
  simp [fetchDataRegister]

@[simp] theorem storeDataRegister_busAddr (r : Reg) (v : Word) :
    storeDataRegister m r.busAddr v = m.setReg r v := by
  simp [storeDataRegister]

@[simp] theorem fetchData_busAddr (r : Reg) : fetchData m r.busAddr = m.regs r := by
  simp [fetchData]

@[simp] theorem storeData_busAddr (r : Reg) (v : Word) :
    storeData m r.busAddr v = m.setReg r v := by
  simp [storeData]

@[simp] theorem storeDataB_busAddr (r : Reg) (b : Byte) :
    storeDataB m r.busAddr b = m.setReg r (b.setWidth 16) := by
  simp [storeDataB]

theorem fetchData_external {addr : Addr} (h : isInternalBusAddr addr = false) :
    fetchData m addr = m.mem.readWord (translateBusAddr addr) := by
  simp [fetchData, h, readDataIn]

theorem storeData_external {addr : Addr} (h : isInternalBusAddr addr = false) (v : Word) :
    storeData m addr v = m.setMem (m.mem.writeWord (translateBusAddr addr) v) := by
  simp [storeData, h, writeDataOut]

theorem storeDataB_external {addr : Addr} (h : isInternalBusAddr addr = false) (b : Byte) :
    storeDataB m addr b = m.setMem (m.mem.writeByte (translateBusAddr addr) b) := by
  simp [storeDataB, h, writeDataOutB]

/-- The register at a bus address is the one with that bus address. -/
theorem eq_busAddr_of_busAddrToRegister {a : Addr} {r : Reg} (h : busAddrToRegister a = some r) :
    a = r.busAddr := by
  unfold busAddrToRegister at h
  split at h <;> simp only [Option.some.injEq, reduceCtorEq] at h <;> subst h <;>
    exact BitVec.eq_of_toNat_eq (by assumption)

/-- A store leaves a register alone unless the address is its own. -/
theorem storeData_regs_of_ne {a : Addr} {r : Reg} (v : Word) (h : a ≠ r.busAddr) :
    (storeData m a v).regs r = m.regs r := by
  unfold storeData storeDataRegister
  split
  · split
    · next r' hr' =>
      have hne : r ≠ r' := fun he => h (he ▸ eq_busAddr_of_busAddrToRegister hr')
      simp [hne]
    · rfl
  · rfl

theorem storeDataB_regs_of_ne {a : Addr} {r : Reg} (v : Byte) (h : a ≠ r.busAddr) :
    (storeDataB m a v).regs r = m.regs r := by
  unfold storeDataB storeDataRegister
  split
  · split
    · next r' hr' =>
      have hne : r ≠ r' := fun he => h (he ▸ eq_busAddr_of_busAddrToRegister hr')
      simp [hne]
    · rfl
  · rfl

/-- An internal address is the bus address of a register. -/
theorem exists_busAddr {a : Addr} (h : isInternalBusAddr a = true) : ∃ r : Reg, a = r.busAddr := by
  rw [← isSome_busAddrToRegister, Option.isSome_iff_exists] at h
  obtain ⟨r, hr⟩ := h
  exact ⟨r, eq_busAddr_of_busAddrToRegister hr⟩

/-- A register is seen at its own address only. -/
theorem fetchData_setReg_of_ne {a : Addr} {r : Reg} (v : Word) (h : a ≠ r.busAddr) :
    fetchData (m.setReg r v) a = fetchData m a := by
  by_cases ha : isInternalBusAddr a = true
  · obtain ⟨r', rfl⟩ := exists_busAddr ha
    have hne : r' ≠ r := fun he => h (he ▸ rfl)
    simp [hne]
  · rw [Bool.not_eq_true] at ha
    rw [fetchData_external _ ha, fetchData_external _ ha, Machine.setReg_mem]

/-- An operand just stored is the one fetched. -/
theorem fetchData_storeData (a : Addr) (v : Word) : fetchData (storeData m a v) a = v := by
  by_cases ha : isInternalBusAddr a = true
  · obtain ⟨r, rfl⟩ := exists_busAddr ha
    simp
  · rw [Bool.not_eq_true] at ha
    rw [storeData_external m ha, fetchData_external _ ha, Machine.setMem_mem]
    exact ByteStore.readWord_writeWord _ _ (by bv_omega)

theorem fetchData_storeDataB (a : Addr) (b : Byte) :
    lowByte (fetchData (storeDataB m a b) a) = b := by
  by_cases ha : isInternalBusAddr a = true
  · obtain ⟨r, rfl⟩ := exists_busAddr ha
    simp [lowByte]
  · rw [Bool.not_eq_true] at ha
    rw [storeDataB_external m ha, fetchData_external _ ha, Machine.setMem_mem, ByteStore.readWord,
      lowByte_joinBytes, ByteStore.writeByte_self]

/-- A program address (16 bits, zero-extended) is never a register address. -/
@[simp] theorem isInternalBusAddr_setWidth (w : Word) :
    isInternalBusAddr (w.setWidth 32) = false := by
  apply isInternalBusAddr_of_lt
  have := w.isLt
  simp only [BitVec.toNat_setWidth]
  omega

/-- Nor is the unreduced sum of two program addresses. -/
@[simp] theorem isInternalBusAddr_add (v w : Word) :
    isInternalBusAddr (v.setWidth 32 + w.setWidth 32) = false := by
  apply isInternalBusAddr_of_lt
  have hv := v.isLt
  have hw := w.isLt
  simp only [BitVec.toNat_add, BitVec.toNat_setWidth]
  omega

/-! ### Words in memory -/

/-- The word the processor finds at program address `w`. -/
def wordAt (m : Machine) (w : Word) : Word := fetchData m (w.setWidth 32)

/-- The word it finds at the sum of two words formed in `uint32_t`. -/
def wordAtSum (m : Machine) (v w : Word) : Word := fetchData m (v.setWidth 32 + w.setWidth 32)

theorem wordAt_eq (w : Word) : wordAt m w = m.mem.readWord (translateBusAddr (w.setWidth 32)) := by
  simp [wordAt, fetchData_external]

theorem wordAtSum_eq (v w : Word) :
    wordAtSum m v w = m.mem.readWord (translateBusAddr (v.setWidth 32 + w.setWidth 32)) := by
  simp [wordAtSum, fetchData_external]

@[simp] theorem fetchData_setWidth (w : Word) : fetchData m (w.setWidth 32) = wordAt m w := rfl

@[simp] theorem fetchData_add (v w : Word) :
    fetchData m (v.setWidth 32 + w.setWidth 32) = wordAtSum m v w := rfl

theorem storeData_setWidth (w v : Word) : storeData m (w.setWidth 32) v
    = m.setMem (m.mem.writeWord (translateBusAddr (w.setWidth 32)) v) :=
  storeData_external m (isInternalBusAddr_setWidth w) v

/-- Words in memory depend on the store alone. -/
theorem wordAt_congr {m m' : Machine} (h : m.mem = m'.mem) (w : Word) :
    wordAt m w = wordAt m' w := by
  rw [wordAt_eq, wordAt_eq, h]

theorem wordAtSum_congr {m m' : Machine} (h : m.mem = m'.mem) (v w : Word) :
    wordAtSum m v w = wordAtSum m' v w := by
  rw [wordAtSum_eq, wordAtSum_eq, h]

variable (r : Reg) (v w x : Word) (l : Loc) (a : Addr)

@[simp] theorem wordAt_setReg : wordAt (m.setReg r x) w = wordAt m w := wordAt_congr (by simp) w
@[simp] theorem wordAt_setAlu : wordAt (m.setAlu x) w = wordAt m w := wordAt_congr (by simp) w
@[simp] theorem wordAt_setLoc : wordAt (m.setLoc l a) w = wordAt m w := wordAt_congr (by simp) w
@[simp] theorem wordAtSum_setReg : wordAtSum (m.setReg r x) v w = wordAtSum m v w :=
  wordAtSum_congr (by simp) v w
@[simp] theorem wordAtSum_setLoc : wordAtSum (m.setLoc l a) v w = wordAtSum m v w :=
  wordAtSum_congr (by simp) v w

/-! ### Translation of program addresses -/

/-- The translation's test fails exactly on program addresses below 01000. -/
theorem and_translateMask_eq_zero (a : Word) :
    (a.setWidth 32 : Addr) &&& 0o177000 = 0 ↔ a.toNat < 0o1000 := by
  have hmask : (a.setWidth 32 : Addr) &&& 0o177000 = (a &&& 0o177000).setWidth 32 := by
    rw [BitVec.setWidth_and]
    rfl
  have hpow : a.toNat < 2 ^ 9 ↔ a.toNat < 0o1000 := Iff.rfl
  rw [hmask, ← hpow, ← and_allOnes_shiftLeft_eq_zero a]
  exact ⟨fun h => by simpa using congrArg (BitVec.setWidth 16) h, fun h => by
    show BitVec.setWidth 32 (a &&& (BitVec.allOnes 16 <<< 9)) = 0
    rw [h]; rfl⟩

theorem translateBusAddr_of_lt {a : Word} (h : a.toNat < 0o1000) :
    translateBusAddr (a.setWidth 32) = a.setWidth 32 := by
  rw [translateBusAddr, if_neg (not_not.mpr ((and_translateMask_eq_zero a).mpr h))]

end XMachine.Cpu
