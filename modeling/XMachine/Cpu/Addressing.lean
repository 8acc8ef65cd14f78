import XMachine.Cpu.Machine

namespace XMachine.Cpu

open XMachine.Lib

/-!
# CPU — operand addressing

The routines that turn an operand specifier (a mode and a register number) into
the address of the operand, latched in `src_address` or `dest_address`.  The
three register classes have routines of their own; a mode without a case leaves
the latch as it was, exactly as the C `switch` does.  Sums are formed in
`uint32_t`, so they are not reduced modulo 2^16.
-/

/-- `CPU_STATE->pc += 2`. -/
def advancePc (m : Machine) : Machine := m.setReg .pc (m.pc + 2)

def setupPcAddressing (loc : Loc) (mode reg : Word) (m : Machine) : Machine :=
  match mode.toNat with
  | 0 => m.setLoc loc (registerToBusAddr reg)
  -- From immediate.
  | 2 => advancePc (m.setLoc loc (m.pc.setWidth 32))
  -- From absolute.
  | 3 => advancePc (m.setLoc loc ((fetchData m (m.pc.setWidth 32)).setWidth 32))
  -- Relative.
  | 6 =>
    let relative : Addr := (fetchData m (m.pc.setWidth 32)).setWidth 32
    let m := advancePc m
    m.setLoc loc (m.pc.setWidth 32 + relative)
  | _ => m

def setupSpAddressing (loc : Loc) (mode reg : Word) (m : Machine) : Machine :=
  match mode.toNat with
  | 0 => m.setLoc loc (registerToBusAddr reg)
  | 1 => m.setLoc loc (m.sp.setWidth 32)
  -- Autoincrement: pop.
  | 2 =>
    let m := m.setLoc loc (m.sp.setWidth 32)
    m.setReg .sp (m.sp + 2)
  | 3 =>
    let m := m.setLoc loc ((fetchData m (m.sp.setWidth 32)).setWidth 32)
    m.setReg .sp (m.sp + 2)
  -- Autodecrement: push.
  | 4 =>
    let m := m.setReg .sp (m.sp - 2)
    m.setLoc loc (m.sp.setWidth 32)
  | 6 =>
    let index : Addr := (fetchData m (m.pc.setWidth 32)).setWidth 32
    let m := advancePc m
    m.setLoc loc (m.sp.setWidth 32 + index)
  | 7 =>
    let index : Addr := (fetchData m (m.pc.setWidth 32)).setWidth 32
    let m := advancePc m
    m.setLoc loc ((fetchData m (index + m.sp.setWidth 32)).setWidth 32)
  | _ => m

/-- The common text of `setup_general_addressing` and
    `setup_general_byte_addressing`; `isByteAddr` selects the step, 1 or 2. -/
def generalAddressing (isByteAddr : Bool) (loc : Loc) (mode reg : Word) (m : Machine) : Machine :=
  match mode.toNat with
  | 0 => m.setLoc loc (registerToBusAddr reg)
  | 1 => m.setLoc loc ((fetchRegisterContents m reg).setWidth 32)
  | 2 => incRegister (m.setLoc loc ((fetchRegisterContents m reg).setWidth 32)) reg isByteAddr
  | 3 =>
    let deferred : Addr := (fetchRegisterContents m reg).setWidth 32
    let index := fetchData m deferred
    let m := incRegister m reg isByteAddr
    m.setLoc loc ((fetchData m (index.setWidth 32)).setWidth 32)
  | 4 => decRegister (m.setLoc loc ((fetchRegisterContents m reg).setWidth 32)) reg isByteAddr
  | 5 =>
    let deferred : Addr := (fetchRegisterContents m reg).setWidth 32
    let index := fetchData m deferred
    let m := m.setLoc loc ((fetchData m (index.setWidth 32)).setWidth 32)
    storeData m deferred (index - if isByteAddr then 1 else 2)
  | 6 =>
    let index := fetchData m (m.pc.setWidth 32)
    let m := advancePc m
    let deferred : Addr := (fetchRegisterContents m reg).setWidth 32
    m.setLoc loc ((fetchData m (index.setWidth 32 + deferred)).setWidth 32)
  | 7 =>
    let index := fetchData m (m.pc.setWidth 32)
    let m := advancePc m
    let deferred : Addr := (fetchRegisterContents m reg).setWidth 32
    let deferred : Addr := (fetchData m deferred).setWidth 32
    m.setLoc loc ((fetchData m (deferred + index.setWidth 32)).setWidth 32)
  | _ => m

def setupGeneralAddressing : Loc → Word → Word → Machine → Machine := generalAddressing false

def setupGeneralByteAddressing : Loc → Word → Word → Machine → Machine := generalAddressing true

/-! ### Operand fields of the instruction word -/

def destReg (ir : Word) : Word := ir &&& 0o00007
def destMode (ir : Word) : Word := (ir &&& 0o00070) >>> 3
def srcReg (ir : Word) : Word := (ir &&& 0o00700) >>> 6
def srcMode (ir : Word) : Word := (ir &&& 0o07000) >>> 9

/-- The common text of `setup_dest_addressing` and `setup_src_addressing`. -/
def setupAddressing (loc : Loc) (useByteAddr : Bool) (mode reg : Word) (m : Machine) : Machine :=
  match reg.toNat with
  | 7 => setupPcAddressing loc mode reg m
  | 6 => setupSpAddressing loc mode reg m
  | _ =>
    if useByteAddr then setupGeneralByteAddressing loc mode reg m
    else setupGeneralAddressing loc mode reg m

def setupDestAddressing (useByteAddr : Bool) (m : Machine) : Machine :=
  setupAddressing .dest useByteAddr (destMode m.ir) (destReg m.ir) m

def setupSrcAddressing (useByteAddr : Bool) (m : Machine) : Machine :=
  setupAddressing .src useByteAddr (srcMode m.ir) (srcReg m.ir) m

/-! ### What addressing leaves alone -/

/-- `m'` differs from `m` in registers, memory and the latch `loc` only. -/
structure AddressingFrame (loc : Loc) (m m' : Machine) : Prop where
  ir : m'.ir = m.ir
  alu : m'.alu = m.alu
  halted : m'.halted = m.halted
  other : ∀ l, l ≠ loc → m'.loc l = m.loc l

section Frame

variable (loc : Loc) (b : Bool) (mode reg : Word) (m : Machine)

theorem setupPcAddressing_frame : AddressingFrame loc m (setupPcAddressing loc mode reg m) := by
  unfold setupPcAddressing
  split <;> constructor <;> intros <;> simp [advancePc, Machine.setLoc_loc_of_ne, *]

theorem setupSpAddressing_frame : AddressingFrame loc m (setupSpAddressing loc mode reg m) := by
  unfold setupSpAddressing
  split <;> constructor <;> intros <;> simp [advancePc, Machine.setLoc_loc_of_ne, *]

theorem generalAddressing_frame : AddressingFrame loc m (generalAddressing b loc mode reg m) := by
  unfold generalAddressing
  split <;> constructor <;> intros <;> simp [advancePc, Machine.setLoc_loc_of_ne, *]

theorem setupAddressing_frame : AddressingFrame loc m (setupAddressing loc b mode reg m) := by
  unfold setupAddressing
  split
  · exact setupPcAddressing_frame loc mode reg m
  · exact setupSpAddressing_frame loc mode reg m
  · cases b
    · exact generalAddressing_frame loc false mode reg m
    · exact generalAddressing_frame loc true mode reg m

@[simp] theorem setupAddressing_ir : (setupAddressing loc b mode reg m).ir = m.ir :=
  (setupAddressing_frame ..).ir

@[simp] theorem setupAddressing_alu : (setupAddressing loc b mode reg m).alu = m.alu :=
  (setupAddressing_frame ..).alu

@[simp] theorem setupAddressing_halted : (setupAddressing loc b mode reg m).halted = m.halted :=
  (setupAddressing_frame ..).halted

@[simp] theorem setupAddressing_dest_srcAddress :
    (setupAddressing .dest b mode reg m).srcAddress = m.srcAddress :=
  (setupAddressing_frame ..).other .src nofun

@[simp] theorem setupAddressing_src_destAddress :
    (setupAddressing .src b mode reg m).destAddress = m.destAddress :=
  (setupAddressing_frame ..).other .dest nofun

end Frame

end XMachine.Cpu
