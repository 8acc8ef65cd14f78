import XMachine.Cpu.Addressing

namespace XMachine.Cpu

open XMachine.Lib

/-!
# CPU — instruction handlers

One definition for each handler of the source, under its mnemonic.  The
handlers that differ only in their operand width, in the value put into `alu`,
in the store and in the flags are instances of `oneOperand`, `twoOperand` and
`branch`; `JMP`, `JSR`, `RTS`, `HALT` and the stubs keep bodies of their own.

Fetching an operand has no effect on the ideal store, so a handler that ignores
an operand's value (`CLR` the old destination, say) is the instance whose
function ignores that argument.
-/

/-! ### Flags -/

def setZeroFlag (m : Machine) (value : Word) : Machine :=
  if value = 0 then m.setReg .psw (m.psw ||| ZEROFLAG)
  else m.setReg .psw (if m.psw &&& ZEROFLAG ≠ 0 then m.psw ^^^ ZEROFLAG else m.psw)

def setNegativeFlagB (m : Machine) (value : Byte) : Machine :=
  if value &&& 0o200 ≠ 0 then m.setReg .psw (m.psw ||| NEGATIVEFLAG)
  else m.setReg .psw (if m.psw &&& NEGATIVEFLAG ≠ 0 then m.psw ^^^ NEGATIVEFLAG else m.psw)

def setNegativeFlagW (m : Machine) (value : Word) : Machine :=
  if value &&& 0o100000 ≠ 0 then m.setReg .psw (m.psw ||| NEGATIVEFLAG)
  else m.setReg .psw (if m.psw &&& NEGATIVEFLAG ≠ 0 then m.psw ^^^ NEGATIVEFLAG else m.psw)

/-- The flag calls that end a handler, in the order the source makes them. -/
inductive FlagUpdate
  | none | zeroNegW | negWZero | zeroNegB | negBZero
  deriving DecidableEq, Repr

def FlagUpdate.apply (f : FlagUpdate) (m : Machine) : Machine :=
  match f with
  | .none => m
  | .zeroNegW => let m := setZeroFlag m m.alu; setNegativeFlagW m m.alu
  | .negWZero => let m := setNegativeFlagW m m.alu; setZeroFlag m m.alu
  | .zeroNegB => let m := setZeroFlag m m.alu; setNegativeFlagB m (m.alu.setWidth 8)
  | .negBZero => let m := setNegativeFlagB m (m.alu.setWidth 8); setZeroFlag m m.alu

/-- `x &&& bit ≠ 0` for the bits the processor tests. -/
theorem and_zeroFlag (p : Word) : p &&& ZEROFLAG ≠ 0 ↔ p.getLsbD 2 = true :=
  and_twoPow_ne_zero p (i := 2) (by decide)

theorem and_negativeFlag (p : Word) : p &&& NEGATIVEFLAG ≠ 0 ↔ p.getLsbD 3 = true :=
  and_twoPow_ne_zero p (i := 3) (by decide)

theorem and_signBit (v : Word) : v &&& 0o100000 ≠ 0 ↔ v.msb = true := by
  rw [BitVec.msb_eq_getLsbD_last]
  exact and_twoPow_ne_zero v (i := 15) (by decide)

theorem and_signBitB (v : Byte) : v &&& 0o200 ≠ 0 ↔ v.msb = true := by
  rw [BitVec.msb_eq_getLsbD_last]
  exact and_twoPow_ne_zero v (i := 7) (by decide)

theorem setZeroFlag_eq (m : Machine) (v : Word) :
    setZeroFlag m v = m.setReg .psw (writeBit m.psw 2 (v == 0)) := by
  unfold setZeroFlag writeBit
  by_cases hv : v = 0
  · have hb : (v == 0) = true := beq_iff_eq.mpr hv
    rw [if_pos hv, if_pos hb]
    rfl
  · have hb : ¬ (v == 0) = true := mt beq_iff_eq.mp hv
    rw [if_neg hv, if_neg hb]
    rfl

theorem setNegativeFlagW_eq (m : Machine) (v : Word) :
    setNegativeFlagW m v = m.setReg .psw (writeBit m.psw 3 v.msb) := by
  unfold setNegativeFlagW writeBit
  simp only [and_signBit]
  by_cases hv : v.msb = true
  · rw [if_pos hv, if_pos hv]
    rfl
  · rw [if_neg hv, if_neg hv]
    rfl

theorem setNegativeFlagB_eq (m : Machine) (v : Byte) :
    setNegativeFlagB m v = m.setReg .psw (writeBit m.psw 3 v.msb) := by
  unfold setNegativeFlagB writeBit
  simp only [and_signBitB]
  by_cases hv : v.msb = true
  · rw [if_pos hv, if_pos hv]
    rfl
  · rw [if_neg hv, if_neg hv]
    rfl

/-- The PSW after the flag calls, from the PSW and `alu` before. -/
def FlagUpdate.psw (f : FlagUpdate) (p alu : Word) : Word :=
  match f with
  | .none => p
  | .zeroNegW => writeBit (writeBit p 2 (alu == 0)) 3 alu.msb
  | .negWZero => writeBit (writeBit p 3 alu.msb) 2 (alu == 0)
  | .zeroNegB => writeBit (writeBit p 2 (alu == 0)) 3 (alu.setWidth 8).msb
  | .negBZero => writeBit (writeBit p 3 (alu.setWidth 8).msb) 2 (alu == 0)

/-- The flag calls write the PSW and nothing else. -/
theorem FlagUpdate.apply_eq (f : FlagUpdate) (m : Machine) :
    f.apply m = m.setReg .psw (f.psw m.psw m.alu) := by
  cases f <;>
    simp [FlagUpdate.apply, FlagUpdate.psw, setZeroFlag_eq, setNegativeFlagW_eq,
      setNegativeFlagB_eq, Machine.psw]

/-- Where a handler puts `alu`: nowhere, at `dest_address` as a word or as a
    byte, or in the processor status word. -/
inductive AluStore
  | none | word | byte | psw
  deriving DecidableEq, Repr

/-- The stores that go to `dest_address`. -/
def AluStore.isDest : AluStore → Bool
  | .word | .byte => true
  | .none | .psw => false

def AluStore.apply (s : AluStore) (m : Machine) : Machine :=
  match s with
  | .none => m
  | .word => storeData m m.destAddress m.alu
  | .byte => storeDataB m m.destAddress (m.alu.setWidth 8)
  | .psw => m.setReg .psw m.alu

/-! ### Handler shapes -/

/-- A single-operand handler: `f psw data` is the value left in `alu`, with
    `data` the word fetched from `dest_address`. -/
def oneOperand (useByteAddr : Bool) (f : Word → Word → Word) (store : AluStore)
    (flags : FlagUpdate) (m : Machine) : Machine :=
  let m := setupDestAddressing useByteAddr m
  let m := m.setAlu (f m.psw (fetchData m m.destAddress))
  flags.apply (store.apply m)

/-- A double-operand handler: `f src dest` is the value left in `alu`. -/
def twoOperand (useByteAddr : Bool) (f : Word → Word → Word) (store : AluStore)
    (flags : FlagUpdate) (m : Machine) : Machine :=
  let m := setupSrcAddressing useByteAddr m
  let m := setupDestAddressing useByteAddr m
  let m := m.setAlu (f (fetchData m m.srcAddress) (fetchData m m.destAddress))
  flags.apply (store.apply m)

def getBranchOffset (m : Machine) : Byte := m.ir.setWidth 8

/-- `CPU_STATE->pc = CPU_STATE->pc + (2 * offset)`, the offset sign-extended. -/
def takeBranch (m : Machine) : Machine :=
  m.setReg .pc (m.pc + 2 * (getBranchOffset m).signExtend 16)

/-- A conditional branch: `alu` gets `f psw` and the branch is taken if `taken alu`. -/
def branch (f : Word → Word) (taken : Word → Bool) (m : Machine) : Machine :=
  let m := m.setAlu (f m.psw)
  if taken m.alu then takeBranch m else m

theorem branch_eq (f : Word → Word) (taken : Word → Bool) (m : Machine) : branch f taken m =
    if taken (f m.psw) then takeBranch (m.setAlu (f m.psw)) else m.setAlu (f m.psw) := rfl

/-- The register a store into `dest_address` cannot reach keeps its contents. -/
theorem AluStore.apply_regs_of_ne (s : AluStore) (m : Machine) {r : Reg} (hpsw : r ≠ .psw)
    (h : s.isDest = true → m.destAddress ≠ r.busAddr) : (s.apply m).regs r = m.regs r := by
  cases s with
  | none => rfl
  | word => exact storeData_regs_of_ne m _ (h rfl)
  | byte => exact storeDataB_regs_of_ne m _ (h rfl)
  | psw => simp [AluStore.apply, hpsw]

/-! ### Double-operand instructions -/

def ADD := twoOperand false (fun s d => s + d) .word .negWZero
def BICB := twoOperand true (fun s d => (d &&& 0o377) &&& ~~~(s &&& 0o377)) .byte .negBZero
def BIC := twoOperand false (fun s d => d &&& ~~~s) .word .negWZero
def BISB := twoOperand true (fun s d => (d &&& 0o377) ||| (s &&& 0o377)) .byte .negBZero
def BIS := twoOperand false (fun s d => d ||| s) .word .negWZero
def BITB := twoOperand true (fun s d => (s &&& 0o377) &&& (d &&& 0o377)) .none .negBZero
def BIT := twoOperand false (fun s d => s &&& d) .none .zeroNegW
def CMPB := twoOperand true (fun s d => (d &&& 0o377) - (s &&& 0o377)) .none .zeroNegB
def CMP := twoOperand false (fun s d => d - s) .none .zeroNegW
def MOVB := twoOperand true (fun s _ => s &&& 0o377) .byte .zeroNegB
def MOV := twoOperand false (fun s _ => s) .word .zeroNegW
def SUB := twoOperand false (fun s d => s - d) .word .negWZero

/-! ### Single-operand instructions -/

def ADCB := oneOperand true (fun p d => (d &&& 0o377) + (p &&& CARRYFLAG)) .byte .zeroNegB
def ADC := oneOperand false (fun p d => d + (p &&& CARRYFLAG)) .word .zeroNegW
/-- Stores a word, not a byte. -/
def ASLB := oneOperand true (fun _ d => (d &&& 0o377) <<< 1) .word .zeroNegB
def ASL := oneOperand false (fun _ d => d <<< 1) .word .zeroNegW
def ASRB := oneOperand true (fun _ d => (d &&& 0o377) >>> 1) .byte .zeroNegB
def ASR := oneOperand false (fun _ d => d >>> 1) .word .zeroNegW
def CLRB := oneOperand true (fun _ _ => 0) .byte .negBZero
def CLR := oneOperand false (fun _ _ => 0) .word .negWZero
/-- Sets up word addressing, not byte addressing. -/
def COMB := oneOperand false (fun _ d => ~~~(d &&& 0o377)) .byte .negBZero
def COM := oneOperand false (fun _ d => ~~~d) .word .negWZero
def DECB := oneOperand true (fun _ d => (d &&& 0o377) - 1) .byte .zeroNegB
def DEC := oneOperand false (fun _ d => d - 1) .word .zeroNegW
def INCB := oneOperand true (fun _ d => (d &&& 0o377) + 1) .byte .zeroNegB
def INC := oneOperand false (fun _ d => d + 1) .word .zeroNegW
def MFPS := oneOperand false (fun p _ => p) .word .none
def MTPS := oneOperand false (fun _ d => d) .psw .none
def NEGB := oneOperand true (fun _ d => (~~~(d &&& 0o377) + 1) &&& 0o377) .byte .zeroNegB
def NEG := oneOperand false (fun _ d => ~~~d + 1) .word .zeroNegW
def ROLB :=
  oneOperand true (fun _ d => (d &&& 0o377) <<< 7 ||| (d &&& 0o377) >>> 1) .byte .zeroNegB
def ROL := oneOperand false (fun _ d => d <<< 15 ||| d >>> 1) .word .zeroNegW
def RORB :=
  oneOperand true (fun _ d => (d &&& 0o377) <<< 1 ||| (d &&& 0o377) >>> 7) .byte .zeroNegB
def ROR := oneOperand false (fun _ d => d <<< 1 ||| d >>> 15) .word .zeroNegW
def SBCB := oneOperand true (fun p d => (d &&& 0o377) - (p &&& CARRYFLAG)) .byte .zeroNegB
def SBC := oneOperand false (fun p d => d - (p &&& CARRYFLAG)) .word .zeroNegW
def SWAB :=
  oneOperand false (fun _ d => (d &&& 0o177400) >>> 8 ||| (d &&& 0o000377) <<< 8) .word .negWZero
def TSTB := oneOperand true (fun _ d => d &&& 0o377) .none .zeroNegB
def TST := oneOperand false (fun _ d => d) .none .zeroNegW

/-! ### Branches -/

def BCC := branch (· &&& CARRYFLAG) (· == 0)
def BCS := branch (· &&& CARRYFLAG) (· != 0)
def BEQ := branch (· &&& ZEROFLAG) (· == ZEROFLAG)
def BGE := branch (fun p => (p &&& NEGATIVEFLAG) >>> 3 ^^^ (p &&& OVERFLOWFLAG) >>> 1) (· == 0)
def BGT :=
  branch
    (fun p => (p &&& ZEROFLAG) >>> 2 |||
      ((p &&& NEGATIVEFLAG) >>> 3 ^^^ (p &&& OVERFLOWFLAG) >>> 1))
    (· == 0)
def BHI := branch (fun p => (p &&& CARRYFLAG) ||| (p &&& ZEROFLAG) >>> 2) (· == 0)
def BLE :=
  branch
    (fun p => (p &&& ZEROFLAG) >>> 2 |||
      ((p &&& NEGATIVEFLAG) >>> 3 ^^^ (p &&& OVERFLOWFLAG) >>> 1))
    (· != 0)
def BLOS := branch (fun p => (p &&& CARRYFLAG) ||| (p &&& ZEROFLAG) >>> 2) (· != 0)
def BLT := branch (fun p => (p &&& NEGATIVEFLAG) >>> 3 ^^^ (p &&& OVERFLOWFLAG) >>> 1) (· != 0)
def BMI := branch (· &&& NEGATIVEFLAG) (· != 0)
def BNE := branch (· &&& ZEROFLAG) (· == 0)
def BPL := branch (· &&& NEGATIVEFLAG) (· == 0)
def BVC := branch (· &&& OVERFLOWFLAG) (· == 0)
def BVS := branch (· &&& OVERFLOWFLAG) (· != 0)

def BR (m : Machine) : Machine := takeBranch m

/-! ### Jumps, subroutine linkage and the rest -/

def JMP (m : Machine) : Machine :=
  let m := setupDestAddressing false m
  m.setReg .pc (fetchData m m.destAddress)

def JSR (m : Machine) : Machine :=
  let reg : Word := (m.ir &&& 0o0700) >>> 6
  let m := setupDestAddressing false m
  let tmp : Word := m.destAddress.setWidth 16
  let regContents := fetchRegisterContents m reg
  let m := storeData m (m.sp.setWidth 32) regContents
  -- The argument is the value of SP, where a register number is expected.
  let m := decRegister m m.sp false
  let m := storeDataRegister m (registerToBusAddr reg) m.pc
  m.setReg .pc tmp

def RTS (m : Machine) : Machine :=
  let reg : Word := m.ir &&& 0o7
  let regContents := fetchRegisterContents m reg
  let m := m.setReg .pc regContents
  let m := incRegister m m.sp false
  let topStack := fetchData m (m.sp.setWidth 32)
  storeDataRegister m (registerToBusAddr reg) topStack

def HALT (m : Machine) : Machine := { m with halted := true }

def NOP (m : Machine) : Machine := m

def ASHC := NOP
def ASH := NOP
def DIV := NOP
def MFPD := NOP
def MFPI := NOP
def MTPD := NOP
def MTPI := NOP
def MUL := NOP
def SXT := NOP
def XOR := NOP

end XMachine.Cpu
