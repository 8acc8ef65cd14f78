import XMachine.Lib.ByteStore
import XMachine.Lib.Simulation
import XMachine.Cpu.Specifier

namespace XMachine.Pdp11

open XMachine.Lib
open XMachine.Cpu (Specifier)

/-!
# Reference — the PDP-11 core word subset

A reference interpreter for `MOV`, `BIT`, `BIC`, `BIS`, `ADD`, `CLR`, `COM`,
`INC`, `DEC`, `NEG`, `ASL`, `TST`, five branches and `HALT`, written from the
architecture and not from the emulator: eight uniform registers, one effective
address function for all of them, condition codes as booleans.

A step refuses (`none`) on an instruction word outside the subset, on an
operand mode outside it, and on a word access above `0776`.
-/

abbrev Word := BitVec 16

/-- The registers R0–R7 (R6 is SP, R7 is PC), N, Z, the run state and memory. -/
structure State where
  r : Fin 8 → Word
  n : Bool
  z : Bool
  halted : Bool
  mem : ByteStore (BitVec 32)

/-! ### Instructions -/

inductive DoubleOp
  | mov | bit | bic | bis | add
  deriving DecidableEq, Repr

inductive SingleOp
  | clr | com | inc | dec | neg | asl | tst
  deriving DecidableEq, Repr

inductive Cond
  | always | ne | eq | pl | mi
  deriving DecidableEq, Repr

/-- What the ten high bits of an instruction word say. -/
inductive Opcode
  | double (op : DoubleOp)
  | single (op : SingleOp)
  | branch (c : Cond)
  deriving DecidableEq, Repr

def doubleOpcode (code : BitVec 4) : Option DoubleOp :=
  match code.toNat with
  | 0o1 => some .mov
  | 0o3 => some .bit
  | 0o4 => some .bic
  | 0o5 => some .bis
  | 0o6 => some .add
  | _ => none

def singleOpcode (code : BitVec 10) : Option SingleOp :=
  match code.toNat with
  | 0o0050 => some .clr
  | 0o0051 => some .com
  | 0o0052 => some .inc
  | 0o0053 => some .dec
  | 0o0054 => some .neg
  | 0o0057 => some .tst
  | 0o0063 => some .asl
  | _ => none

def branchOpcode (code : BitVec 8) : Option Cond :=
  match code.toNat with
  | 0o001 => some .always
  | 0o002 => some .ne
  | 0o003 => some .eq
  | 0o200 => some .pl
  | 0o201 => some .mi
  | _ => none

def opcode (code : BitVec 10) : Option Opcode :=
  (doubleOpcode (code.extractLsb' 6 4)).map .double <|>
    (singleOpcode code).map .single <|>
    (branchOpcode (code.extractLsb' 2 8)).map .branch

/-- The modes of the subset: 0–2 on R0–R5, 0–4 on SP, 0, 2 and 3 on PC. -/
def supported (o : Specifier) : Bool :=
  match o.reg with
  | 7 => o.mode = 0 || o.mode = 2 || o.mode = 3
  | 6 => o.mode ≤ 4
  | _ => o.mode ≤ 2

def DoubleOp.eval (op : DoubleOp) (src dst : Word) : Word :=
  match op with
  | mov => src
  | bit => src &&& dst
  | bic => dst &&& ~~~src
  | bis => dst ||| src
  | add => dst + src

def SingleOp.eval (op : SingleOp) (dst : Word) : Word :=
  match op with
  | clr => 0
  | com => ~~~dst
  | inc => dst + 1
  | dec => dst - 1
  | neg => -dst
  | asl => 2 * dst
  | tst => dst

def Cond.holds (c : Cond) (s : State) : Bool :=
  match c with
  | always => true
  | ne => !s.z
  | eq => s.z
  | pl => !s.n
  | mi => s.n

/-! ### Accesses -/

/-- Where an operand is. -/
inductive Place
  | reg (i : Fin 8)
  | mem (a : Word)
  deriving DecidableEq, Repr

namespace State

def setReg (s : State) (i : Fin 8) (v : Word) : State := { s with r := Function.update s.r i v }

/-- The highest word address of the subset. -/
def topAddress : Word := 0o776

def load (s : State) (a : Word) : Option Word :=
  if a ≤ topAddress then some (s.mem.readWord (a.setWidth 32)) else none

def store (s : State) (a v : Word) : Option State :=
  if a ≤ topAddress then some { s with mem := s.mem.writeWord (a.setWidth 32) v } else none

def read (s : State) : Place → Option Word
  | .reg i => some (s.r i)
  | .mem a => s.load a

def write (s : State) (p : Place) (v : Word) : Option State :=
  match p with
  | .reg i => some (s.setReg i v)
  | .mem a => s.store a v

/-- The effective address of an operand, with its register side effect. -/
def ea (s : State) (o : Specifier) : Option (Place × State) :=
  if supported o then
    let rn := s.r o.reg
    match o.mode with
    | 0 => some (.reg o.reg, s)
    | 1 => some (.mem rn, s)
    | 2 => some (.mem rn, s.setReg o.reg (rn + 2))
    | 3 => (s.load rn).map fun a => (.mem a, s.setReg o.reg (rn + 2))
    | 4 => some (.mem (rn - 2), s.setReg o.reg (rn - 2))
    | _ => none
  else none

/-- N and Z of a result. -/
def setNZ (s : State) (v : Word) : State := { s with n := v.msb, z := v == 0 }

/-! ### Execution -/

/-- Set N and Z, and write the result back unless the instruction is a test. -/
def finish (s : State) (test : Bool) (q : Place) (v : Word) : Option State :=
  (if test then some s else s.write q v).map (·.setNZ v)

def double (s : State) (op : DoubleOp) (src dst : Specifier) : Option State := do
  let (p, s) ← s.ea src
  let (q, s) ← s.ea dst
  let x ← s.read p
  let y ← s.read q
  s.finish (op == .bit) q (op.eval x y)

def single (s : State) (op : SingleOp) (dst : Specifier) : Option State := do
  let (q, s) ← s.ea dst
  let y ← s.read q
  s.finish (op == .tst) q (op.eval y)

def branch (s : State) (c : Cond) (offset : BitVec 8) : State :=
  if c.holds s then s.setReg 7 (s.r 7 + 2 * offset.signExtend 16) else s

/-- Execute the instruction word `w`, PC already past it. -/
def exec (s : State) (w : Word) : Option State :=
  if w = 0 then some { s with halted := true }
  else
    match opcode (w.extractLsb' 6 10) with
    | some (.double op) => s.double op (.src w) (.dest w)
    | some (.single op) => s.single op (.dest w)
    | some (.branch c) => some (s.branch c (w.extractLsb' 0 8))
    | none => none

def step (s : State) : Option State :=
  (s.load (s.r 7)).bind fun w => (s.setReg 7 (s.r 7 + 2)).exec w

/-- The state after the first `n` instructions, if all are in the subset. -/
def run : ℕ → State → Option State := runPartial State.halted step

end State

end XMachine.Pdp11
