import XMachine.Lib.BitMask
import Mathlib.Algebra.GroupWithZero.Nat
import Mathlib.Data.Fintype.Prod

namespace XMachine.Cpu

open XMachine.Lib

/-!
# CPU — operand specifiers

The six-bit operand field of an instruction word: a mode and a register
number.  The architecture's part only; what the code does with a specifier is
in `Operands`.
-/

/-- For the numerals of modes and registers. -/
instance instNeZeroEight : NeZero 8 := ⟨by decide⟩

/-- A mode and a register number. -/
structure Specifier where
  mode : Fin 8
  reg : Fin 8
  deriving DecidableEq, Repr

namespace Specifier

/-- A statement about all specifiers is one about all pairs of fields. -/
theorem forall_iff {p : Specifier → Prop} :
    (∀ o, p o) ↔ ∀ mode reg, p ⟨mode, reg⟩ :=
  ⟨fun h mode reg => h ⟨mode, reg⟩, fun h o => h o.mode o.reg⟩

instance {p : Specifier → Prop} [DecidablePred p] : Decidable (∀ o, p o) :=
  decidable_of_iff' _ forall_iff

/-- The specifier whose lowest bit is bit `lo` of the word. -/
def ofWord (w : BitVec 16) (lo : ℕ) : Specifier where
  mode := (w.extractLsb' (lo + 3) 3).toFin
  reg := (w.extractLsb' lo 3).toFin

/-- The destination field, bits 0–5. -/
def dest (w : BitVec 16) : Specifier := ofWord w 0

/-- The source field, bits 6–11. -/
def src (w : BitVec 16) : Specifier := ofWord w 6

/-- A field as the code holds it after masking and shifting. -/
def fieldWord (f : Fin 8) : BitVec 16 := BitVec.ofNat 16 f

theorem fieldWord_ofWord (w : BitVec 16) (lo : ℕ) (h : lo + 6 ≤ 16) :
    fieldWord (ofWord w lo).reg = (w &&& ((0o7 : BitVec 16) <<< lo)) >>> lo ∧
      fieldWord (ofWord w lo).mode
        = (w &&& ((0o7 : BitVec 16) <<< (lo + 3))) >>> (lo + 3) := by
  constructor
  · exact (BitVec.ofNat_toNat ..).trans (and_mask_ushiftRight w lo 3 (by omega)).symm
  · exact (BitVec.ofNat_toNat ..).trans (and_mask_ushiftRight w (lo + 3) 3 (by omega)).symm

/-- The six bits of the specifier. -/
def word (o : Specifier) : BitVec 16 := fieldWord o.mode <<< 3 ||| fieldWord o.reg

/-- The architecture gives the specifier an operand word: index modes on any
    register, immediate and absolute on PC. -/
def hasOperandWord (o : Specifier) : Bool :=
  o.mode == 6 || o.mode == 7 || (o.reg == 7 && (o.mode == 2 || o.mode == 3))

end Specifier

end XMachine.Cpu
