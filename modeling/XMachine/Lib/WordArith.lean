import Mathlib.Tactic.Common
import Mathlib.Data.BitVec

namespace XMachine.Lib

/-!
# Library — comparison and multi-word arithmetic on bit vectors

What the flags of a subtraction say about the order of its operands, and how an
addition or subtraction splits into one of the low halves and one of the high
halves joined by a carry.  For operands of any width.
-/

variable {v w : ℕ}

/-- **Signed comparison from the flags.**  The sign of the difference, unless
    the subtraction overflows. -/
theorem slt_eq_msb_sub (x y : BitVec w) :
    x.slt y = ((x - y).msb != BitVec.ssubOverflow x y) := by
  have hslt : x.slt y = decide (x.toInt < y.toInt) := rfl
  have hmsb : (x - y).msb = decide ((x - y).toInt < 0) := BitVec.msb_eq_toInt
  by_cases ho : BitVec.ssubOverflow x y = true
  · -- The operands differ in sign and the difference has that of the subtrahend.
    have hd := ho
    rw [BitVec.ssubOverflow, Bool.or_eq_true, decide_eq_true_iff, decide_eq_true_iff, ge_iff_le,
      BitVec.twoPow_le_toInt_sub_toInt_iff, BitVec.toInt_sub_toInt_lt_twoPow_iff,
      ← BitVec.toInt_sub] at hd
    rw [hslt, hmsb, ho]
    rcases hd with ⟨hx, hy, hneg⟩ | ⟨hx, hy, hpos⟩
    · simp only [show ¬ x.toInt < y.toInt by omega, hneg]
      rfl
    · simp only [show x.toInt < y.toInt by omega, show ¬ (x - y).toInt < 0 by omega]
      rfl
  · have hd := BitVec.toInt_sub_of_not_ssubOverflow ho
    rw [Bool.not_eq_true] at ho
    rw [hslt, hmsb, ho, hd, Bool.bne_false, decide_eq_decide]
    omega

theorem toNat_append_eq (x : BitVec v) (y : BitVec w) :
    (x ++ y).toNat = x.toNat * 2 ^ w + y.toNat := by
  rw [BitVec.toNat_append, ← Nat.shiftLeft_add_eq_or_of_lt y.isLt, Nat.shiftLeft_eq]

/-- The carry out of a sum, as a number. -/
theorem toNat_add_carry (x y : BitVec w) :
    x.toNat + y.toNat = (BitVec.uaddOverflow x y).toNat * 2 ^ w + (x + y).toNat := by
  have hx := x.isLt
  have hy := y.isLt
  rw [BitVec.uaddOverflow, BitVec.toNat_add]
  by_cases h : x.toNat + y.toNat ≥ 2 ^ w
  · have hmod : (x.toNat + y.toNat) % 2 ^ w = x.toNat + y.toNat - 2 ^ w := by
      rw [Nat.mod_eq_sub_mod h, Nat.mod_eq_of_lt (by omega)]
    simp only [h, decide_true, Bool.toNat_true]
    omega
  · simp only [h, decide_false, Bool.toNat_false]
    rw [Nat.mod_eq_of_lt (by omega)]
    omega

/-- The low halves add up with a carry into the high halves. -/
theorem append_add_append (xh yh : BitVec v) (xl yl : BitVec w) :
    (xh ++ xl) + (yh ++ yl)
      = (xh + yh + (BitVec.ofBool (BitVec.uaddOverflow xl yl)).setWidth v) ++ (xl + yl) := by
  apply BitVec.eq_of_toNat_eq
  have hcarry := toNat_add_carry xl yl
  have hlow := (xl + yl).isLt
  have hpow : 2 ^ (v + w) = 2 ^ w * 2 ^ v := by rw [Nat.pow_add, Nat.mul_comm]
  generalize hc : BitVec.uaddOverflow xl yl = c at hcarry
  have hsum : xh.toNat * 2 ^ w + xl.toNat + (yh.toNat * 2 ^ w + yl.toNat)
      = (xl + yl).toNat + 2 ^ w * (xh.toNat + yh.toNat + c.toNat) := by
    rw [Nat.mul_add, Nat.mul_add, Nat.mul_comm _ xh.toNat, Nat.mul_comm _ yh.toNat,
      Nat.mul_comm _ c.toNat]
    omega
  have hhigh : (xh + yh + (BitVec.ofBool c).setWidth v).toNat
      = (xh.toNat + yh.toNat + c.toNat) % 2 ^ v := by
    simp
  rw [BitVec.toNat_add, toNat_append_eq, toNat_append_eq, toNat_append_eq, hsum, hpow, hhigh,
    Nat.mod_mul, Nat.add_mul_mod_self_left, Nat.mod_eq_of_lt hlow,
    Nat.add_mul_div_left _ _ (Nat.two_pow_pos w), Nat.div_eq_of_lt hlow, Nat.zero_add]
  rw [Nat.mul_comm, Nat.add_comm]

/-- Adding the subtrahend back carries exactly when the subtraction borrowed. -/
theorem uaddOverflow_sub (x y : BitVec w) :
    BitVec.uaddOverflow (x - y) y = BitVec.usubOverflow x y := by
  have hx := x.isLt
  have hy := y.isLt
  rw [BitVec.uaddOverflow, BitVec.usubOverflow, decide_eq_decide, BitVec.toNat_sub]
  by_cases h : x.toNat < y.toNat
  · rw [Nat.mod_eq_of_lt (by omega)]
    omega
  · have hmod : (2 ^ w - y.toNat + x.toNat) % 2 ^ w = x.toNat - y.toNat := by
      rw [show 2 ^ w - y.toNat + x.toNat = x.toNat - y.toNat + 2 ^ w by omega,
        Nat.add_mod_right, Nat.mod_eq_of_lt (by omega)]
    rw [hmod]
    omega

/-- The low halves subtract with a borrow from the high halves. -/
theorem append_sub_append (xh yh : BitVec v) (xl yl : BitVec w) :
    (xh ++ xl) - (yh ++ yl)
      = (xh - yh - (BitVec.ofBool (BitVec.usubOverflow xl yl)).setWidth v) ++ (xl - yl) := by
  generalize hb : BitVec.usubOverflow xl yl = b
  have hback := append_add_append (xh - yh - (BitVec.ofBool b).setWidth v) yh (xl - yl) yl
  rw [uaddOverflow_sub, hb, BitVec.sub_add_cancel] at hback
  rw [eq_comm, BitVec.eq_sub_iff_add_eq, hback, BitVec.add_assoc (xh - yh - _),
    BitVec.add_comm yh, ← BitVec.add_assoc, BitVec.sub_add_cancel, BitVec.sub_add_cancel]

/-- A word is its own negative only at the two ends of the number circle. -/
theorem eq_neg_iff (x : BitVec (w + 1)) : x = -x ↔ x = 0 ∨ x = BitVec.intMin (w + 1) := by
  have hx := x.isLt
  have hpow : 2 ^ (w + 1) = 2 * 2 ^ w := Nat.pow_succ'
  rw [← BitVec.toNat_inj, ← BitVec.toNat_inj, ← BitVec.toNat_inj, BitVec.toNat_neg,
    BitVec.toNat_intMin_of_pos (Nat.succ_pos w), Nat.succ_sub_one]
  by_cases h0 : x.toNat = 0
  · simp [h0]
  · rw [Nat.mod_eq_of_lt (by omega)]
    have hzero : (0 : BitVec (w + 1)).toNat = 0 := BitVec.toNat_zero
    omega

end XMachine.Lib
