import Mathlib.Tactic.Common
import Mathlib.Logic.Equiv.Basic

namespace XMachine.Lib

/-!
# Library — rotations by one place

Rotation of a word on its own and together with a carry bit, for words of any
width.  `Alternating` names the words that a rotation by two places leaves as
they are; on them, and with the right carry, the two rotations cannot be told
apart, not even when one goes the wrong way round.
-/

variable {w : ℕ}

theorem getLsbD_rotateLeft_one (x : BitVec w) {i : ℕ} (hw : 1 < w) (hi : i < w) :
    (x.rotateLeft 1).getLsbD i = if i = 0 then x.getLsbD (w - 1) else x.getLsbD (i - 1) := by
  rw [BitVec.getLsbD_rotateLeft_of_le hw]
  by_cases h0 : i = 0
  · simp [h0]
  · simp [h0, hi]

theorem getLsbD_rotateRight_one (x : BitVec w) {i : ℕ} (hw : 1 < w) (hi : i < w) :
    (x.rotateRight 1).getLsbD i = if i = w - 1 then x.getLsbD 0 else x.getLsbD (i + 1) := by
  rw [BitVec.getLsbD_rotateRight_of_lt hw]
  by_cases h : i < w - 1
  · simp [h, show i ≠ w - 1 by omega, Nat.add_comm]
  · have hlast : i = w - 1 := by omega
    subst hlast
    simp [hi]

/-- The rotation by one place to the left, with the one to the right as its inverse. -/
def rotation (hw : 1 < w) : Equiv.Perm (BitVec w) where
  toFun x := x.rotateLeft 1
  invFun x := x.rotateRight 1
  left_inv x := by
    apply BitVec.eq_of_getLsbD_eq
    intro i hi
    rw [getLsbD_rotateRight_one _ hw hi]
    by_cases h : i = w - 1
    · rw [if_pos h, getLsbD_rotateLeft_one _ hw (by omega), if_pos rfl, h]
    · rw [if_neg h, getLsbD_rotateLeft_one _ hw (by omega), if_neg (by omega), Nat.add_sub_cancel]
  right_inv x := by
    apply BitVec.eq_of_getLsbD_eq
    intro i hi
    rw [getLsbD_rotateLeft_one _ hw hi]
    by_cases h : i = 0
    · rw [if_pos h, getLsbD_rotateRight_one _ hw (by omega), if_pos rfl, h]
    · rw [if_neg h, getLsbD_rotateRight_one _ hw (by omega), if_neg (by omega),
        Nat.sub_add_cancel (by omega)]

/-! ### With a carry -/

/-- `(c', x')` is `(c, x)`, as one word, rotated one place to the left. -/
def RotatesLeft (c : Bool) (x : BitVec w) (c' : Bool) (x' : BitVec w) : Prop :=
  BitVec.ofBool c' ++ x' = (BitVec.ofBool c ++ x).rotateLeft 1

def RotatesRight (c : Bool) (x : BitVec w) (c' : Bool) (x' : BitVec w) : Prop :=
  BitVec.ofBool c' ++ x' = (BitVec.ofBool c ++ x).rotateRight 1

theorem getLsbD_carry (c : Bool) (x : BitVec w) (i : ℕ) :
    (BitVec.ofBool c ++ x).getLsbD i = if i < w then x.getLsbD i else decide (i = w) && c := by
  rw [BitVec.getLsbD_append]
  by_cases h : i < w
  · simp [h]
  · by_cases he : i = w
    · simp [he]
    · simp [h, he, show i - w ≠ 0 by omega]

theorem carry_append_eq_iff (c : Bool) (x : BitVec w) (y : BitVec (1 + w)) :
    BitVec.ofBool c ++ x = y ↔ c = y.getLsbD w ∧ ∀ i < w, x.getLsbD i = y.getLsbD i := by
  constructor
  · rintro rfl
    constructor
    · rw [getLsbD_carry, if_neg (Nat.lt_irrefl w), decide_eq_true rfl, Bool.true_and]
    · intro i hi
      rw [getLsbD_carry, if_pos hi]
  · rintro ⟨hc, hx⟩
    apply BitVec.eq_of_getLsbD_eq
    intro i hi
    rw [getLsbD_carry]
    by_cases h : i < w
    · rw [if_pos h, hx i h]
    · have hlast : i = w := by omega
      simp [hlast, hc]

/-- The new lowest bit is the old carry, the new carry the old highest bit. -/
theorem rotatesLeft_iff (hw : 0 < w) (c : Bool) (x : BitVec w) (c' : Bool) (x' : BitVec w) :
    RotatesLeft c x c' x' ↔ c' = x.getLsbD (w - 1) ∧
      ∀ i < w, x'.getLsbD i = if i = 0 then c else x.getLsbD (i - 1) := by
  have hbit (i : ℕ) (hi : i < 1 + w) : ((BitVec.ofBool c ++ x).rotateLeft 1).getLsbD i
      = if i = 0 then c else x.getLsbD (i - 1) := by
    rw [getLsbD_rotateLeft_one _ (by omega) hi, getLsbD_carry, getLsbD_carry,
      Nat.add_sub_cancel_left, if_neg (Nat.lt_irrefl w), if_pos (by omega : i - 1 < w)]
    simp
  rw [RotatesLeft, carry_append_eq_iff, hbit w (by omega), if_neg (by omega)]
  refine and_congr_right fun _ => forall₂_congr fun i hi => ?_
  rw [hbit i (by omega)]

theorem rotatesRight_iff (hw : 0 < w) (c : Bool) (x : BitVec w) (c' : Bool) (x' : BitVec w) :
    RotatesRight c x c' x' ↔ c' = x.getLsbD 0 ∧
      ∀ i < w, x'.getLsbD i = if i = w - 1 then c else x.getLsbD (i + 1) := by
  have hbit (i : ℕ) (hi : i < 1 + w) : ((BitVec.ofBool c ++ x).rotateRight 1).getLsbD i
      = if i = w then x.getLsbD 0 else if i = w - 1 then c else x.getLsbD (i + 1) := by
    rw [getLsbD_rotateRight_one _ (by omega) hi, getLsbD_carry, getLsbD_carry,
      Nat.add_sub_cancel_left, if_pos hw]
    by_cases h : i = w
    · rw [if_pos h, if_pos h]
    · rw [if_neg h, if_neg h]
      by_cases h1 : i = w - 1
      · simp [h1, Nat.sub_add_cancel hw]
      · rw [if_neg h1, if_pos (by omega)]
  rw [RotatesRight, carry_append_eq_iff, hbit w (by omega), if_pos rfl]
  refine and_congr_right fun _ => forall₂_congr fun i hi => ?_
  rw [hbit i (by omega), if_neg (by omega)]

/-! ### Rotating the wrong way round -/

/-- Every other bit is the same. -/
def Alternating (x : BitVec w) : Prop := ∀ i < w - 2, x.getLsbD (i + 2) = x.getLsbD i

instance (x : BitVec w) : Decidable (Alternating x) := Nat.decidableBallLT _ _

theorem Alternating.getLsbD {x : BitVec w} (h : Alternating x) (i k : ℕ) (hi : i + 2 * k < w) :
    x.getLsbD (i + 2 * k) = x.getLsbD i := by
  induction k with
  | zero => rfl
  | succ k ih =>
    rw [← ih (by omega), ← h (i + 2 * k) (by omega)]
    rfl

/-- A rotation to the right passes for one to the left through the carry. -/
theorem rotatesLeft_rotateRight_iff (hw : 1 < w) (heven : w % 2 = 0) (c : Bool) (x : BitVec w) :
    RotatesLeft c x c (x.rotateRight 1) ↔ c = x.getLsbD (w - 1) ∧ Alternating x := by
  rw [rotatesLeft_iff (by omega)]
  refine and_congr_right fun hc => ⟨fun h i hi => ?_, fun h i hi => ?_⟩
  · have hbit := h (i + 1) (by omega)
    rwa [getLsbD_rotateRight_one x hw (by omega), if_neg (by omega), if_neg (by omega)] at hbit
  · rw [getLsbD_rotateRight_one x hw hi]
    -- The two ends of the word are an even number of places apart from their neighbours.
    by_cases h0 : i = 0
    · have hodd := h.getLsbD 1 (w / 2 - 1) (by omega)
      rw [show 1 + 2 * (w / 2 - 1) = w - 1 by omega] at hodd
      rw [if_neg (by omega), if_pos h0, hc, hodd, h0]
    · rw [if_neg h0]
      by_cases hlast : i = w - 1
      · have heven := h.getLsbD 0 (w / 2 - 1) (by omega)
        rw [show 0 + 2 * (w / 2 - 1) = i - 1 by omega] at heven
        rw [if_pos hlast, heven]
      · have hstep := h (i - 1) (by omega)
        rwa [if_neg hlast, ← show i - 1 + 2 = i + 1 by omega]

/-- And one to the left for one to the right. -/
theorem rotatesRight_rotateLeft_iff (hw : 1 < w) (heven : w % 2 = 0) (c : Bool) (x : BitVec w) :
    RotatesRight c x c (x.rotateLeft 1) ↔ c = x.getLsbD 0 ∧ Alternating x := by
  rw [rotatesRight_iff (by omega)]
  refine and_congr_right fun hc => ⟨fun h i hi => ?_, fun h i hi => ?_⟩
  · have hbit := h (i + 1) (by omega)
    rw [getLsbD_rotateLeft_one x hw (by omega), if_neg (by omega), if_neg (by omega)] at hbit
    exact hbit.symm
  · rw [getLsbD_rotateLeft_one x hw hi]
    by_cases hlast : i = w - 1
    · have heven := h.getLsbD 0 (w / 2 - 1) (by omega)
      rw [show 0 + 2 * (w / 2 - 1) = i - 1 by omega] at heven
      rw [if_neg (by omega), if_pos hlast, hc, heven]
    · rw [if_neg hlast]
      by_cases h0 : i = 0
      · have hodd := h.getLsbD 1 (w / 2 - 1) (by omega)
        rw [show 1 + 2 * (w / 2 - 1) = w - 1 by omega] at hodd
        rw [if_pos h0, h0, hodd]
      · have hstep := h (i - 1) (by omega)
        rw [if_neg h0, ← show i - 1 + 2 = i + 1 by omega, hstep]

end XMachine.Lib
