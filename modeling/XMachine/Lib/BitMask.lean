import Mathlib.Algebra.Group.Nat.Defs
import Mathlib.Tactic.Common

namespace XMachine.Lib

/-!
# Library — masks and fields of bit vectors

The masks a decoder uses, read as statements about bits, fields and bounds.
-/

variable {w : ℕ}

/-- Testing one bit. -/
theorem and_twoPow_ne_zero {i : ℕ} (x : BitVec w) (hi : i < w) :
    x &&& BitVec.twoPow w i ≠ 0 ↔ x.getLsbD i = true := by
  have hpow : BitVec.twoPow w i ≠ 0 := by
    intro h
    have hbit := congrArg (BitVec.getLsbD · i) h
    simp [hi] at hbit
  rw [BitVec.and_twoPow]
  by_cases hx : x.getLsbD i = true
  · simpa [hx] using hpow
  · simp [hx]

/-- Set or clear one bit, the clearing done by `xor` when the bit is set. -/
def writeBit (x : BitVec w) (i : ℕ) (b : Bool) : BitVec w :=
  if b then x ||| BitVec.twoPow w i
  else if x &&& BitVec.twoPow w i ≠ 0 then x ^^^ BitVec.twoPow w i else x

theorem getLsbD_writeBit (x : BitVec w) {i : ℕ} (b : Bool) (j : ℕ) (hi : i < w) :
    (writeBit x i b).getLsbD j = if j = i then b else x.getLsbD j := by
  have hpow : (BitVec.twoPow w i).getLsbD j = decide (j = i) := by
    rw [BitVec.getLsbD_twoPow]
    by_cases hj : j = i
    · simp [hj, hi]
    · simp [hj, Ne.symm hj]
  cases b with
  | true => by_cases hj : j = i <;> simp [writeBit, hpow, hj, hi]
  | false =>
    simp only [writeBit, and_twoPow_ne_zero x hi, Bool.false_eq_true, if_false]
    by_cases hx : x.getLsbD i = true
    · by_cases hj : j = i
      · subst hj
        simp [hx, hpow]
      · simp [hx, hpow, hj]
    · rw [if_neg hx]
      by_cases hj : j = i
      · subst hj
        simpa using hx
      · rw [if_neg hj]

/-- Putting up the bits of `x` adds nothing exactly when `y` has them. -/
theorem or_eq_right_iff (x y : BitVec w) : x ||| y = y ↔ x &&& ~~~y = 0 := by
  constructor
  · intro h
    apply BitVec.eq_of_getLsbD_eq
    intro i hi
    have hbit := congrArg (BitVec.getLsbD · i) h
    simp only [BitVec.getLsbD_or] at hbit
    simp only [BitVec.getLsbD_and, BitVec.getLsbD_not, hi, decide_true, Bool.true_and]
    revert hbit
    cases x.getLsbD i <;> cases y.getLsbD i <;> simp
  · intro h
    apply BitVec.eq_of_getLsbD_eq
    intro i hi
    have hbit := congrArg (BitVec.getLsbD · i) h
    simp only [BitVec.getLsbD_and, BitVec.getLsbD_not, hi, decide_true, Bool.true_and] at hbit
    rw [BitVec.getLsbD_or]
    revert hbit
    cases x.getLsbD i <;> cases y.getLsbD i <;> simp

/-- A shift to the right that drops clear bits only loses nothing. -/
theorem ushiftRight_inj {x y : BitVec w} {k : ℕ} (hx : ∀ i < k, x.getLsbD i = false)
    (hy : ∀ i < k, y.getLsbD i = false) : x >>> k = y >>> k ↔ x = y := by
  refine ⟨fun h => BitVec.eq_of_getLsbD_eq fun i _ => ?_, fun h => by rw [h]⟩
  by_cases hi : i < k
  · rw [hx i hi, hy i hi]
  · have hbit := congrArg (BitVec.getLsbD · (i - k)) h
    simpa only [BitVec.getLsbD_ushiftRight, show k + (i - k) = i by omega] using hbit

/-- The bits from `k` on are clear exactly below `2 ^ k`. -/
theorem and_allOnes_shiftLeft_eq_zero {k : ℕ} (x : BitVec w) :
    x &&& (BitVec.allOnes w <<< k) = 0 ↔ x.toNat < 2 ^ k := by
  constructor
  · intro h
    apply Nat.lt_pow_two_of_testBit
    intro i hi
    by_cases hiw : i < w
    · have hbit := congrArg (BitVec.getLsbD · i) h
      simpa [hiw, Nat.not_lt.mpr hi, show i - k < w by omega, BitVec.getLsbD_eq_getElem hiw,
        BitVec.getElem_eq_testBit_toNat] using hbit
    · exact BitVec.getLsbD_of_ge x i (by omega)
  · intro h
    apply BitVec.eq_of_getLsbD_eq
    intro i hiw
    by_cases hi : i < k
    · simp [hi]
    · have hx : x.getLsbD i = false :=
        Nat.testBit_lt_two_pow (Nat.lt_of_lt_of_le h (Nat.pow_le_pow_right (by omega) (by omega)))
      simp [hx]

/-- Clearing the bits below `k` leaves the remaining field in place. -/
theorem and_allOnes_shiftLeft (x : BitVec w) (k : ℕ) :
    x &&& (BitVec.allOnes w <<< k) = (x.extractLsb' k (w - k)).setWidth w <<< k := by
  apply BitVec.eq_of_getLsbD_eq
  intro i hi
  by_cases hk : i < k
  · simp [hk]
  · simp [hi, hk, show i - k < w - k by omega, show k + (i - k) = i by omega]

/-- The field of `len` bits from bit `lo`, cut out with a mask and a shift. -/
theorem and_mask_ushiftRight (x : BitVec w) (lo len : ℕ) (h : lo + len ≤ w) :
    (x &&& ((BitVec.allOnes len).setWidth w <<< lo)) >>> lo
      = (x.extractLsb' lo len).setWidth w := by
  apply BitVec.eq_of_getLsbD_eq
  intro i hi
  by_cases hlen : i < len
  · simp [hi, hlen, show lo + i < w by omega]
  · simp [hi, hlen]

/-- Clearing the bits below `k` rounds down to a multiple of `2 ^ k`. -/
theorem toNat_and_allOnes_shiftLeft (x : BitVec w) (k : ℕ) :
    (x &&& (BitVec.allOnes w <<< k)).toNat = x.toNat / 2 ^ k * 2 ^ k := by
  have hx : x &&& (BitVec.allOnes w <<< k) = x >>> k <<< k := by
    apply BitVec.eq_of_getLsbD_eq
    intro i hi
    by_cases hk : i < k
    · simp [hk]
    · simp [hi, hk, show k + (i - k) = i by omega]
  have hlt : x.toNat / 2 ^ k * 2 ^ k < 2 ^ w :=
    Nat.lt_of_le_of_lt (Nat.div_mul_le_self _ _) x.isLt
  rw [hx, BitVec.toNat_shiftLeft, BitVec.toNat_ushiftRight, Nat.shiftRight_eq_div_pow,
    Nat.shiftLeft_eq, Nat.mod_eq_of_lt hlt]

/-! ### Replacing a field -/

/-- Put `v` in place of the bits from `lo` on. -/
def replaceField {len : ℕ} (x : BitVec w) (lo : ℕ) (v : BitVec len) : BitVec w :=
  (x &&& ~~~((BitVec.allOnes len).setWidth w <<< lo)) ||| v.setWidth w <<< lo

theorem getLsbD_replaceField {len : ℕ} (x : BitVec w) {lo : ℕ} (v : BitVec len) {j : ℕ}
    (hj : j < w) : (replaceField x lo v).getLsbD j =
      if lo ≤ j ∧ j < lo + len then v.getLsbD (j - lo) else x.getLsbD j := by
  by_cases hlo : lo ≤ j
  · by_cases hlen : j < lo + len
    · simp [replaceField, hj, hlo, hlen, show ¬ j < lo by omega, show j - lo < len by omega]
    · have hv : v.getLsbD (j - lo) = false := BitVec.getLsbD_of_ge v _ (by omega)
      simp [replaceField, hj, hlen, hv, show ¬ j - lo < len by omega]
  · simp [replaceField, hj, hlo, show j < lo by omega]

/-- The field replaced. -/
theorem extractLsb'_replaceField {len : ℕ} (x : BitVec w) (lo : ℕ) (v : BitVec len)
    (h : lo + len ≤ w) : (replaceField x lo v).extractLsb' lo len = v := by
  apply BitVec.eq_of_getLsbD_eq
  intro i hi
  rw [BitVec.getLsbD_extractLsb', getLsbD_replaceField x v (by omega), if_pos ⟨by omega, by omega⟩,
    Nat.add_sub_cancel_left]
  simp [hi]

/-- A field apart from the one replaced. -/
theorem extractLsb'_replaceField_of_disjoint {len : ℕ} (x : BitVec w) (lo : ℕ) (v : BitVec len)
    {lo' len' : ℕ} (hw : lo' + len' ≤ w) (h : lo' + len' ≤ lo ∨ lo + len ≤ lo') :
    (replaceField x lo v).extractLsb' lo' len' = x.extractLsb' lo' len' := by
  apply BitVec.eq_of_getLsbD_eq
  intro i hi
  rw [BitVec.getLsbD_extractLsb', BitVec.getLsbD_extractLsb', getLsbD_replaceField x v (by omega),
    if_neg (by omega)]

/-- A mask apart from the field replaced. -/
theorem replaceField_and {len : ℕ} (x : BitVec w) (lo : ℕ) (v : BitVec len) {mask : BitVec w}
    (h : mask &&& (BitVec.allOnes len).setWidth w <<< lo = 0) :
    replaceField x lo v &&& mask = x &&& mask := by
  apply BitVec.eq_of_getLsbD_eq
  intro i hi
  rw [BitVec.getLsbD_and, BitVec.getLsbD_and, getLsbD_replaceField x v hi]
  split
  · next hfield =>
    have hbit := congrArg (BitVec.getLsbD · i) h
    have hmask : mask.getLsbD i = false := by
      simpa [hi, hfield.1, show ¬ i < lo by omega, show i - lo < len by omega,
        show i - lo < w by omega] using hbit
    rw [hmask, Bool.and_false, Bool.and_false]
  · rfl

/-! ### Patterns -/

/-- A pattern over words: the bits under `mask` are those of `value`. -/
structure Pattern (w : ℕ) where
  mask : BitVec w
  value : BitVec w
  deriving DecidableEq

namespace Pattern

def Matches (p : Pattern w) (x : BitVec w) : Prop := x &&& p.mask = p.value

instance (p : Pattern w) (x : BitVec w) : Decidable (p.Matches x) :=
  inferInstanceAs (Decidable (_ = _))

/-- The two patterns agree on the bits that both look at. -/
def Overlap (p q : Pattern w) : Prop := p.value &&& q.mask = q.value &&& p.mask

instance (p q : Pattern w) : Decidable (p.Overlap q) := inferInstanceAs (Decidable (_ = _))

theorem Matches.overlap {p q : Pattern w} {x : BitVec w} (hp : p.Matches x) (hq : q.Matches x) :
    p.Overlap q :=
  calc p.value &&& q.mask = x &&& p.mask &&& q.mask := by rw [hp]
    _ = x &&& q.mask &&& p.mask := by
      rw [BitVec.and_assoc, BitVec.and_comm p.mask, BitVec.and_assoc]
    _ = q.value &&& p.mask := by rw [hq]

/-- Patterns of which no two overlap: a word matches at most one. -/
theorem eq_of_matches {α : Type*} {pattern : α → Pattern w}
    (hsep : ∀ a b, (pattern a).Overlap (pattern b) → a = b) {a b : α} {x : BitVec w}
    (ha : (pattern a).Matches x) (hb : (pattern b).Matches x) : a = b :=
  hsep a b (ha.overlap hb)

/-- A pattern that looks at the bits from `k` on is an interval of words. -/
theorem matches_iff_interval {p : Pattern w} {k : ℕ} (x : BitVec w)
    (hmask : p.mask = BitVec.allOnes w <<< k) (hvalue : p.value.toNat % 2 ^ k = 0) :
    p.Matches x ↔ p.value.toNat ≤ x.toNat ∧ x.toNat < p.value.toNat + 2 ^ k := by
  have hdm := Nat.div_add_mod' x.toNat (2 ^ k)
  have hlt := Nat.mod_lt x.toNat (Nat.two_pow_pos k)
  unfold Matches
  rw [← BitVec.toNat_inj, hmask, toNat_and_allOnes_shiftLeft]
  constructor
  · intro h
    omega
  · rintro ⟨hlo, hhi⟩
    obtain ⟨q, hq⟩ := Nat.dvd_of_mod_eq_zero hvalue
    rw [hq] at hlo hhi ⊢
    have hdiv : x.toNat / 2 ^ k = q := by
      rw [Nat.div_eq_iff (Nat.two_pow_pos k), Nat.mul_comm q]
      omega
    rw [hdiv, Nat.mul_comm]

end Pattern

end XMachine.Lib
