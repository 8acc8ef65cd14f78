import Mathlib.Logic.Function.Basic
import Mathlib.Tactic.Common

namespace XMachine.Lib

/-!
# Library — little-endian byte stores

A byte-addressed store over an arbitrary address type, with word accesses that
use an address and its successor.  Everything a client needs is stated here:
what a word read returns after a word or byte write, which bytes a write leaves
alone, and that writing back the word already present changes nothing.
-/

/-- A store of bytes indexed by `A`. -/
abbrev ByteStore (A : Type) := A → BitVec 8

/-- The low-order byte of a word. -/
def lowByte (w : BitVec 16) : BitVec 8 := w.setWidth 8

/-- The high-order byte of a word. -/
def highByte (w : BitVec 16) : BitVec 8 := (w >>> 8).setWidth 8

/-- The word with the given high and low bytes. -/
def joinBytes (hi lo : BitVec 8) : BitVec 16 := lo.setWidth 16 ||| (hi.setWidth 16 <<< 8)

@[simp] theorem lowByte_joinBytes (hi lo : BitVec 8) : lowByte (joinBytes hi lo) = lo := by
  apply BitVec.eq_of_getLsbD_eq
  intro i hi'
  simp [lowByte, joinBytes, hi']

@[simp] theorem highByte_joinBytes (hi lo : BitVec 8) : highByte (joinBytes hi lo) = hi := by
  apply BitVec.eq_of_getLsbD_eq
  intro i hi'
  have hlo : lo.getLsbD (8 + i) = false := BitVec.getLsbD_of_ge _ _ (by omega)
  simp only [highByte, joinBytes, BitVec.getLsbD_setWidth, BitVec.getLsbD_ushiftRight,
    BitVec.getLsbD_or, BitVec.getLsbD_shiftLeft, hlo, hi', Nat.add_sub_cancel_left,
    show 8 + i < 16 by omega, show ¬ 8 + i < 8 by omega, show i < 16 by omega, decide_true,
    decide_false, Bool.not_false, Bool.true_and, Bool.and_false, Bool.false_or]

@[simp] theorem joinBytes_bytes (w : BitVec 16) : joinBytes (highByte w) (lowByte w) = w := by
  apply BitVec.eq_of_getLsbD_eq
  intro i hi
  simp only [highByte, lowByte, joinBytes, BitVec.getLsbD_setWidth, BitVec.getLsbD_ushiftRight,
    BitVec.getLsbD_or, BitVec.getLsbD_shiftLeft, hi, decide_true, Bool.true_and]
  by_cases h8 : i < 8
  · simp [h8]
  · have hsub : 8 + (i - 8) = i := by omega
    simp [h8, hsub, show i - 8 < 8 by omega, show i - 8 < 16 by omega]

theorem lowByte_sub (w t : BitVec 16) : lowByte (w - t) = lowByte w - lowByte t := by
  apply BitVec.eq_of_toNat_eq
  simp only [lowByte, BitVec.toNat_setWidth, BitVec.toNat_sub]
  omega

/-- Taking less than a byte from a word takes at most one from its high byte. -/
theorem highByte_sub (w : BitVec 16) {t : BitVec 16} (ht : t.toNat < 256) :
    highByte (w - t) = highByte w - if (lowByte w).toNat < t.toNat then 1 else 0 := by
  have hw := w.isLt
  have hone : (1 : BitVec 8).toNat = 1 := rfl
  have hzero : (0 : BitVec 8).toNat = 0 := rfl
  rw [lowByte, BitVec.toNat_setWidth]
  apply BitVec.eq_of_toNat_eq
  simp only [highByte, BitVec.toNat_setWidth, BitVec.toNat_sub, BitVec.toNat_ushiftRight,
    Nat.shiftRight_eq_div_pow]
  split <;> omega

/-- A word is determined by its two bytes. -/
theorem word_ext {v w : BitVec 16} (hlo : lowByte v = lowByte w) (hhi : highByte v = highByte w) :
    v = w := by
  rw [← joinBytes_bytes v, ← joinBytes_bytes w, hlo, hhi]

namespace ByteStore

variable {A : Type} [DecidableEq A] [Add A] [OfNat A 1]

/-- The little-endian word at `a`: low byte at `a`, high byte at `a + 1`. -/
def readWord (st : ByteStore A) (a : A) : BitVec 16 := joinBytes (st (a + 1)) (st a)

/-- Store one byte. -/
def writeByte (st : ByteStore A) (a : A) (b : BitVec 8) : ByteStore A := Function.update st a b

/-- Store a word little-endian, low byte first. -/
def writeWord (st : ByteStore A) (a : A) (w : BitVec 16) : ByteStore A :=
  writeByte (writeByte st a (lowByte w)) (a + 1) (highByte w)

omit [Add A] [OfNat A 1] in
@[simp] theorem writeByte_self (st : ByteStore A) (a : A) (b : BitVec 8) :
    st.writeByte a b a = b := Function.update_self ..

omit [Add A] [OfNat A 1] in
theorem writeByte_of_ne (st : ByteStore A) {a c : A} (b : BitVec 8) (h : c ≠ a) :
    st.writeByte a b c = st c := Function.update_of_ne h ..

@[simp] theorem writeWord_succ (st : ByteStore A) (a : A) (w : BitVec 16) :
    st.writeWord a w (a + 1) = highByte w := writeByte_self ..

theorem writeWord_base (st : ByteStore A) {a : A} (w : BitVec 16) (h : a ≠ a + 1) :
    st.writeWord a w a = lowByte w := by
  rw [writeWord, writeByte_of_ne _ _ h, writeByte_self]

/-- A word write changes the two bytes it covers and no other. -/
theorem writeWord_of_ne (st : ByteStore A) {a c : A} (w : BitVec 16)
    (h : c ≠ a) (h1 : c ≠ a + 1) : st.writeWord a w c = st c := by
  rw [writeWord, writeByte_of_ne _ _ h1, writeByte_of_ne _ _ h]

/-- A word read sees the word last written at its address. -/
theorem readWord_writeWord (st : ByteStore A) {a : A} (w : BitVec 16) (h : a ≠ a + 1) :
    (st.writeWord a w).readWord a = w := by
  rw [readWord, writeWord_succ, writeWord_base st w h, joinBytes_bytes]

/-- A word read is unaffected by a write to two other bytes. -/
theorem readWord_writeWord_of_disjoint (st : ByteStore A) {a c : A} (w : BitVec 16)
    (h00 : c ≠ a) (h01 : c ≠ a + 1) (h10 : c + 1 ≠ a) (h11 : c + 1 ≠ a + 1) :
    (st.writeWord a w).readWord c = st.readWord c := by
  rw [readWord, readWord, writeWord_of_ne st w h00 h01, writeWord_of_ne st w h10 h11]

/-- Writing back the word already there is the identity. -/
theorem writeWord_readWord (st : ByteStore A) (a : A) : st.writeWord a (st.readWord a) = st := by
  funext c
  by_cases h1 : c = a + 1
  · subst h1
    rw [writeWord_succ, readWord, highByte_joinBytes]
  · by_cases h0 : c = a
    · subst h0
      rw [writeWord, writeByte_of_ne _ _ h1, writeByte_self, readWord, lowByte_joinBytes]
    · exact writeWord_of_ne st _ h0 h1

/-! ### Counting down a word in place -/

/-- What byte `c` loses when the word at `a` goes down by `t`. -/
def fall (st : ByteStore A) (a : A) (t : BitVec 16) (c : A) : BitVec 8 :=
  if c = a + 1 then (if (st a).toNat < t.toNat then 1 else 0)
  else if c = a then lowByte t
  else 0

theorem writeWord_sub (st : ByteStore A) (a : A) {t : BitVec 16} (ht : t.toNat < 256) (c : A) :
    st.writeWord a (st.readWord a - t) c = st c - st.fall a t c := by
  rw [fall]
  by_cases h1 : c = a + 1
  · subst h1
    rw [writeWord_succ, highByte_sub _ ht, if_pos rfl, readWord, highByte_joinBytes,
      lowByte_joinBytes]
  · rw [writeWord, writeByte_of_ne _ _ h1, if_neg h1]
    by_cases h0 : c = a
    · subst h0
      rw [writeByte_self, lowByte_sub, readWord, lowByte_joinBytes, if_pos rfl]
    · rw [writeByte_of_ne _ _ h0, if_neg h0]
      exact (BitVec.sub_zero _).symm

/-- The loss stays inside `S`: the low byte is there, and the high byte or no borrow. -/
theorem forall_fall_eq_zero_iff (st : ByteStore A) {a : A} {t : BitVec 16} (ha : a ≠ a + 1)
    (ht : lowByte t ≠ 0) (S : A → Prop) :
    (∀ c, ¬ S c → st.fall a t c = 0) ↔ S a ∧ (S (a + 1) ∨ t.toNat ≤ (st a).toNat) := by
  constructor
  · intro h
    refine ⟨by_contra fun hS => ?_, or_iff_not_imp_left.mpr fun hS => ?_⟩
    · have hlow := h a hS
      rw [fall, if_neg ha, if_pos rfl] at hlow
      exact ht hlow
    · have hhigh := h (a + 1) hS
      rw [fall, if_pos rfl] at hhigh
      by_contra hlt
      rw [if_pos (Nat.lt_of_not_le hlt)] at hhigh
      exact absurd hhigh (by decide)
  · rintro ⟨h0, h1⟩ c hc
    rw [fall]
    by_cases hsucc : c = a + 1
    · subst hsucc
      rw [if_pos rfl, if_neg (Nat.not_lt.mpr (h1.resolve_left hc))]
    · rw [if_neg hsucc, if_neg fun hca : c = a => hc (hca ▸ h0)]

end ByteStore

end XMachine.Lib
