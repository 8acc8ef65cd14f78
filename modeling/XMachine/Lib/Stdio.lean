import Mathlib.Data.Int.Notation
import XMachine.Lib.WordReader

namespace XMachine.Lib

/-!
# Library — reading a `FILE`

A stream open for reading: the bytes of the file, the position and the
end-of-file indicator.  `fread` stops at the end of the file and then sets the
indicator; an `fseek` that succeeds clears it, also one to behind the end; an
`fseek` to before the start moves nothing.

* `skip_skip` — reads one behind the other are one read of all the bytes;
* `skip_of_le`, `skip_of_lt` — a read inside the file, and one beyond its end;
* `freadByte_skip`, `freadWord_skip` — what is read some bytes further on.
-/

/-- A `FILE` open for reading. -/
structure Stream where
  contents : File
  pos : ℕ
  eof : Bool
  deriving DecidableEq

namespace Stream

/-- A stream just opened. -/
def opened (contents : File) : Stream := ⟨contents, 0, false⟩

/-- `fread(_, n, 1, s)`: the bytes there are, up to `n`, and the stream after it. -/
def fread (s : Stream) (n : ℕ) : List (BitVec 8) × Stream :=
  let bytes := readAt s.contents s.pos n
  (bytes, { s with
    pos := s.pos + bytes.length
    eof := s.eof || decide (bytes.length < n) })

/-- An `fread` whose bytes are not looked at. -/
def skip (n : ℕ) (s : Stream) : Stream := (s.fread n).2

/-- `fread` into a byte, which keeps its value when there is nothing to read. -/
def freadByte (s : Stream) (b : BitVec 8) : BitVec 8 × Stream :=
  (((s.fread 1).1[0]?).getD b, s.skip 1)

/-- `fread` into a word.  It keeps its value when there is nothing to read; what a
    single byte leaves in it is not said, so it is `half`. -/
def freadWord (s : Stream) (w half : BitVec 16) : BitVec 16 × Stream :=
  (match (s.fread 2).1 with
    | [] => w
    | [_] => half
    | lo :: hi :: _ => joinBytes hi lo, s.skip 2)

/-- `fseek(s, off, SEEK_CUR)`. -/
def fseekCur (s : Stream) (off : ℤ) : Stream :=
  if 0 ≤ (s.pos : ℤ) + off then { s with pos := ((s.pos : ℤ) + off).toNat, eof := false } else s

section Reads

variable {f : File} {p n : ℕ} {eof : Bool}

theorem skip_mk (n : ℕ) (f : File) (p : ℕ) (eof : Bool) :
    skip n ⟨f, p, eof⟩ = ⟨f, p + min n (f.length - p), eof || decide (f.length - p < n)⟩ := by
  have hlen : min n (f.length - p) < n ↔ f.length - p < n := by omega
  unfold skip fread
  simp only [length_readAt, hlen]

/-- Reading on from where a read ended. -/
theorem skip_skip (k n : ℕ) (s : Stream) : skip k (skip n s) = skip (n + k) s := by
  obtain ⟨f, p, eof⟩ := s
  have hpos : p + min n (f.length - p) + min k (f.length - (p + min n (f.length - p)))
      = p + min (n + k) (f.length - p) := by omega
  have heof : f.length - p < n ∨ f.length - (p + min n (f.length - p)) < k ↔
      f.length - p < n + k := by omega
  simp only [skip_mk, hpos, Bool.or_assoc, ← Bool.decide_or, heof]

theorem skip_of_le (h : p + n ≤ f.length) : skip n ⟨f, p, eof⟩ = ⟨f, p + n, eof⟩ := by
  have hlt : ¬ f.length - p < n := by omega
  rw [skip_mk, Nat.min_eq_left (by omega), decide_eq_false hlt, Bool.or_false]

theorem skip_of_lt (hp : p ≤ f.length) (h : f.length < p + n) :
    skip n ⟨f, p, eof⟩ = ⟨f, f.length, true⟩ := by
  have hlt : f.length - p < n := by omega
  rw [skip_mk, Nat.min_eq_right (by omega), decide_eq_true hlt, Bool.or_true,
    Nat.add_sub_cancel' hp]

/-- A read from the end on, or from behind it, gets nothing. -/
theorem eof_skip_of_le (hp : f.length ≤ p) (hn : 0 < n) : (skip n ⟨f, p, eof⟩).eof = true := by
  have hlt : f.length - p < n := by omega
  rw [skip_mk, decide_eq_true hlt, Bool.or_true]

/-- Reading does not clear the indicator. -/
theorem eof_skip {s : Stream} (h : s.eof = true) (n : ℕ) : (s.skip n).eof = true := by
  obtain ⟨f, p, eof⟩ := s
  obtain rfl : eof = true := h
  rw [skip_mk, Bool.true_or]

theorem freadByte_fst (f : File) (p : ℕ) (eof : Bool) (b : BitVec 8) :
    (freadByte ⟨f, p, eof⟩ b).1 = (f[p]?).getD b :=
  congrArg (Option.getD · b) (readAt_getElem? Nat.one_pos)

theorem freadWord_fst (f : File) (p : ℕ) (eof : Bool) (w half : BitVec 16) :
    (freadWord ⟨f, p, eof⟩ w half).1 =
      if p + 2 ≤ f.length then wordAt f p else if p + 1 = f.length then half else w := by
  unfold freadWord fread
  by_cases hlo : p < f.length
  · by_cases hhi : p + 1 < f.length
    · have hbytes : readAt f p 2 = [f[p], f[p + 1]] := by
        rw [readAt, List.drop_eq_getElem_cons hlo, List.drop_eq_getElem_cons hhi]
        rfl
      rw [if_pos (Nat.succ_le_of_lt hhi), hbytes, wordAt, List.getElem?_eq_getElem hlo,
        List.getElem?_eq_getElem hhi]
      rfl
    · have hbytes : readAt f p 2 = [f[p]] := by
        rw [readAt, List.drop_eq_getElem_cons hlo, List.drop_of_length_le (by omega)]
        rfl
      rw [if_neg (by omega), if_pos (by omega), hbytes]
  · have hbytes : readAt f p 2 = [] := by
      rw [readAt, List.drop_of_length_le (by omega)]
      rfl
    rw [if_neg (by omega), if_neg (by omega), hbytes]

/-- What is read after `n` bytes is what lies `n` bytes further on. -/
theorem freadByte_skip (hp : p ≤ f.length) (n : ℕ) (b : BitVec 8) :
    (freadByte (skip n ⟨f, p, eof⟩) b).1 = (f[p + n]?).getD b := by
  rw [skip_mk, freadByte_fst]
  by_cases h : p + n ≤ f.length
  · rw [Nat.min_eq_left (by omega)]
  · rw [List.getElem?_eq_none (by omega), List.getElem?_eq_none (by omega)]

theorem freadWord_skip (hp : p ≤ f.length) (n : ℕ) (w half : BitVec 16) :
    (freadWord (skip n ⟨f, p, eof⟩) w half).1 =
      if p + n + 2 ≤ f.length then wordAt f (p + n)
      else if p + n + 1 = f.length then half else w := by
  rw [skip_mk, freadWord_fst]
  by_cases h : p + n ≤ f.length
  · rw [Nat.min_eq_left (by omega)]
  · simp only [show ¬ p + min n (f.length - p) + 2 ≤ f.length by omega,
      show ¬ p + min n (f.length - p) + 1 = f.length by omega,
      show ¬ p + n + 2 ≤ f.length by omega, show ¬ p + n + 1 = f.length by omega, if_false]

theorem fseekCur_of_nonneg {off : ℤ} (h : 0 ≤ (p : ℤ) + off) :
    fseekCur ⟨f, p, eof⟩ off = ⟨f, ((p : ℤ) + off).toNat, false⟩ := if_pos h

theorem fseekCur_of_neg {off : ℤ} (h : (p : ℤ) + off < 0) :
    fseekCur ⟨f, p, eof⟩ off = ⟨f, p, eof⟩ := if_neg (Int.not_le.mpr h)

end Reads

end Stream

end XMachine.Lib
