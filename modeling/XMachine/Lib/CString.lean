import Mathlib.Data.List.Basic
import Mathlib.Tactic.Common

namespace XMachine.Lib

/-!
# Library — C strings in fixed fields

A C string is the list of its characters without the terminator.  `strncpy`
fills a field of a fixed length, `strncmpEq` compares two buffers the way
`strncmp` does; a field filled from a string is equal to the strings that begin
like it: `strncmpEq_strncpy`.
-/

abbrev CString := List Char

abbrev NUL : Char := '\x00'

/-- `strncpy(field, src, len)`: cut at `len`, filled up with NUL. -/
def strncpy (len : ℕ) (src : CString) : List Char := (src ++ List.replicate len NUL).take len

/-- `strncmp(x, y, len) == 0`, where a buffer that ends goes on with NUL. -/
def strncmpEq : ℕ → List Char → List Char → Bool
  | 0, _, _ => true
  | len + 1, x, y =>
    x.headD NUL == y.headD NUL && (x.headD NUL == NUL || strncmpEq len x.tail y.tail)

section

variable {s t : CString} {len : ℕ}

/-- A comparison that stops before the field ends. -/
theorem strncmpEq_take {k : ℕ} (h : len ≤ k) (x y : List Char) :
    strncmpEq len (x.take k) y = strncmpEq len x y := by
  induction len generalizing k x y with
  | zero => rfl
  | succ len ih =>
    obtain ⟨k, rfl⟩ := Nat.exists_eq_succ_of_ne_zero
      (Nat.ne_of_gt (Nat.lt_of_lt_of_le (Nat.succ_pos len) h))
    cases x with
    | nil => rfl
    | cons c x => simp [strncmpEq, ih (Nat.le_of_succ_le_succ h)]

/-- Strings agree for `strncmp` when their beginnings do. -/
theorem strncmpEq_padded (k : ℕ) (hs : NUL ∉ s) (ht : NUL ∉ t) :
    strncmpEq len (s ++ List.replicate k NUL) t = true ↔ s.take len = t.take len := by
  induction len generalizing s t with
  | zero => simp [strncmpEq]
  | succ len ih =>
    cases s with
    | nil =>
      have hhead : (List.replicate k NUL).head?.getD NUL = NUL := by
        cases k <;> rfl
      cases t with
      | nil => simp [strncmpEq, hhead]
      | cons c t =>
        have hc : NUL ≠ c := fun h => ht (h ▸ List.mem_cons_self)
        simp only [List.nil_append, strncmpEq, List.headD_eq_head?_getD, List.head?_cons, hhead,
          Option.getD_some, beq_eq_false_iff_ne.mpr hc, Bool.false_and]
        simp
    | cons d s =>
      have hd : d ≠ NUL := fun h => hs (h ▸ List.mem_cons_self)
      cases t with
      | nil => simp [strncmpEq, hd]
      | cons c t =>
        have hrest := ih (fun h => hs (List.mem_cons_of_mem d h))
          (fun h => ht (List.mem_cons_of_mem c h))
        simp [strncmpEq, hd, hrest]

/-- A field filled from `s` compares equal to `t` exactly when the two strings
    begin alike. -/
theorem strncmpEq_strncpy (hs : NUL ∉ s) (ht : NUL ∉ t) :
    strncmpEq len (strncpy len s) t = true ↔ s.take len = t.take len := by
  rw [strncpy, strncmpEq_take (Nat.le_refl len)]
  exact strncmpEq_padded _ hs ht

end

end XMachine.Lib
