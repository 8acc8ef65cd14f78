import XMachine.Lib.RawFile
import Mathlib.Data.List.Basic

namespace XMachine.Lib

/-!
# Library — reading a file word by word

A descriptor open for reading and the loop that reads one word into each of
several cells.  A `read` at the end of the file puts fewer bytes than asked for
into its cell and does not fail; only a position the device cannot give its
bytes for makes it fail.

* `readCells_spec` — without failures, what is in each cell afterwards;
* `readCells_of_le` — where the file reaches that far, it is the file's words.
-/

/-- A descriptor open for reading: `fails` holds at the positions that cannot be read. -/
structure Fd where
  contents : File
  pos : ℕ
  pos_le : pos ≤ contents.length
  fails : ℕ → Bool

/-- A descriptor just opened, on a file that can be read. -/
def Fd.opened (contents : File) : Fd := ⟨contents, 0, Nat.zero_le _, fun _ => false⟩

/-- A cell after a `read` that gave these bytes. -/
def fillWord (cell : BitVec 16) (bytes : List (BitVec 8)) : BitVec 16 :=
  joinBytes ((bytes[1]?).getD (highByte cell)) ((bytes[0]?).getD (lowByte cell))

/-- The little-endian word at `off`. -/
def wordAt (file : File) (off : ℕ) : BitVec 16 :=
  joinBytes ((file[off + 1]?).getD 0) ((file[off]?).getD 0)

/-- The word's two bytes are the file's. -/
theorem getElem?_eq_wordAt (file : File) (off : ℕ) (h : off + 2 ≤ file.length) :
    file[off]? = some (lowByte (wordAt file off)) ∧
      file[off + 1]? = some (highByte (wordAt file off)) := by
  rw [wordAt, lowByte_joinBytes, highByte_joinBytes, List.getElem?_eq_getElem (by omega),
    List.getElem?_eq_getElem (by omega)]
  exact ⟨rfl, rfl⟩

theorem length_readAt (file : File) (off n : ℕ) :
    (readAt file off n).length = min n (file.length - off) := by
  rw [readAt, List.length_take, List.length_drop]

theorem fillWord_readAt {file : File} {off : ℕ} (cell : BitVec 16) (h : off + 2 ≤ file.length) :
    fillWord cell (readAt file off 2) = wordAt file off := by
  have hlo : off < file.length := by omega
  have hhi : off + 1 < file.length := by omega
  have hbyte : (readAt file off 2)[0]? = file[off]? := readAt_getElem? Nat.two_pos
  have hbyte' : (readAt file off 2)[1]? = file[off + 1]? := readAt_getElem? Nat.one_lt_two
  rw [fillWord, wordAt, hbyte, hbyte', List.getElem?_eq_getElem hlo, List.getElem?_eq_getElem hhi]
  rfl

namespace Fd

/-- `read(fd, &cell, 2)`: the cell and the descriptor after it, `none` for -1. -/
def readCell (fd : Fd) (cell : BitVec 16) : Option (BitVec 16 × Fd) :=
  if fd.fails fd.pos then none
  else
    let bytes := readAt fd.contents fd.pos 2
    some (fillWord cell bytes,
      { fd with
        pos := fd.pos + bytes.length
        pos_le := by
          have := fd.pos_le
          rw [length_readAt]
          omega })

/-- A word into each of the cells referred to, up to the first `read` that fails. -/
def readCells {ι : Type} [DecidableEq ι] :
    List ι → (ι → BitVec 16) → Fd → Option ((ι → BitVec 16) × Fd)
  | [], cells, fd => some (cells, fd)
  | i :: refs, cells, fd =>
    (fd.readCell (cells i)).bind fun r => readCells refs (Function.update cells i r.1) r.2

section Reads

variable {ι : Type} [DecidableEq ι] {fd : Fd}

theorem readCell_of_good (hgood : fd.fails fd.pos = false) (cell : BitVec 16) :
    ∃ fd', fd.readCell cell = some (fillWord cell (readAt fd.contents fd.pos 2), fd') ∧
      fd'.contents = fd.contents ∧ fd'.fails = fd.fails ∧
      fd'.pos = min (fd.pos + 2) fd.contents.length := by
  unfold readCell
  rw [hgood]
  refine ⟨_, rfl, rfl, rfl, ?_⟩
  have := fd.pos_le
  show fd.pos + (readAt fd.contents fd.pos 2).length = _
  rw [length_readAt]
  omega

/-- Behind the end there is nothing to read. -/
theorem readAt_min (file : File) (pos k n : ℕ) :
    readAt file (min pos file.length + k) n = readAt file (pos + k) n := by
  by_cases h : pos ≤ file.length
  · rw [Nat.min_eq_left h]
  · rw [readAt, readAt, List.drop_of_length_le (by omega), List.drop_of_length_le (by omega)]

/-- The loop never ends early: every cell gets what bytes there are at its place. -/
theorem readCells_spec (fd : Fd) (hgood : ∀ p, fd.fails p = false) {refs : List ι}
    (hnodup : refs.Nodup) (cells : ι → BitVec 16) :
    ∃ cells' fd', readCells refs cells fd = some (cells', fd') ∧
      fd'.contents = fd.contents ∧ fd'.fails = fd.fails ∧
      fd'.pos = min (fd.pos + 2 * refs.length) fd.contents.length ∧
      (∀ k, (h : k < refs.length) → cells' refs[k]
        = fillWord (cells refs[k]) (readAt fd.contents (fd.pos + 2 * k) 2)) ∧
      ∀ j, j ∉ refs → cells' j = cells j := by
  induction refs generalizing cells fd with
  | nil =>
    have := fd.pos_le
    refine ⟨cells, fd, rfl, rfl, rfl, ?_, fun k h => absurd h (Nat.not_lt_zero k), fun _ _ => rfl⟩
    rw [List.length_nil]
    omega
  | cons i refs ih =>
    obtain ⟨hi, hrefs⟩ := List.nodup_cons.mp hnodup
    obtain ⟨fd₁, hread, hcontents, hfails, hpos⟩ := readCell_of_good (hgood fd.pos) (cells i)
    obtain ⟨cells', fd', hrest, hcontents', hfails', hpos', hcells, hother⟩ :=
      ih fd₁ (fun p => by rw [hfails]; exact hgood p) hrefs
        (Function.update cells i (fillWord (cells i) (readAt fd.contents fd.pos 2)))
    refine ⟨cells', fd', ?_, hcontents'.trans hcontents, hfails'.trans hfails, ?_, ?_, ?_⟩
    · rw [readCells, hread, Option.bind_some]
      exact hrest
    · rw [hpos', hpos, hcontents, List.length_cons]
      omega
    · intro k hk
      cases k with
      | zero =>
        rw [List.getElem_cons_zero, hother i hi, Function.update_self]
        rfl
      | succ k =>
        have hk' : k < refs.length := Nat.lt_of_succ_lt_succ hk
        have hne : refs[k] ≠ i := fun heq => hi (heq ▸ List.getElem_mem hk')
        rw [List.getElem_cons_succ, hcells k hk', Function.update_of_ne hne, hcontents, hpos,
          readAt_min, show fd.pos + 2 + 2 * k = fd.pos + 2 * (k + 1) by omega]
    · intro j hj
      have hji : j ≠ i := fun heq => hj (heq ▸ List.mem_cons_self)
      have hj' : j ∉ refs := fun hmem => hj (List.mem_cons_of_mem i hmem)
      rw [hother j hj', Function.update_of_ne hji]

/-- Where the file has all the words, they are read. -/
theorem readCells_of_le (fd : Fd) (hgood : ∀ p, fd.fails p = false) {refs : List ι}
    (hnodup : refs.Nodup) (cells : ι → BitVec 16)
    (hle : fd.pos + 2 * refs.length ≤ fd.contents.length) :
    ∃ cells' fd', readCells refs cells fd = some (cells', fd') ∧
      fd'.contents = fd.contents ∧ fd'.fails = fd.fails ∧ fd'.pos = fd.pos + 2 * refs.length ∧
      ∀ k, (h : k < refs.length) → cells' refs[k] = wordAt fd.contents (fd.pos + 2 * k) := by
  obtain ⟨cells', fd', hread, hcontents, hfails, hpos, hcells, -⟩ :=
    readCells_spec fd hgood hnodup cells
  refine ⟨cells', fd', hread, hcontents, hfails, hpos.trans (Nat.min_eq_left hle), fun k hk => ?_⟩
  rw [hcells k hk, fillWord_readAt _ (by omega)]

end Reads

end Fd

end XMachine.Lib
