import XMachine.Lib.Loop
import XMachine.Lib.Stdio

namespace XMachine.Obj

open XMachine.Lib

/-!
# OBJ files — the reader

The loop of `read` over the blocks of an RT-11 object file.  It tests nothing
but the end-of-file indicator, and the functions it calls test no `fread`, so
behind the end they go on with what is in their locals.

* `readBlock_of_le` — a block inside the file is passed over as it is long;
* `mustEnd_iff`, `canEnd_iff` — what happens with less than a header left;
* `read_terminates_iff` — the files whose reading comes to an end;
* `read_never_terminates_iff` — those whose reading never does.
-/

/-- What the locals of a function hold before anything is read into them, and
    what a single byte leaves in `len`. -/
structure Locals where
  byte01 : BitVec 8
  len : BitVec 16
  half : BitVec 16
  deriving Inhabited

/-- `is_text_block`. -/
def isTextBlock (locals : Locals) (obj : Stream) : Bool × Stream :=
  let byte01 := obj.freadByte locals.byte01
  let byte02 := byte01.2.skip 1
  let len := byte02.freadWord locals.len locals.half
  -- Read for the second time; at the end of the file it is still the first byte.
  let byte01 := len.2.freadByte byte01.1
  if byte01.1 ≠ 3 then
    let obj := byte01.2.fseekCur ((len.1.toNat : ℤ) - 5)
    (false, obj.skip 1)
  else
    (true, byte01.2.fseekCur (-5))

/-- The loop of `load_text_block`, with `len - i` bytes left. -/
def loadWords : ℕ → Stream → Stream
  | 0, obj => obj
  | 1, obj => (obj.skip 1).skip 1
  | left + 2, obj => loadWords left ((obj.skip 1).skip 1)

/-- `load_text_block`. -/
def loadTextBlock (locals : Locals) (obj : Stream) : Stream :=
  let obj := (obj.skip 1).skip 1
  let len := obj.freadWord locals.len locals.half
  let obj := ((len.2.skip 1).skip 2).skip 1
  -- In 16 bits: a length below eight becomes a large one.
  let len := len.1 - 8
  (loadWords len.toNat obj).skip 1

/-- The body of the loop of `read`, with the locals of the two calls. -/
def readBlock (locals : Locals × Locals) (obj : Stream) : Stream :=
  let r := isTextBlock locals.1 obj
  if r.1 then loadTextBlock locals.2 r.2 else r.2

/-- `read` up to turn `n` of its loop. -/
def read (f : File) (locals : ℕ → Locals × Locals) (n : ℕ) : Stream :=
  runLoop Stream.eof readBlock n locals (.opened f)

/-- The loop comes to an end. -/
def Terminates (f : File) (locals : ℕ → Locals × Locals) : Prop :=
  ∃ n, (read f locals n).eof = true

/-! ### Blocks -/

/-- The length word of the block at `p`. -/
def blockLen (f : File) (p : ℕ) : BitVec 16 := wordAt f (p + 2)

/-- The bytes that the block at `p` takes up: of a text block the header, the
    words and the checksum, of any other what its length word says and the checksum. -/
def blockSize (f : File) (p : ℕ) : ℕ :=
  if f[p + 4]? = some 3 then 9 + 2 * (((blockLen f p - 8).toNat + 1) / 2)
  else (blockLen f p).toNat + 1

/-- A block starts at `p`: the blocks before it have their headers, and lie in the file. -/
inductive BlockAt (f : File) : ℕ → Prop
  | first : BlockAt f 0
  | next {p : ℕ} (hp : BlockAt f p) (hheader : p + 5 ≤ f.length)
      (hblock : p + blockSize f p ≤ f.length) : BlockAt f (p + blockSize f p)

/-- With fewer than five bytes left at `p` the reader still ends there. -/
inductive Stops (f : File) (p : ℕ) : Prop
  | empty (hf : f = [])
  | text (htag : f[p]? = some 3)
  | ahead (hend : p + 4 = f.length) (hlen : 5 ≤ (blockLen f p).toNat)
  | start (hend : p + 4 = f.length) (hp : p = 0) (hlen : blockLen f p = 0)
  | back (hend : p + 4 = f.length) (hlen : blockLen f p = 1) (htag : f[p + 1]? = some 3)

/-- Four bytes left that make the reader come back to where they start. -/
structure Stuck (f : File) (p : ℕ) : Prop where
  atEnd : p + 4 = f.length
  pos : 0 < p
  tag : f[p]? ≠ some 3
  len : blockLen f p = 0

section Turn

variable {f : File} {p : ℕ}

theorem loadWords_eq_skip (left : ℕ) (obj : Stream) :
    loadWords left obj = obj.skip (2 * ((left + 1) / 2)) := by
  fun_induction loadWords left obj with
  | case1 obj =>
    obtain ⟨f, p, eof⟩ := obj
    rw [Stream.skip_mk]
    simp
  | case2 obj => exact Stream.skip_skip 1 1 obj
  | case3 left obj ih =>
    rw [ih, Stream.skip_skip, Stream.skip_skip]
    congr 1
    omega

/-- A text block is read from front to back. -/
theorem loadTextBlock_eq_skip (locals : Locals) (obj : Stream) :
    loadTextBlock locals obj = obj.skip (9 + 2 *
      ((((((obj.skip 1).skip 1).freadWord locals.len locals.half).1 - 8).toNat + 1) / 2)) := by
  unfold loadTextBlock
  simp only [Stream.freadWord, loadWords_eq_skip, Stream.skip_skip]
  congr 1
  omega

/-- The tag that `is_text_block` tests: without a fifth byte it is the first one. -/
def tagSeen (locals : Locals) (f : File) (p : ℕ) : BitVec 8 :=
  (f[p + 4]?).getD ((f[p]?).getD locals.byte01)

/-- The length that it seeks with. -/
def lenSeen (locals : Locals) (f : File) (p : ℕ) : BitVec 16 :=
  if p + 4 ≤ f.length then blockLen f p else if p + 3 = f.length then locals.half else locals.len

theorem isTextBlock_eq (locals : Locals) (hp : p ≤ f.length) :
    isTextBlock locals ⟨f, p, false⟩ =
      if tagSeen locals f p ≠ 3 then
        (false, ((Stream.skip 5 ⟨f, p, false⟩).fseekCur ((lenSeen locals f p).toNat - 5)).skip 1)
      else (true, (Stream.skip 5 ⟨f, p, false⟩).fseekCur (-5)) := by
  have hbyte01 : (Stream.freadByte ⟨f, p, false⟩ locals.byte01).1
      = (f[p]?).getD locals.byte01 := Stream.freadByte_fst f p false _
  have hlen : ((Stream.skip 2 ⟨f, p, false⟩).freadWord locals.len locals.half).1
      = lenSeen locals f p := Stream.freadWord_skip hp 2 _ _
  have htag : ((Stream.skip 4 ⟨f, p, false⟩).freadByte ((f[p]?).getD locals.byte01)).1
      = tagSeen locals f p := Stream.freadByte_skip hp 4 _
  have hbyte01s : ∀ obj : Stream, ∀ b, (obj.freadByte b).2 = obj.skip 1 := fun _ _ => rfl
  have hlens : ∀ obj : Stream, ∀ w half, (obj.freadWord w half).2 = obj.skip 2 := fun _ _ _ => rfl
  unfold isTextBlock
  simp only [hbyte01s, hlens, hbyte01, Stream.skip_skip, Nat.reduceAdd, hlen, htag]

/-! ### A whole header -/

theorem readBlock_text (locals : Locals × Locals) (hp : p + 5 ≤ f.length)
    (htag : f[p + 4]? = some 3) :
    readBlock locals ⟨f, p, false⟩ = Stream.skip (blockSize f p) ⟨f, p, false⟩ := by
  have hseen : tagSeen locals.1 f p = 3 := by rw [tagSeen, htag, Option.getD_some]
  -- The seek is back to where the header was read from.
  have hpos : (((p + 5 : ℕ) : ℤ) + -5).toNat = p := by omega
  have hback : (Stream.skip 5 ⟨f, p, false⟩).fseekCur (-5) = ⟨f, p, false⟩ := by
    rw [Stream.skip_of_le hp, Stream.fseekCur_of_nonneg (by omega), hpos]
  have hlen : ((Stream.skip 2 ⟨f, p, false⟩).freadWord locals.2.len locals.2.half).1
      = blockLen f p := by
    rw [Stream.freadWord_skip (by omega), if_pos (by omega)]
    rfl
  unfold readBlock
  rw [isTextBlock_eq locals.1 (by omega), if_neg (not_not_intro hseen), hback, if_pos rfl,
    loadTextBlock_eq_skip, Stream.skip_skip, hlen, blockSize, if_pos htag]

theorem readBlock_other (locals : Locals × Locals) (hp : p + 5 ≤ f.length)
    (htag : f[p + 4]? ≠ some 3) :
    readBlock locals ⟨f, p, false⟩ = Stream.skip 1 ⟨f, p + (blockLen f p).toNat, false⟩ := by
  have hseen : tagSeen locals.1 f p ≠ 3 := by
    rw [tagSeen, List.getElem?_eq_getElem (by omega), Option.getD_some]
    rw [List.getElem?_eq_getElem (by omega)] at htag
    exact fun h => htag (congrArg some h)
  have hlen : lenSeen locals.1 f p = blockLen f p := if_pos (by omega)
  have hpos : (((p + 5 : ℕ) : ℤ) + ((blockLen f p).toNat - 5)).toNat
      = p + (blockLen f p).toNat := by omega
  unfold readBlock
  rw [isTextBlock_eq locals.1 (by omega), if_pos hseen, if_neg Bool.false_ne_true, hlen,
    Stream.skip_of_le hp, Stream.fseekCur_of_nonneg (by omega), hpos]

/-- A block inside the file is passed over. -/
theorem readBlock_of_le (locals : Locals × Locals) (hp : p + 5 ≤ f.length)
    (hblock : p + blockSize f p ≤ f.length) :
    readBlock locals ⟨f, p, false⟩ = ⟨f, p + blockSize f p, false⟩ := by
  by_cases htag : f[p + 4]? = some 3
  · rw [readBlock_text locals hp htag, Stream.skip_of_le hblock]
  · have hsize : blockSize f p = (blockLen f p).toNat + 1 := if_neg htag
    rw [readBlock_other locals hp htag, hsize, Stream.skip_of_le (by omega), Nat.add_assoc]

/-- A block that goes beyond the end sets the indicator. -/
theorem readBlock_of_lt (locals : Locals × Locals) (hp : p + 5 ≤ f.length)
    (hblock : f.length < p + blockSize f p) :
    (readBlock locals ⟨f, p, false⟩).eof = true := by
  by_cases htag : f[p + 4]? = some 3
  · rw [readBlock_text locals hp htag, Stream.skip_of_lt (by omega) hblock]
  · have hsize : blockSize f p = (blockLen f p).toNat + 1 := if_neg htag
    rw [readBlock_other locals hp htag]
    exact Stream.eof_skip_of_le (by omega) Nat.one_pos

/-! ### Less than a header -/

/-- The reader takes what is left for a text block. -/
theorem readBlock_tail_text (locals : Locals × Locals) (hp : p ≤ f.length)
    (hend : f.length < p + 5) (htag : tagSeen locals.1 f p = 3) :
    (readBlock locals ⟨f, p, false⟩).eof = true := by
  unfold readBlock
  rw [isTextBlock_eq locals.1 hp, if_neg (not_not_intro htag), if_pos rfl, loadTextBlock_eq_skip,
    Stream.skip_of_lt hp hend]
  by_cases hlong : 5 ≤ f.length
  · rw [Stream.fseekCur_of_nonneg (by omega), Stream.skip_of_lt (by omega) (by omega)]
  · rw [Stream.fseekCur_of_neg (by omega)]
    exact Stream.eof_skip rfl _

/-- It takes it for another block, and where it seeks to depends on the length seen. -/
theorem readBlock_tail_other (locals : Locals × Locals) (hp : p ≤ f.length)
    (hend : f.length < p + 5) (htag : tagSeen locals.1 f p ≠ 3) :
    readBlock locals ⟨f, p, false⟩ =
      (Stream.fseekCur ⟨f, f.length, true⟩ ((lenSeen locals.1 f p).toNat - 5)).skip 1 := by
  unfold readBlock
  rw [isTextBlock_eq locals.1 hp, if_pos htag, if_neg Bool.false_ne_true,
    Stream.skip_of_lt hp hend]

/-- It ends after a seek forward, and after one that fails. -/
theorem readBlock_tail_ends (locals : Locals × Locals) (hp : p ≤ f.length)
    (hend : f.length < p + 5)
    (hlen : f.length + (lenSeen locals.1 f p).toNat < 5 ∨ 5 ≤ (lenSeen locals.1 f p).toNat) :
    (readBlock locals ⟨f, p, false⟩).eof = true := by
  by_cases htag : tagSeen locals.1 f p = 3
  · exact readBlock_tail_text locals hp hend htag
  · rw [readBlock_tail_other locals hp hend htag]
    rcases hlen with hfail | hahead
    · rw [Stream.fseekCur_of_neg (by omega)]
      exact Stream.eof_skip rfl 1
    · rw [Stream.fseekCur_of_nonneg (by omega)]
      exact Stream.eof_skip_of_le (by omega) Nat.one_pos

/-- A seek back clears the indicator, and the byte read behind it is there. -/
theorem readBlock_tail_back (locals : Locals × Locals) (hp : p ≤ f.length)
    (hend : f.length < p + 5) (htag : tagSeen locals.1 f p ≠ 3) {len : ℕ}
    (hseen : (lenSeen locals.1 f p).toNat = len) (hlen : len < 5) (hback : 5 ≤ f.length + len) :
    readBlock locals ⟨f, p, false⟩ = ⟨f, f.length + len - 4, false⟩ := by
  have hpos : ((f.length : ℤ) + (len - 5)).toNat + 1 = f.length + len - 4 := by omega
  rw [readBlock_tail_other locals hp hend htag, hseen, Stream.fseekCur_of_nonneg (by omega),
    Stream.skip_of_le (by omega), hpos]

/-- A first byte that is there is the tag seen. -/
theorem tagSeen_of_eq {locals : Locals} (hend : f.length < p + 5) (htag : f[p]? = some 3) :
    tagSeen locals f p = 3 := by
  rw [tagSeen, List.getElem?_eq_none (Nat.le_of_lt_succ hend), Option.getD_none, htag,
    Option.getD_some]

theorem tagSeen_of_ne {locals : Locals} (hend : f.length < p + 5) (htag : f[p]? ≠ some 3)
    (hlocals : p < f.length ∨ locals.byte01 ≠ 3) : tagSeen locals f p ≠ 3 := by
  rw [tagSeen, List.getElem?_eq_none (Nat.le_of_lt_succ hend), Option.getD_none]
  by_cases hp : p < f.length
  · rw [List.getElem?_eq_getElem hp] at htag ⊢
    exact fun h => htag (congrArg some h)
  · rw [List.getElem?_eq_none (Nat.le_of_not_lt hp), Option.getD_none]
    exact hlocals.resolve_left hp

theorem tag_ne_of_le (hp : f.length ≤ p) : f[p]? ≠ some 3 := by
  rw [List.getElem?_eq_none hp]
  exact (Option.some_ne_none 3).symm

/-- Without a whole length word the locals say where to seek. -/
theorem lenSeen_of_lt {locals : Locals} (hend : f.length < p + 4)
    (hhalf : locals.half = locals.len) : lenSeen locals f p = locals.len := by
  rw [lenSeen, if_neg (Nat.not_le_of_lt hend), hhalf, ite_self]

end Turn

/-! ### The end of the loop -/

section Loop

variable {f : File} {p : ℕ}

theorem mustEnd_of_eof (h : ∀ locals, (readBlock locals ⟨f, p, false⟩).eof = true) :
    MustEnd Stream.eof readBlock ⟨f, p, false⟩ :=
  (mustEnd_turn rfl).mpr fun locals => mustEnd_of_halted (h locals)

theorem canEnd_of_eof (locals : Locals × Locals)
    (h : (readBlock locals ⟨f, p, false⟩).eof = true) :
    CanEnd Stream.eof readBlock ⟨f, p, false⟩ :=
  (canEnd_turn rfl).mpr ⟨locals, fun _ => locals, ends_of_halted h⟩

/-- Locals that make the reader go back by one byte, and then read that byte. -/
def backLocals : Locals × Locals := (⟨0, 4, 4⟩, default)

/-- Locals that make it seek to the end. -/
def aheadLocals : Locals × Locals := (⟨0, 5, 5⟩, default)

theorem readBlock_back (hp : p ≤ f.length) (hend : f.length < p + 4) (hpos : f ≠ [])
    (htag : f[p]? ≠ some 3) : readBlock backLocals ⟨f, p, false⟩ = ⟨f, f.length, false⟩ := by
  have hlength := List.length_pos_iff.mpr hpos
  have hlen : (lenSeen backLocals.1 f p).toNat = 4 :=
    congrArg BitVec.toNat (lenSeen_of_lt hend rfl)
  have hseen : tagSeen backLocals.1 f p ≠ 3 :=
    tagSeen_of_ne (Nat.lt_succ_of_lt hend) htag (.inr (by decide))
  exact readBlock_tail_back backLocals hp (Nat.lt_succ_of_lt hend) hseen hlen (by decide) (by omega)

/-- At the end of a file that is not empty the reader need not stop. -/
theorem not_mustEnd_at_end (hpos : f ≠ []) :
    ¬ MustEnd Stream.eof readBlock ⟨f, f.length, false⟩ := by
  have hback : readBlock backLocals ⟨f, f.length, false⟩ = ⟨f, f.length, false⟩ :=
    readBlock_back (Nat.le_refl _) (by omega) hpos (tag_ne_of_le (Nat.le_refl _))
  exact not_mustEnd_of_fixed rfl hback

theorem not_mustEnd_of_lt (hp : p ≤ f.length) (hend : f.length < p + 4) (hpos : f ≠ [])
    (htag : f[p]? ≠ some 3) : ¬ MustEnd Stream.eof readBlock ⟨f, p, false⟩ := by
  intro h
  have hturn := (mustEnd_turn rfl).mp h backLocals
  rw [readBlock_back hp hend hpos htag] at hturn
  exact not_mustEnd_at_end hpos hturn

theorem canEnd_of_lt (hp : p ≤ f.length) (hend : f.length < p + 4) :
    CanEnd Stream.eof readBlock ⟨f, p, false⟩ := by
  have hlen : lenSeen aheadLocals.1 f p = 5 := lenSeen_of_lt hend rfl
  refine canEnd_of_eof aheadLocals (readBlock_tail_ends _ hp (Nat.lt_succ_of_lt hend) (.inr ?_))
  rw [hlen]
  decide

theorem mustEnd_of_text (hp : p ≤ f.length) (hend : f.length < p + 5) (htag : f[p]? = some 3) :
    MustEnd Stream.eof readBlock ⟨f, p, false⟩ :=
  mustEnd_of_eof fun locals => readBlock_tail_text locals hp hend (tagSeen_of_eq hend htag)

/-- With four bytes left the length word is known, and so is where the reader goes. -/
theorem readBlock_of_back (locals : Locals × Locals) (hend : p + 4 = f.length)
    (htag : f[p]? ≠ some 3) {len : ℕ} (hseen : (blockLen f p).toNat = len) (hlen : len < 5)
    (hback : 5 ≤ f.length + len) : readBlock locals ⟨f, p, false⟩ = ⟨f, p + len, false⟩ := by
  have hlen' : (lenSeen locals.1 f p).toNat = len := by
    rw [lenSeen, if_pos (Nat.le_of_eq hend), hseen]
  have hseen' : tagSeen locals.1 f p ≠ 3 := tagSeen_of_ne (by omega) htag (.inl (by omega))
  have hpos : f.length + len - 4 = p + len := by omega
  rw [readBlock_tail_back locals (by omega) (by omega) hseen' hlen' hlen hback, hpos]

/-- Going on by two bytes or more there is no tag: the length word is in the way, or
    the end. -/
theorem tag_ne_of_back (hend : p + 4 = f.length) {len : ℕ} (hseen : (blockLen f p).toNat = len)
    (hlen : len < 5) (htwo : 2 ≤ len) : f[p + len]? ≠ some 3 := by
  have hword : wordAt f (p + 2) = BitVec.ofNat 16 len := by
    apply BitVec.eq_of_toNat_eq
    rw [BitVec.toNat_ofNat, Nat.mod_eq_of_lt (by omega)]
    exact hseen
  obtain ⟨hlo, hhi⟩ := getElem?_eq_wordAt f (p + 2) (by omega)
  rw [hword] at hlo hhi
  rcases (by omega : len = 2 ∨ len = 3 ∨ len = 4) with rfl | rfl | rfl
  · rw [hlo]
    decide
  · rw [hhi]
    decide
  · exact tag_ne_of_le (Nat.le_of_eq hend.symm)

/-- With four bytes left, the length word leads ahead, nowhere, or back. -/
theorem stops_of_mustEnd_of_eq (hend : p + 4 = f.length)
    (h : MustEnd Stream.eof readBlock ⟨f, p, false⟩) : Stops f p := by
  by_contra hstops
  have hpos : f ≠ [] := fun hf => hstops (.empty hf)
  have htag : f[p]? ≠ some 3 := fun ht => hstops (.text ht)
  have hlen : (blockLen f p).toNat < 5 := by
    by_contra hlen
    exact hstops (.ahead hend (Nat.le_of_not_lt hlen))
  have hback : 5 ≤ f.length + (blockLen f p).toNat := by
    by_contra hback
    have hzero : (blockLen f p).toNat = 0 := by omega
    exact hstops (.start hend (by omega) (BitVec.eq_of_toNat_eq hzero))
  have hturn := fun locals => readBlock_of_back locals hend htag rfl hlen hback
  rcases Nat.eq_zero_or_pos (blockLen f p).toNat with hzero | hlen0
  · rw [hzero] at hturn
    exact not_mustEnd_of_fixed (x := backLocals) rfl (hturn backLocals) h
  · rw [mustEnd_of_turn rfl hturn] at h
    refine not_mustEnd_of_lt (by omega) (by omega) hpos ?_ h
    by_cases hone : (blockLen f p).toNat = 1
    · rw [hone]
      exact fun ht => hstops (.back hend (BitVec.eq_of_toNat_eq hone) ht)
    · exact tag_ne_of_back hend rfl hlen (by omega)

theorem mustEnd_of_stops (hp : p ≤ f.length) (hend : f.length < p + 5) (h : Stops f p) :
    MustEnd Stream.eof readBlock ⟨f, p, false⟩ := by
  cases h with
  | empty hf =>
    subst hf
    refine mustEnd_of_eof fun locals => readBlock_tail_ends locals hp hend ?_
    rw [List.length_nil, Nat.zero_add]
    exact Nat.lt_or_ge _ 5
  | text htag => exact mustEnd_of_text hp hend htag
  | ahead hend' hlen =>
    refine mustEnd_of_eof fun locals => readBlock_tail_ends locals hp hend (.inr ?_)
    rw [lenSeen, if_pos (Nat.le_of_eq hend')]
    exact hlen
  | start hend' hp0 hlen =>
    refine mustEnd_of_eof fun locals => readBlock_tail_ends locals hp hend (.inl ?_)
    rw [lenSeen, if_pos (Nat.le_of_eq hend'), hlen, ← hend', hp0]
    decide
  | back hend' hlen htag =>
    by_cases htext : f[p]? = some 3
    · exact mustEnd_of_text hp hend htext
    · have hone : (blockLen f p).toNat = 1 := congrArg BitVec.toNat hlen
      have hturn := fun locals =>
        readBlock_of_back locals hend' htext hone (by decide) (by omega)
      rw [mustEnd_of_turn rfl hturn]
      exact mustEnd_of_text (by omega) (by omega) htag

/-- **Less than a header.**  Where the reader ends whatever its locals hold. -/
theorem mustEnd_iff (hp : p ≤ f.length) (hend : f.length < p + 5) :
    MustEnd Stream.eof readBlock ⟨f, p, false⟩ ↔ Stops f p := by
  refine ⟨fun h => ?_, mustEnd_of_stops hp hend⟩
  by_cases hshort : f.length < p + 4
  · by_contra hstops
    exact not_mustEnd_of_lt hp hshort (fun hf => hstops (.empty hf))
      (fun htag => hstops (.text htag)) h
  · exact stops_of_mustEnd_of_eq (by omega) h

/-- Where it ends for some of the values its locals can hold. -/
theorem canEnd_iff (hp : p ≤ f.length) (hend : f.length < p + 5) :
    CanEnd Stream.eof readBlock ⟨f, p, false⟩ ↔ ¬ Stuck f p := by
  constructor
  · intro h hstuck
    have hzero : (blockLen f p).toNat = 0 := congrArg BitVec.toNat hstuck.len
    have hlength := hstuck.atEnd
    have hpos := hstuck.pos
    exact not_canEnd_of_fixed rfl (fun locals => readBlock_of_back locals hstuck.atEnd hstuck.tag
      hzero (by decide) (by omega)) h
  · intro h
    by_cases hshort : f.length < p + 4
    · exact canEnd_of_lt hp hshort
    have hend' : p + 4 = f.length := by omega
    by_cases htag : f[p]? = some 3
    · exact canEnd_of_eof default (readBlock_tail_text default hp hend (tagSeen_of_eq hend htag))
    by_cases hends : f.length + (blockLen f p).toNat < 5 ∨ 5 ≤ (blockLen f p).toNat
    · refine canEnd_of_eof default (readBlock_tail_ends default hp hend ?_)
      rw [lenSeen, if_pos (Nat.le_of_eq hend')]
      exact hends
    · have hturn := fun locals =>
        readBlock_of_back locals hend' htag rfl (by omega) (by omega)
      have hlen0 : (blockLen f p).toNat ≠ 0 := fun hzero =>
        h ⟨hend', by omega, htag, BitVec.eq_of_toNat_eq hzero⟩
      rw [canEnd_of_turn rfl hturn]
      exact canEnd_of_lt (by omega) (by omega)

theorem blockSize_pos (f : File) (p : ℕ) : 0 < blockSize f p := by
  unfold blockSize
  split <;> omega

theorem BlockAt.le (hp : BlockAt f p) : p ≤ f.length := by
  cases hp with
  | first => exact Nat.zero_le _
  | next _ _ hblock => exact hblock

/-- The blocks before `p` are passed over, whatever the locals hold: what only
    depends on where the turns lead is the same at `p` as at the start. -/
theorem BlockAt.iff_of_turn {P : Stream → Prop} (hp : BlockAt f p)
    (hturn : ∀ s t : Stream, s.eof = false → (∀ locals, readBlock locals s = t) → (P s ↔ P t)) :
    P (.opened f) ↔ P ⟨f, p, false⟩ := by
  induction hp with
  | first => exact Iff.rfl
  | next hp hheader hblock ih =>
    exact ih.trans (hturn _ _ rfl fun locals => readBlock_of_le locals hheader hblock)

theorem BlockAt.mustEnd_iff (hp : BlockAt f p) :
    MustEnd Stream.eof readBlock (.opened f) ↔ MustEnd Stream.eof readBlock ⟨f, p, false⟩ :=
  hp.iff_of_turn fun _ _ => mustEnd_of_turn

theorem BlockAt.canEnd_iff (hp : BlockAt f p) :
    CanEnd Stream.eof readBlock (.opened f) ↔ CanEnd Stream.eof readBlock ⟨f, p, false⟩ :=
  hp.iff_of_turn fun _ _ => canEnd_of_turn

/-- The last block: less than a header is left for it, or it goes beyond the end. -/
theorem BlockAt.exists_last {p : ℕ} (hp : BlockAt f p) :
    ∃ q, BlockAt f q ∧
      (f.length < q + 5 ∨ q + 5 ≤ f.length ∧ f.length < q + blockSize f q) := by
  by_cases hheader : f.length < p + 5
  · exact ⟨p, hp, .inl hheader⟩
  · by_cases hblock : p + blockSize f p ≤ f.length
    · exact (hp.next (Nat.le_of_not_lt hheader) hblock).exists_last
    · exact ⟨p, hp, .inr ⟨Nat.le_of_not_lt hheader, Nat.lt_of_not_le hblock⟩⟩
termination_by f.length - p
decreasing_by
  have := blockSize_pos f p
  omega

end Loop

/-- **The reader ends on these files**: cut into blocks as their length words say, they
    leave no rest of less than a header that sends it back. -/
theorem read_terminates_iff (f : File) :
    (∀ locals, Terminates f locals) ↔
      ∀ p, BlockAt f p → f.length < p + 5 → Stops f p := by
  constructor
  · intro h p hp hend
    exact (mustEnd_iff hp.le hend).mp (hp.mustEnd_iff.mp h)
  · intro h
    obtain ⟨p, hp, hend | ⟨hheader, hblock⟩⟩ := BlockAt.first.exists_last
    · exact hp.mustEnd_iff.mpr ((mustEnd_iff hp.le hend).mpr (h p hp hend))
    · exact hp.mustEnd_iff.mpr
        (mustEnd_of_eof fun locals => readBlock_of_lt locals hheader hblock)

/-- **The reader hangs on these files** whatever its locals hold. -/
theorem read_never_terminates_iff (f : File) :
    (∀ locals, ¬ Terminates f locals) ↔ ∃ p, BlockAt f p ∧ Stuck f p := by
  constructor
  · intro h
    have hcan : ¬ CanEnd Stream.eof readBlock (.opened f) := fun ⟨locals, hends⟩ => h locals hends
    obtain ⟨p, hp, hend | ⟨hheader, hblock⟩⟩ := BlockAt.first.exists_last
    · rw [hp.canEnd_iff, canEnd_iff hp.le hend, not_not] at hcan
      exact ⟨p, hp, hcan⟩
    · rw [hp.canEnd_iff] at hcan
      exact absurd (canEnd_of_eof default (readBlock_of_lt default hheader hblock)) hcan
  · rintro ⟨p, hp, hstuck⟩ locals hends
    have hend : f.length < p + 5 := by
      have := hstuck.atEnd
      omega
    exact (canEnd_iff hp.le hend).mp (hp.canEnd_iff.mp ⟨locals, hends⟩) hstuck

/-- Five zeros are a block of one byte, and four bytes that lead back to themselves. -/
theorem zeros_never_terminate : ¬ ∃ locals, Terminates (List.replicate 5 0) locals := by
  rintro ⟨locals, hends⟩
  have hp : BlockAt (List.replicate 5 0) 1 := BlockAt.first.next (by decide) (by decide)
  have hcan := hp.canEnd_iff.mp ⟨locals, hends⟩
  exact (canEnd_iff (by decide) (by decide)).mp hcan ⟨rfl, by decide, by decide, by decide⟩

end XMachine.Obj
