import XMachine.Cpu.Machine
import XMachine.Lib.WordReader

namespace XMachine.Load

open XMachine.Lib XMachine.Cpu

/-!
# Load — reading an a.out file

`aout_read` with its two loops over the header and the text.  Both stop at a
`read` that fails and at nothing else, so a file that ends early is read like a
complete one: what it lacks stays as `malloc` and `calloc` left it.

* `aoutRead_spec` — a file that can be read always gives an object;
* `aoutRead_of_complete` — a complete file gives its words;
* `readsComplete_iff` — which files the reader treats as it should.
-/

def HEADER_SIZE : ℕ := 16

/-- The fields of `aout_header`. -/
inductive HeaderField
  | aMidmag | aText | aData | aBss | aSyms | aEntry | aTrsize | aDrsize
  deriving DecidableEq, Repr

/-- `aout_header`. -/
abbrev AoutHeader := HeaderField → Word

/-- `header_refs`. -/
def headerRefs : List HeaderField :=
  [.aMidmag, .aText, .aData, .aBss, .aSyms, .aEntry, .aTrsize, .aDrsize]

/-- `n_text`. -/
def nText (header : AoutHeader) : ℕ := (header .aText >>> 1).toNat

/-- `aout_object`; `text` has as many words as the header says. -/
structure AoutObject where
  header : AoutHeader
  text : Fin (nText header) → Word

/-- What the calls of `aout_read` other than `read` give: the descriptor, the
    memory of the header with what it happens to hold, and whether `calloc` and
    `close` succeed. -/
structure Calls where
  opened : Option Fd
  malloc : Option AoutHeader
  calloc : Bool
  close : Bool

/-- All of them succeed, and the file can be read. -/
def Calls.succeed (f : File) (header : AoutHeader) : Calls :=
  ⟨some (.opened f), some header, true, true⟩

def aoutReadHeader (fd : Fd) (header : AoutHeader) : Option (AoutHeader × Fd) :=
  Fd.readCells headerRefs header fd

/-- `text` is zero after `calloc`. -/
def aoutReadText (calloc : Bool) (fd : Fd) (header : AoutHeader) :
    Option ((Fin (nText header) → Word) × Fd) :=
  if calloc then Fd.readCells (List.finRange (nText header)) (fun _ => 0) fd else none

/-- `aout_read`; `none` is a null pointer. -/
def aoutRead (calls : Calls) : Option AoutObject :=
  calls.opened.bind fun fd =>
    calls.malloc.bind fun header =>
      (aoutReadHeader fd header).bind fun r =>
        (aoutReadText calls.calloc r.2 r.1).bind fun t =>
          if calls.close then some ⟨r.1, t.1⟩ else none

/-! ### Complete files -/

/-- The file has its header and the text that the header announces. -/
structure Complete (f : File) : Prop where
  header : HEADER_SIZE ≤ f.length
  text : HEADER_SIZE + 2 * ((wordAt f 2).toNat / 2) ≤ f.length

/-- The object has the words of the file. -/
structure Decodes (f : File) (aout : AoutObject) : Prop where
  header : ∀ i, (h : i < headerRefs.length) → aout.header headerRefs[i] = wordAt f (2 * i)
  text : ∀ i : Fin (nText aout.header), aout.text i = wordAt f (HEADER_SIZE + 2 * i)

/-- The reader takes complete files, and from them their words. -/
structure ReadsComplete (f : File) (header : AoutHeader) : Prop where
  accepts : (aoutRead (.succeed f header)).isSome ↔ Complete f
  decodes : ∀ aout, aoutRead (.succeed f header) = some aout → Decodes f aout

section Reader

variable {f : File}

theorem nodup_headerRefs : headerRefs.Nodup := by decide

theorem nText_eq (header : AoutHeader) : nText header = (header .aText).toNat / 2 := by
  rw [nText, BitVec.toNat_ushiftRight, Nat.shiftRight_eq_div_pow, pow_one]

theorem aoutRead_eq {header header' : AoutHeader} {fd₁ fd₂ : Fd}
    {text : Fin (nText header') → Word}
    (hheader : Fd.readCells headerRefs header (.opened f) = some (header', fd₁))
    (htext : Fd.readCells (List.finRange (nText header')) (fun _ => 0) fd₁ = some (text, fd₂)) :
    aoutRead (.succeed f header) = some ⟨header', text⟩ := by
  unfold aoutRead aoutReadHeader aoutReadText Calls.succeed
  dsimp only
  rw [Option.bind_some, Option.bind_some, hheader, Option.bind_some, if_pos rfl, htext]
  rfl

/-- The reader has no end of file: whatever there is to read, there is an object. -/
theorem aoutRead_spec (f : File) (header : AoutHeader) :
    ∃ aout, aoutRead (.succeed f header) = some aout := by
  obtain ⟨header', fd₁, hheader, -, hfails, -⟩ :=
    Fd.readCells_spec (.opened f) (fun _ => rfl) nodup_headerRefs header
  obtain ⟨text, fd₂, htext, -⟩ := Fd.readCells_spec fd₁ (fun p => by rw [hfails]; rfl)
    (List.nodup_finRange (nText header')) fun _ => 0
  refine ⟨⟨header', text⟩, ?_⟩
  exact aoutRead_eq hheader htext

/-- A complete file is read word for word. -/
theorem aoutRead_of_complete (hf : Complete f) (header : AoutHeader) :
    ∃ aout, aoutRead (.succeed f header) = some aout ∧ Decodes f aout := by
  obtain ⟨header', fd₁, hheader, hcontents, hfails, hpos, hfields⟩ :=
    Fd.readCells_of_le (.opened f) (fun _ => rfl) nodup_headerRefs header hf.header
  have haText : header' .aText = wordAt f 2 := hfields 1 (by decide)
  have hn : nText header' = (wordAt f 2).toNat / 2 := by rw [nText_eq, haText]
  obtain ⟨text, fd₂, htext, -, -, -, hwords⟩ :=
    Fd.readCells_of_le fd₁ (fun p => by rw [hfails]; rfl)
      (List.nodup_finRange (nText header')) (fun _ => 0) (by
        rw [hpos, hcontents, List.length_finRange, hn]
        exact hf.text)
  refine ⟨⟨header', text⟩, ?_, fun i hi => ?_, fun i => ?_⟩
  · exact aoutRead_eq hheader htext
  · exact (hfields i hi).trans (congrArg (wordAt f) (Nat.zero_add _))
  · have hword := hwords i.val (by rw [List.length_finRange]; exact i.isLt)
    rw [List.getElem_finRange, hcontents, hpos] at hword
    exact hword

end Reader

/-- **The reader takes every file** that can be read, so it is right on the
    complete ones only. -/
theorem readsComplete_iff (f : File) (header : AoutHeader) :
    ReadsComplete f header ↔ Complete f := by
  constructor
  · intro h
    obtain ⟨aout, haout⟩ := aoutRead_spec f header
    exact h.accepts.mp (by rw [haout]; rfl)
  · intro hf
    obtain ⟨aout, haout, hwords⟩ := aoutRead_of_complete hf header
    refine ⟨⟨fun _ => hf, fun _ => by rw [haout]; rfl⟩, fun aout' haout' => ?_⟩
    obtain rfl := Option.some.inj (haout.symm.trans haout')
    exact hwords

/-- The empty file gives an object. -/
theorem empty_file_read : ¬ ReadsComplete [] fun _ => 0 := by
  intro h
  obtain ⟨aout, haout⟩ := aoutRead_spec [] fun _ => 0
  exact absurd (h.accepts.mp (by rw [haout]; rfl)).header (by decide)

end XMachine.Load
