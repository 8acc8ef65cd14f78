import XMachine.Guest.Fill
import XMachine.Guest.Runs
import XMachine.Mem.Loading

namespace XMachine.Guest

open XMachine.Lib XMachine.Cpu XMachine.Mem XMachine.Load XMachine.Unibus.BusMemory.Processor
open XMachine.Unibus.BusMemory (Act roundRobin roundRobin_fair)

/-!
# Guest programs — `movr_inc.s` on the emulator

The test program of asm/as/basic, with any count in its data word: read from an
a.out file, loaded and run by `cpu` over the bus.

* `movrInc_fills`, `movrInc_stuck` — the program on the ideal machine;
* `movrInc_file` — the program from its file to the state it leaves, and for
  which counts there is one.
-/

/-! ### The program -/

/-- The words `ws` lie one behind the other from `p` on. -/
def Holds (m : Machine) (p : Word) (ws : List Word) : Prop :=
  ∀ i, (hi : i < ws.length) → wordAt m (p + BitVec.ofNat 16 (2 * i)) = ws[i]

theorem Holds.word {m : Machine} {p x : Word} {ws : List Word} (h : Holds m p ws) (i : ℕ)
    (hi : i < ws.length) (hx : x = p + BitVec.ofNat 16 (2 * i)) : wordAt m x = ws[i] := by
  rw [hx]
  exact h i hi

open Operand in
/-- `movr_inc.s`, assembled for `p`, with `N` in its data word. -/
def movrInc (p N : Word) : List Word :=
  -- `MOV s000, r0`; `MOV $s000, r1`; `INC r0`; `MOV r0, s000`
  [Op.MOV.doubleWord relative (register 0), 0o24,
   Op.MOV.doubleWord immediate (register 1), p + 0o30,
   Op.INC.singleWord (register 0),
   Op.MOV.doubleWord (register 0) relative, 0o12,
   -- `D: MOV $0322, (r1)+`; `DEC r0`; `BNE D`
   Op.MOV.doubleWord immediate (autoincrement 1), 0o322,
   Op.DEC.singleWord (register 0),
   Op.BNE.branchWord 0o374,
   -- `HALT`; `s000: .WORD N`
   0,
   N]

/-- As assembled for address 0. -/
example : movrInc 0 4 = [0o016700, 0o24, 0o012701, 0o30, 0o005200, 0o010067, 0o12, 0o012721,
    0o322, 0o005300, 0o001374, 0, 4] := by decide

/-- What the program leaves: `N + 1` words filled, its registers, and the rest as it was in `m₀`. -/
structure Filled (p N : Word) (m₀ m : Machine) : Prop where
  halted : m.halted = true
  pc : m.pc = p + 0o30
  r0 : m.regs .r0 = 0
  r1 : m.regs .r1 = p + 0o30 + BitVec.ofNat 16 (2 * (N.toNat + 1))
  others : ∀ r, r ≠ .r0 → r ≠ .r1 → r ≠ .pc → r ≠ .psw → m.regs r = m₀.regs r
  words : ∀ l ≤ N.toNat, wordAt m (p + 0o30 + BitVec.ofNat 16 (2 * l)) = 0o322
  frame : ∀ c : Addr, c.toNat < p.toNat + 0o30 ∨ p.toNat + 0o30 + 2 * (N.toNat + 1) ≤ c.toNat →
    m.mem c = m₀.mem c

theorem Holds.of_mem {m m' : Machine} {p : Word} {ws : List Word} (h : Holds m p ws)
    (hmem : m'.mem = m.mem) : Holds m' p ws := fun i hi => (wordAt_congr hmem _).trans (h i hi)

section Program

variable {p N : Word} {m : Machine}

theorem Holds.fillCode (h : Holds m p (movrInc p N)) : FillCode (p + 0o16) 0o322 0 1 m where
  move := h.word 7 (by decide : 7 < 13) rfl
  value := h.word 8 (by decide : 8 < 13) (by bv_omega)
  count := h.word 9 (by decide : 9 < 13) (by bv_omega)
  again := h.word 10 (by decide : 10 < 13) (by bv_omega)

/-- The state in which the program comes to its loop. -/
structure Prepared (p N : Word) (m₀ m : Machine) : Prop where
  running : m.halted = false
  pc : m.pc = p + 0o16
  r0 : m.regs .r0 = BitVec.ofNat 16 (N.toNat + 1)
  r1 : m.regs .r1 = p + 0o30
  others : ∀ r, r ≠ .r0 → r ≠ .r1 → r ≠ .pc → r ≠ .psw → m.regs r = m₀.regs r
  frame : ∀ c : Addr, c.toNat < (p + 0o30).toNat ∨ (p + 0o30).toNat + 2 ≤ c.toNat →
    m.mem c = m₀.mem c

/-- The four instructions before the loop. -/
theorem movrInc_prepares (hfit : p.toNat + 0o32 ≤ 0o1000) (hrun : m.halted = false)
    (hpc : m.pc = p) (hcode : Holds m p (movrInc p N)) :
    Reaches iteration Served (Prepared p N m) m := by
  -- `MOV s000, r0`
  have hX : wordAt m (m.pc + 2) = 0o24 := hpc ▸ hcode.word 1 (by decide : 1 < 13) rfl
  have hA : relativeAddr m = p + 0o30 := by
    rw [relativeAddr, hX, hpc]
    bv_omega
  have hN : wordAt m (p + 0o30) = N := hcode.word 12 (by decide : 12 < 13) rfl
  have h1 := mov_relative_register 0 hrun (hcode.word 0 (by decide : 0 < 13) (by simp [hpc]))
    (by rw [hpc]; omega) (by rw [hX]; decide) (by rw [hA]; bv_omega)
  rw [hA, hN, hpc] at h1
  refine h1.reaches fun m₁ hregs₁ hmem₁ hrun₁ => ?_
  have hcode₁ : Holds m₁ p (movrInc p N) := hcode.of_mem hmem₁
  have hpc₁ : m₁.pc = p + 4 := by simp [Machine.pc, hregs₁]
  -- `MOV $s000, r1`
  have hs : wordAt m₁ (p + 4 + 2) = p + 0o30 := hcode₁.word 3 (by decide : 3 < 13) (by bv_omega)
  have h2 := mov_immediate 1 hrun₁ (by rw [hpc₁]; exact hcode₁.word 2 (by decide : 2 < 13) rfl)
    (by rw [hpc₁]; bv_omega)
  rw [hpc₁, hs] at h2
  refine h2.reaches fun m₂ hregs₂ hmem₂ hrun₂ => ?_
  have hcode₂ : Holds m₂ p (movrInc p N) := hcode₁.of_mem hmem₂
  have hpc₂ : m₂.pc = p + 0o10 := by
    simp [Machine.pc, hregs₂]
    bv_omega
  -- `INC r0`
  have h3 := single_register (show Op.INC.isOperand = true from rfl) rfl rfl 0 hrun₂
    (by rw [hpc₂]; exact hcode₂.word 4 (by decide : 4 < 13) rfl) (by rw [hpc₂]; bv_omega)
  have hval : Op.INC.value m₂.psw 0 (m₂.regs (.general 0)) = m₂.regs (.general 0) + 1 := rfl
  rw [hpc₂, hval] at h3
  refine h3.reaches fun m₃ hregs₃ hmem₃ hrun₃ => ?_
  have hcode₃ : Holds m₃ p (movrInc p N) := hcode₂.of_mem hmem₃
  have hpc₃ : m₃.pc = p + 0o12 := by
    simp [Machine.pc, hregs₃]
    bv_omega
  have hne : Reg.general 0 ≠ Reg.general 1 := by decide
  have hr0 : m₃.regs (.general 0) = N + 1 := by simp [hregs₃, hregs₂, hregs₁, hne]
  have hr1 : m₃.regs (.general 1) = p + 0o30 := by simp [hregs₃, hregs₂, hne.symm]
  have hothers₃ : ∀ r, r ≠ .general 0 → r ≠ .general 1 → r ≠ .pc → r ≠ .psw →
      m₃.regs r = m.regs r := by
    intro r h0 h1 hpc hpsw
    simp [hregs₃, hregs₂, hregs₁, h0, h1, hpc, hpsw]
  -- `MOV r0, s000`
  have hX₃ : wordAt m₃ (m₃.pc + 2) = 0o12 := by
    rw [hpc₃]
    exact hcode₃.word 6 (by decide : 6 < 13) (by bv_omega)
  have hA₃ : relativeAddr m₃ = p + 0o30 := by
    rw [relativeAddr, hX₃, hpc₃]
    bv_omega
  have h4 := mov_register_relative 0 hrun₃
    (by rw [hpc₃]; exact hcode₃.word 5 (by decide : 5 < 13) rfl) (by rw [hpc₃]; bv_omega)
    (by rw [hX₃]; decide) (by rw [hA₃]; bv_omega)
  rw [hA₃, hpc₃] at h4
  refine h4.reaches fun m₄ hregs₄ hmem₄ hrun₄ => ?_
  refine .here ⟨hrun₄, ?_, ?_, ?_, ?_, ?_⟩
  · simp [Machine.pc, hregs₄]
    bv_omega
  · have hsucc : BitVec.ofNat 16 (N.toNat + 1) = N + 1 := by bv_omega
    rw [hsucc, hregs₄]
    exact hr0
  · rw [hregs₄]
    exact hr1
  · intro r h0 h1 hpc hpsw
    rw [hregs₄, Function.update_of_ne hpsw, Function.update_of_ne hpc, hothers₃ r h0 h1 hpc hpsw]
  · intro c hc
    rw [mem_of_write_apart hmem₄ (by bv_omega) hc, hmem₃, hmem₂, hmem₁]

/-- The program fills `N + 1` words, all its accesses being served. -/
theorem movrInc_fills (hfit : p.toNat + 0o30 + 2 * (N.toNat + 1) ≤ 0o1000)
    (hrun : m.halted = false) (hpc : m.pc = p) (hcode : Holds m p (movrInc p N)) :
    Reaches iteration Served (Filled p N m) m := by
  refine (movrInc_prepares (by omega) hrun hpc hcode).trans fun m₄ h4 => ?_
  have hlow : (p + 0o30).toNat = p.toNat + 0o30 := by bv_omega
  have hroom : Room (p + 0o16) (p + 0o30) (N.toNat + 1) :=
    ⟨by bv_omega, by omega, .inl (by bv_omega)⟩
  have hloop : FillCode (p + 0o16) 0o322 0 1 m₄ :=
    hcode.fillCode.of_frame hroom fun c hc => h4.frame c (by omega)
  have hstart := filling_start (v := 0o322) (Nat.succ_ne_zero _) h4.running h4.pc
    (i := 0) h4.r0 (j := 1) h4.r1
  refine (fill_turns (by decide) (Nat.add_zero _) N.isLt hroom hloop hstart).trans fun m₅ h5 => ?_
  -- `HALT`
  have hpc₅ : m₅.pc = p + 0o26 := by
    rw [h5.pc, if_pos rfl]
    bv_omega
  have hzero : wordAt m₅ (p + 0o26) = 0 := by
    have hsame : wordAt m₅ (p + 0o26) = wordAt m (p + 0o26) :=
      wordAt_of_bytes (by bv_omega) fun c hlo hhi => by
        rw [h5.frame c (by bv_omega), h4.frame c (by bv_omega)]
    rw [hsame]
    exact hcode.word 11 (by decide : 11 < 13) rfl
  obtain ⟨hserved, hhalted, hregs₆, hmem₆⟩ :=
    halt_ends h5.running (by rw [hpc₅]; exact hzero) (by rw [hpc₅]; bv_omega)
  refine .one hserved ⟨hhalted, ?_, ?_, ?_, ?_, ?_, ?_⟩
  · rw [Machine.pc, hregs₆, Function.update_self, hpc₅]
    bv_omega
  · rw [hregs₆]
    exact h5.counter
  · rw [hregs₆]
    exact h5.pointer
  · intro r h0 h1 hpc hpsw
    rw [hregs₆, Function.update_of_ne hpc, h5.others r h0 h1 hpc hpsw, h4.others r h0 h1 hpc hpsw]
  · intro l hl
    rw [wordAt_congr hmem₆]
    exact h5.words l (by omega)
  · intro c hc
    rw [hmem₆, h5.frame c (by omega), h4.frame c (by omega)]

/-- With more words to fill than there is room for, the program is stuck in its loop. -/
theorem movrInc_stuck (heven : p.toNat % 2 = 0) (hp : p.toNat + 0o32 ≤ 0o1000)
    (hfull : 0o1000 < p.toNat + 0o30 + 2 * (N.toNat + 1)) (hrun : m.halted = false)
    (hpc : m.pc = p) (hcode : Holds m p (movrInc p N)) :
    Reaches iteration Served (fun m' => m'.halted = false ∧ ¬ Served m') m := by
  refine (movrInc_prepares hp hrun hpc hcode).trans fun m₄ h4 => ?_
  obtain ⟨k, hk⟩ : ∃ k, p.toNat + 0o30 + 2 * k = 0o1000 := ⟨(0o1000 - 0o30 - p.toNat) / 2, by omega⟩
  obtain ⟨t, ht⟩ : ∃ t, k + (t + 1) = N.toNat + 1 := ⟨N.toNat - k, by omega⟩
  have hlow : (p + 0o30).toNat = p.toNat + 0o30 := by bv_omega
  have hroom : Room (p + 0o16) (p + 0o30) k := ⟨by bv_omega, by omega, .inl (by bv_omega)⟩
  have hone : Room (p + 0o16) (p + 0o30) 1 := ⟨by bv_omega, by omega, .inl (by bv_omega)⟩
  have hloop : FillCode (p + 0o16) 0o322 0 1 m₄ :=
    hcode.fillCode.of_frame hone fun c hc => h4.frame c (by omega)
  have hstart := filling_start (v := 0o322) (Nat.succ_ne_zero _) h4.running h4.pc
    (i := 0) h4.r0 (j := 1) h4.r1
  refine (fill_turns (by decide) ht N.isLt hroom hloop hstart).mono fun m₅ h5 => ?_
  exact ⟨h5.running, h5.not_served hroom hloop (by omega)⟩

/-- The counts that come to an end are those for which there is room below 01000. -/
theorem movrInc_halts_iff (heven : p.toNat % 2 = 0) (hp : p.toNat + 0o32 ≤ 0o1000)
    (hrun : m.halted = false) (hpc : m.pc = p) (hcode : Holds m p (movrInc p N)) :
    Reaches iteration Served (fun m' => m'.halted = true) m ↔
      p.toNat + 0o30 + 2 * (N.toNat + 1) ≤ 0o1000 := by
  constructor
  · intro hends
    by_contra hfull
    have hstuck := movrInc_stuck heven hp (by omega) hrun hpc hcode
    obtain ⟨m', hhalted, hrunning, -⟩ := hends.meet
      (fun t ht hserved => absurd (ht.symm.trans hserved.1) (by decide)) (fun t ht => ht.2) hstuck
    exact absurd (hhalted.symm.trans hrunning) (by decide)
  · intro hfit
    exact (movrInc_fills hfit hrun hpc hcode).mono fun _ h => h.halted

end Program

/-! ### The file -/

/-- An a.out file with the program, assembled for address 0, as its text. -/
structure MovrIncFile (f : File) (N : Word) : Prop where
  length : HEADER_SIZE + 26 ≤ f.length
  size : Lib.wordAt f 2 = 26
  text : ∀ i, (hi : i < (movrInc 0 N).length) →
    Lib.wordAt f (HEADER_SIZE + 2 * i) = (movrInc 0 N)[i]

/-- What the program leaves in `cpu` and `mem` with `dev` before it was loaded. -/
structure FilledBy (N : Word) (dev : MemDev) (s : Sys) : Prop where
  ended : ∃ m, s.program = .done m ∧ m.halted = true ∧ m.pc = 0o30 ∧ m.regs .r0 = 0 ∧
    m.regs .r1 = 0o30 + BitVec.ofNat 16 (2 * (N.toNat + 1))
  words : ∀ l ≤ N.toNat, s.bus.mem.dev.readWord (BitVec.ofNat 32 (0o30 + 2 * l)) = some 0o322
  frame : ∀ k, 0o30 + 2 * (N.toNat + 1) ≤ k → s.bus.mem.dev.load k = dev.load k

section File

variable {f : File} {N : Word} {dev dev' : MemDev} {aout : AoutObject}

/-- A word below 01000 is in the device as it is in the ideal store. -/
theorem readWord_of_agrees {m : Machine} (h : dev.Agrees m.mem) {x : Word}
    (hx : x.toNat < 0o1000) : dev.readWord (x.setWidth 32) = some (Cpu.wordAt m x) := by
  have hroom : (x.setWidth 32 : Addr).toNat + 1 < MEMBYTES := by
    unfold MEMBYTES
    bv_omega
  rw [MemDev.readWord_agrees h hroom, wordAt_eq, translateBusAddr_of_lt hx]

/-- A byte that is in the ideal store as in the device `dev'`. -/
theorem load_of_agrees {st : ByteStore Addr} (h : dev.Agrees st) {k : ℕ}
    (hk : st (BitVec.ofNat 32 k) = dev'.image (BitVec.ofNat 32 k)) : dev.load k = dev'.load k := by
  by_cases hlt : k < MEMBYTES
  · have haddr : (BitVec.ofNat 32 k).toNat = k := by
      rw [BitVec.toNat_ofNat]
      unfold MEMBYTES at hlt
      omega
    have hold := dev'.agrees_image (BitVec.ofNat 32 k) (by rwa [haddr])
    have hnew := h (BitVec.ofNat 32 k) (by rwa [haddr])
    rw [haddr] at hold hnew
    rw [hnew, hold, hk]
  · simp [MemDev.load, hlt]

/-- The processor finds the program where the loader has put it. -/
theorem MovrIncFile.holds (hf : MovrIncFile f N) (haout : Decodes f aout)
    (hplaced : MemDev.Placed f aout dev dev') :
    Holds (Cpu.start dev'.image 0) 0 (movrInc 0 N) := by
  intro i hi
  have hi' : i < 13 := hi
  have hcount : nText aout.header = 13 := by
    rw [hplaced.count, hf.size]
    rfl
  have hread := hplaced.words ⟨i, by omega⟩
  have haddr : (BitVec.ofNat 32 (2 * i) : Addr)
      = ((0 + BitVec.ofNat 16 (2 * i) : Word).setWidth 32 : Addr) := by bv_omega
  have hword : dev'.readWord ((0 + BitVec.ofNat 16 (2 * i) : Word).setWidth 32) = _ :=
    readWord_of_agrees (m := Cpu.start dev'.image 0) dev'.agrees_image (by bv_omega)
  rw [haout.text, hf.text i hi, haddr, hword, Option.some.injEq] at hread
  exact hread

/-- The device beside the state that the program leaves. -/
theorem Filled.filledBy {m : Machine} {s : Sys} (h : Filled 0 N (Cpu.start dev'.image 0) m)
    (hN : N.toNat ≤ 243) (hothers : ∀ k, 26 ≤ k → dev'.load k = dev.load k)
    (hdone : s.program = .done (m.setMem noStore)) (hagrees : s.bus.mem.dev.Agrees m.mem) :
    FilledBy N dev s where
  ended := ⟨_, hdone, h.halted, h.pc, h.r0, h.r1⟩
  words l hl := by
    have haddr : (BitVec.ofNat 32 (0o30 + 2 * l) : Addr)
        = ((0 + 0o30 + BitVec.ofNat 16 (2 * l) : Word).setWidth 32 : Addr) := by bv_omega
    rw [haddr, readWord_of_agrees hagrees (by bv_omega), h.words l hl]
  frame k hk := by
    by_cases hlt : k < 2 ^ 32
    · have htoNat : (BitVec.ofNat 32 k).toNat = k := by
        rw [BitVec.toNat_ofNat]
        omega
      have hsame := h.frame (BitVec.ofNat 32 k) (.inr (by rw [htoNat]; exact hk))
      rw [load_of_agrees hagrees hsame, hothers k (by omega)]
    · have hout : ¬ k < MEMBYTES := by
        unfold MEMBYTES
        omega
      simp [MemDev.load, hout]

/-- **A program from its file to its effect.**  `mem` takes every file with the
    text of `movr_inc.s`.  Under every fair schedule the emulator halts if the
    count in the data word is at most 243, and then has filled that many words and
    one more; with a higher count it never halts. -/
theorem movrInc_file (hf : MovrIncFile f N) (header : AoutHeader) (dev : MemDev)
    {sched : ℕ → Act} (hfair : FairSchedule Act.thread sched) :
    ∃ aout dev', aoutRead (.succeed f header) = some aout ∧ dev.loadAout aout 0 = some dev' ∧
      (N.toNat ≤ 243 → ∃ t₀, ∀ t, t₀ ≤ t →
        FilledBy N dev (trace step sched (Unibus.BusMemory.Processor.start 0 dev') t)) ∧
      (243 < N.toNat → ∀ t m,
        (trace step sched (Unibus.BusMemory.Processor.start 0 dev') t).program = .done m →
          m.halted = false) := by
  have hcomplete : Complete f := ⟨by have := hf.length; omega, by rw [hf.size]; exact hf.length⟩
  obtain ⟨aout, hread, haout⟩ := aoutRead_of_complete hcomplete header
  obtain ⟨dev', hload, hplaced⟩ := MemDev.loadAout_placed hcomplete haout dev
  have hcode := hf.holds haout hplaced
  have hcount : nText aout.header = 13 := by
    rw [hplaced.count, hf.size]
    rfl
  refine ⟨aout, dev', hread, hload, fun hN => ?_, fun hN t m hdone => ?_⟩
  · have hfills : Reaches iteration Served (Filled 0 N (Cpu.start dev'.image 0))
        (Cpu.start dev'.image 0) :=
      movrInc_fills (by show 0 + 0o30 + 2 * (N.toNat + 1) ≤ 0o1000; omega) rfl rfl hcode
    obtain ⟨m, hhalted, hfilled, t₀, hend⟩ :=
      halts_of_reaches hfair (hfills.mono fun _ h => ⟨h.halted, h⟩)
    refine ⟨t₀, fun t ht => ?_⟩
    obtain ⟨hdone, hagrees⟩ := hend t ht
    exact hfilled.filledBy hN (fun k hk => hplaced.others k (by omega)) hdone hagrees
  · by_contra hhalted
    rw [Bool.not_eq_false] at hhalted
    have hends := (reaches_of_done hdone hhalted).mono fun _ h => h.1
    have hroom := (movrInc_halts_iff (p := 0) (by decide) (by decide) rfl rfl hcode).mp hends
    have hzero : (0 : Word).toNat = 0 := rfl
    omega

end File

/-- The program with the count 4 as the assembler leaves it. -/
def movrIncFile : File :=
  [7, 1, 26, 0, 0, 0, 0, 0, 0, 0, 0, 0, 0, 0, 0, 0] ++
    (movrInc 0 4).flatMap fun w => [lowByte w, highByte w]

theorem movrIncFile_four : MovrIncFile movrIncFile 4 :=
  ⟨by decide, by decide, by decide⟩

theorem movrInc_file_four :
    ∃ aout dev', aoutRead (.succeed movrIncFile fun _ => 0) = some aout ∧
      MemDev.zeroDev.loadAout aout 0 = some dev' ∧ ∃ t₀, ∀ t, t₀ ≤ t → FilledBy 4 MemDev.zeroDev
        (trace step roundRobin (Unibus.BusMemory.Processor.start 0 dev') t) := by
  obtain ⟨aout, dev', hread, hload, hends, -⟩ :=
    movrInc_file movrIncFile_four (fun _ => 0) MemDev.zeroDev roundRobin_fair
  exact ⟨aout, dev', hread, hload, hends (by decide)⟩

end XMachine.Guest
