import XMachine.Cpu.Execute

namespace XMachine.Cpu

open XMachine.Lib

/-!
# CPU — exactness of decoding

`Op.encoding` is the architecture's encoding of each instruction as a pattern,
`Op.codeCase` the pattern that the switches of `exec_instruction` test.  The
two differ at `RTS`, whose case stands in the switch under `0177700` although
its operand field has three bits and not six.  `decode_eq_iff` reads the nested
switches back as the patterns of their cases, and `decodesExactly_iff` says
what follows: the words from `000210` to `000277` run `RTS`, which does not
encode them, and all other words decode as encoded.
-/

/-- `enum OPCode`; `HALT` has no entry there, and its word is zero. -/
def Op.opcode : Op → Word
  | .BR => 0o000400 | .BNE => 0o001000 | .BEQ => 0o001400 | .BGE => 0o002000
  | .BLT => 0o002400 | .BGT => 0o003000 | .BLE => 0o003400 | .BPL => 0o100000
  | .BMI => 0o100400 | .BHI => 0o101000 | .BLOS => 0o101400 | .BVC => 0o102000
  | .BVS => 0o102400 | .BCC => 0o103000 | .BCS => 0o103400
  | .MUL => 0o070000 | .DIV => 0o071000 | .ASH => 0o072000 | .ASHC => 0o073000
  | .XOR => 0o074000 | .JSR => 0o004000 | .RTS => 0o000200
  | .MOV => 0o010000 | .MOVB => 0o110000 | .CMP => 0o020000 | .CMPB => 0o120000
  | .BIT => 0o030000 | .BITB => 0o130000 | .BIC => 0o040000 | .BICB => 0o140000
  | .BIS => 0o050000 | .BISB => 0o150000 | .ADD => 0o060000 | .SUB => 0o160000
  | .JMP => 0o000100 | .SWAB => 0o000300 | .CLR => 0o005000 | .CLRB => 0o105000
  | .COM => 0o005100 | .COMB => 0o105100 | .INC => 0o005200 | .INCB => 0o105200
  | .DEC => 0o005300 | .DECB => 0o105300 | .NEG => 0o005400 | .NEGB => 0o105400
  | .ADC => 0o005500 | .ADCB => 0o105500 | .SBC => 0o005600 | .SBCB => 0o105600
  | .TST => 0o005700 | .TSTB => 0o105700 | .ROR => 0o006000 | .RORB => 0o106000
  | .ROL => 0o006100 | .ROLB => 0o106100 | .ASR => 0o006200 | .ASRB => 0o106200
  | .ASL => 0o006300 | .ASLB => 0o106300 | .MTPS => 0o106400 | .MFPI => 0o006500
  | .MFPD => 0o106500 | .MTPI => 0o006600 | .MTPD => 0o106600 | .SXT => 0o006700
  | .MFPS => 0o106700
  | .HALT => 0

/-- The bits the architecture fixes in the words of a group. -/
def Group.encodingMask : Group → Word
  | .branch => 0o177400
  | .registerSource | .jsr => 0o177000
  | .double => 0o170000
  | .single | .jmp => 0o177700
  | .rts => 0o177770
  | .halt => 0o177777

/-- The mask of the switch that a group's cases stand in. -/
def Group.caseMask : Group → Word
  | .branch => 0o177400
  | .registerSource | .jsr => 0o177000
  | .double => 0o170000
  | .single | .jmp | .rts => 0o177700
  | .halt => 0o177777

/-- The words that encode the instruction. -/
def Op.encoding (op : Op) : Pattern 16 := ⟨op.group.encodingMask, op.opcode⟩

/-- The words that reach the handler's case. -/
def Op.codeCase (op : Op) : Pattern 16 := ⟨op.group.caseMask, op.opcode⟩

/-- `exec_instruction` decodes the word in `ir` as the architecture encodes it:
    a handler runs exactly on the words of its instruction, and a word of no
    instruction halts the processor and changes nothing else that a program sees. -/
structure DecodesExactly (m : Machine) : Prop where
  runs : ∀ op : Op, op ≠ .HALT → (decode m.ir = op ↔ op.encoding.Matches m.ir)
  halts : (∀ op : Op, op ≠ .HALT → ¬ op.encoding.Matches m.ir) →
    (execInstruction m).halted = true ∧ (execInstruction m).regs = m.regs ∧
      (execInstruction m).mem = m.mem

/-! ### The cases do not overlap -/

def Op.all : List Op :=
  [.BR, .BNE, .BEQ, .BGE, .BLT, .BGT, .BLE, .BPL, .BMI, .BHI, .BLOS, .BVC, .BVS, .BCC, .BCS,
   .MUL, .DIV, .ASH, .ASHC, .XOR, .JSR,
   .MOV, .MOVB, .CMP, .CMPB, .BIT, .BITB, .BIC, .BICB, .BIS, .BISB, .ADD, .SUB,
   .JMP, .SWAB, .CLR, .CLRB, .COM, .COMB, .INC, .INCB, .DEC, .DECB, .NEG, .NEGB, .ADC, .ADCB,
   .SBC, .SBCB, .TST, .TSTB, .ROR, .RORB, .ROL, .ROLB, .ASR, .ASRB, .ASL, .ASLB, .MTPS, .MFPI,
   .MFPD, .MTPI, .MTPD, .SXT, .MFPS, .RTS, .HALT]

theorem Op.mem_all (op : Op) : op ∈ Op.all := by
  cases op <;> simp [Op.all]

/-- No two cases of the four switches overlap, so their order does not matter. -/
theorem Op.eq_of_overlap (a b : Op) (h : a.codeCase.Overlap b.codeCase) : a = b :=
  have hall : ∀ a ∈ Op.all, ∀ b ∈ Op.all, a.codeCase.Overlap b.codeCase → a = b := by
    decide +kernel
  hall a a.mem_all b b.mem_all h

/-! ### The switches and their cases -/

section Cases

variable {ir : Word} {op : Op}

theorem branchOp_matches (h : branchOp ir = some op) : op ≠ .HALT ∧ op.codeCase.Matches ir := by
  unfold branchOp at h
  split at h <;> cases h <;> exact ⟨nofun, BitVec.eq_of_toNat_eq ‹_›⟩

theorem registerSourceOp_matches (h : registerSourceOp ir = some op) :
    op ≠ .HALT ∧ op.codeCase.Matches ir := by
  unfold registerSourceOp at h
  split at h <;> cases h <;> exact ⟨nofun, BitVec.eq_of_toNat_eq ‹_›⟩

theorem doubleOp_matches (h : doubleOp ir = some op) : op ≠ .HALT ∧ op.codeCase.Matches ir := by
  unfold doubleOp at h
  split at h <;> cases h <;> exact ⟨nofun, BitVec.eq_of_toNat_eq ‹_›⟩

theorem singleOp_matches (h : singleOp ir = some op) : op ≠ .HALT ∧ op.codeCase.Matches ir := by
  unfold singleOp at h
  split at h <;> cases h <;> exact ⟨nofun, BitVec.eq_of_toNat_eq ‹_›⟩

theorem branchOp_of_matches (hg : op.group = .branch) (h : op.codeCase.Matches ir) :
    branchOp ir = some op := by
  have hm : ir &&& 0o177400 = op.opcode := by
    rw [Pattern.Matches, Op.codeCase, hg] at h
    exact h
  rw [branchOp, hm]
  cases op <;> first | rfl | cases hg

theorem registerSourceOp_of_matches (hg : op.group = .registerSource ∨ op.group = .jsr)
    (h : op.codeCase.Matches ir) : registerSourceOp ir = some op := by
  have hm : ir &&& 0o177000 = op.opcode := by
    rw [Pattern.Matches, Op.codeCase] at h
    rcases hg with hg | hg <;> rw [hg] at h <;> exact h
  rw [registerSourceOp, hm]
  cases op <;> first | rfl | (rcases hg with hg | hg <;> cases hg)

theorem doubleOp_of_matches (hg : op.group = .double) (h : op.codeCase.Matches ir) :
    doubleOp ir = some op := by
  have hm : ir &&& 0o170000 = op.opcode := by
    rw [Pattern.Matches, Op.codeCase, hg] at h
    exact h
  rw [doubleOp, hm]
  cases op <;> first | rfl | cases hg

theorem singleOp_of_matches (hg : op.group = .single ∨ op.group = .jmp ∨ op.group = .rts)
    (h : op.codeCase.Matches ir) : singleOp ir = some op := by
  have hm : ir &&& 0o177700 = op.opcode := by
    rw [Pattern.Matches, Op.codeCase] at h
    rcases hg with hg | hg | hg <;> rw [hg] at h <;> exact h
  rw [singleOp, hm]
  cases op <;> first | rfl | (rcases hg with hg | hg | hg <;> cases hg)

/-- A word reaches `default` of the innermost switch, or it matches the case of
    the handler it runs. -/
theorem decode_cases (ir : Word) :
    (branchOp ir = none ∧ registerSourceOp ir = none ∧ doubleOp ir = none ∧ singleOp ir = none ∧
      decode ir = .HALT) ∨
    decode ir ≠ .HALT ∧ (decode ir).codeCase.Matches ir := by
  unfold decode
  cases hb : branchOp ir with
  | some op => exact .inr (branchOp_matches hb)
  | none =>
    cases hr : registerSourceOp ir with
    | some op => exact .inr (registerSourceOp_matches hr)
    | none =>
      cases hd : doubleOp ir with
      | some op => exact .inr (doubleOp_matches hd)
      | none =>
        cases hs : singleOp ir with
        | some op => exact .inr (singleOp_matches hs)
        | none => exact .inl ⟨rfl, rfl, rfl, rfl, rfl⟩

/-- A word that matches a case does not reach `default`. -/
theorem decode_ne_halt (hop : op ≠ .HALT) (h : op.codeCase.Matches ir) : decode ir ≠ .HALT := by
  intro hhalt
  obtain ⟨hb, hr, hd, hs, -⟩ := (decode_cases ir).resolve_right fun hc => hc.1 hhalt
  -- The switch that the group's cases stand in has a case for the word.
  cases hg : op.group with
  | branch => simp [branchOp_of_matches hg h] at hb
  | registerSource => simp [registerSourceOp_of_matches (.inl hg) h] at hr
  | jsr => simp [registerSourceOp_of_matches (.inr hg) h] at hr
  | double => simp [doubleOp_of_matches hg h] at hd
  | single => simp [singleOp_of_matches (.inl hg) h] at hs
  | jmp => simp [singleOp_of_matches (.inr (.inl hg)) h] at hs
  | rts => simp [singleOp_of_matches (.inr (.inr hg)) h] at hs
  | halt => cases op <;> first | exact hop rfl | cases hg

/-- The nested switches select a handler exactly on the words of its case. -/
theorem decode_eq_iff (hop : op ≠ .HALT) : decode ir = op ↔ op.codeCase.Matches ir := by
  constructor
  · rintro rfl
    exact ((decode_cases ir).resolve_left fun hd => hop hd.2.2.2.2).2
  · intro h
    have hne := decode_ne_halt hop h
    have hm := ((decode_cases ir).resolve_left fun hd => hne hd.2.2.2.2).2
    exact Pattern.eq_of_matches Op.eq_of_overlap hm h

/-- Words that agree under the mask of the handler's case run the same handler. -/
theorem decode_congr {ir' : Word} (hop : decode ir ≠ .HALT)
    (h : ir' &&& (decode ir).group.caseMask = ir &&& (decode ir).group.caseMask) :
    decode ir' = decode ir :=
  (decode_eq_iff hop).mpr (h.trans ((decode_eq_iff hop).mp rfl))

/-- Only the group of `RTS` is tested under another mask than its encoding's. -/
theorem Op.codeCase_eq_encoding (h : op ≠ .RTS) : op.codeCase = op.encoding := by
  cases op <;> first | rfl | exact absurd rfl h

end Cases

/-! ### Exactness -/

theorem rts_encoding_matches (ir : Word) :
    Op.RTS.encoding.Matches ir ↔ 0o200 ≤ ir.toNat ∧ ir.toNat ≤ 0o207 := by
  rw [Pattern.matches_iff_interval ir (p := Op.RTS.encoding) (k := 3) rfl rfl]
  change 0o200 ≤ ir.toNat ∧ ir.toNat < 0o200 + 2 ^ 3 ↔ _
  omega

theorem rts_codeCase_matches (ir : Word) :
    Op.RTS.codeCase.Matches ir ↔ 0o200 ≤ ir.toNat ∧ ir.toNat ≤ 0o277 := by
  rw [Pattern.matches_iff_interval ir (p := Op.RTS.codeCase) (k := 6) rfl rfl]
  change 0o200 ≤ ir.toNat ∧ ir.toNat < 0o200 + 2 ^ 6 ↔ _
  omega

/-- Decoding is exact on all words but those from `000210` to `000277`. -/
theorem decodesExactly_iff (m : Machine) :
    DecodesExactly m ↔ ¬ (0o210 ≤ m.ir.toNat ∧ m.ir.toNat ≤ 0o277) := by
  constructor
  · intro hm hstray
    -- Such a word reaches the case of `RTS`, and `RTS` does not encode it.
    have hruns : decode m.ir = .RTS := by
      rw [decode_eq_iff (by decide : Op.RTS ≠ .HALT), rts_codeCase_matches]
      omega
    have hencodes := (rts_encoding_matches m.ir).mp ((hm.runs .RTS nofun).mp hruns)
    omega
  · intro hstray
    have hruns : ∀ op : Op, op ≠ .HALT → (decode m.ir = op ↔ op.encoding.Matches m.ir) := by
      intro op hop
      rw [decode_eq_iff hop]
      by_cases hr : op = .RTS
      · rw [hr, rts_codeCase_matches, rts_encoding_matches]
        omega
      · rw [Op.codeCase_eq_encoding hr]
    refine ⟨hruns, fun hnone => ?_⟩
    have hhalt : decode m.ir = .HALT := by
      by_contra hne
      exact hnone _ hne ((hruns _ hne).mp rfl)
    rw [execInstruction, hhalt]
    exact ⟨rfl, rfl, rfl⟩

/-- `000240`, which encodes no operand of `RTS`, returns through R0 instead of halting. -/
def strayReturn : Machine := { initCpu (fun _ => 0) with ir := 0o000240 }

theorem strayReturn_not_decodesExactly :
    ¬ DecodesExactly strayReturn ∧ (execInstruction strayReturn).halted = false := by
  refine ⟨fun h => ?_, rfl⟩
  have hruns : Op.RTS.encoding.Matches strayReturn.ir := (h.runs .RTS nofun).mp rfl
  revert hruns
  decide

end XMachine.Cpu
