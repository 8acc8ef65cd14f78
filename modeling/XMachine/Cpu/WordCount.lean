import XMachine.Cpu.Execute
import XMachine.Cpu.Operands
import Mathlib.Data.BitVec

namespace XMachine.Cpu

open XMachine.Lib

/-!
# CPU — words consumed by an instruction

Each instruction should move PC past its own words: two bytes for the opcode
and two for every operand specifier the architecture gives an operand word.

* `ConsumesOwnWords` — one iteration does so;
* `WordsHold` — the instruction words on which it always does, given what an
  earlier instruction left in `dest_address`.

Three things go wrong in the code: the stub handlers skip nothing, mode 7 on PC
has no case, and mode 5 on SP has none either, so that a handler storing
through it can overwrite PC when the stale latch is PC's own bus address.
-/

/-- The operand specifiers of an instruction word. -/
def specifiers (w : Word) : List Specifier :=
  match (decode w).group with
  | .double => [.src w, .dest w]
  | .single | .registerSource => [.dest w]
  | _ => []

/-- The bytes of the operand words the architecture defines. -/
def operandBytes (w : Word) : Word :=
  ((specifiers w).map fun o => if o.hasOperandWord then 2 else 0).sum

/-- The bytes the code takes from the instruction stream after the opcode. -/
def takenBytes (w : Word) : Word :=
  if (decode w).isStub then 0
  else ((specifiers w).map fun o => if o.consumes then 2 else 0).sum

/-- The instruction words under consideration: an operand handler is reached,
    the destination is not PC itself, and modes 1, 4 and 5 are not used on PC. -/
def WordInScope (w : Word) : Prop :=
  ((decode w).group = .double ∨ (decode w).group = .single ∨
      (decode w).group = .registerSource) ∧
    Specifier.dest w ≠ ⟨0, 7⟩ ∧ ∀ o ∈ specifiers w, o ∉ [⟨1, 7⟩, ⟨4, 7⟩, ⟨5, 7⟩]

instance : DecidablePred WordInScope := fun _ => inferInstanceAs (Decidable (_ ∧ _))

theorem dest_mem_specifiers {w : Word} (hw : WordInScope w) : Specifier.dest w ∈ specifiers w := by
  unfold specifiers
  rcases hw.1 with hg | hg | hg <;> simp [hg]

/-- PC ends up past the instruction's own words. -/
def ConsumesOwnWords (m : Machine) : Prop :=
  (iteration m).pc = m.pc + 2 + operandBytes (wordAt m m.pc)

/-- The words that always consume their own words when `dest_address` starts
    out as `d`. -/
def WordsHold (w : Word) (d : Addr) : Prop :=
  ((decode w).isStub = true → (Specifier.dest w).hasOperandWord = false) ∧
    ⟨7, 7⟩ ∉ specifiers w ∧
    (Specifier.dest w = ⟨5, 6⟩ → (decode w).storesDest = true → d = Reg.pc.busAddr →
      (decode w = .MOV ∨ decode w = .BIS) ∧ Specifier.src w = ⟨0, 7⟩)

instance (w : Word) (d : Addr) : Decidable (WordsHold w d) := inferInstanceAs (Decidable (_ ∧ _))

/-! ### PC through the phases of a handler -/

/-- A latched target is PC's bus address only for PC in mode 0. -/
theorem Specifier.target_ne_pcBusAddr {o : Specifier} (m : Machine) (h : o ≠ ⟨0, 7⟩) :
    o.target m ≠ Reg.pc.busAddr := by
  obtain ⟨h0, ht⟩ | ht := o.target_cases m
  · rw [ht]
    refine Reg.busAddr_injective.ne (o.gpr_ne_pc fun h7 => h ?_)
    rw [← h0, ← h7]
  · intro hpc
    rw [hpc] at ht
    exact absurd ht (by decide)

theorem dest_latch_ne_pcBusAddr {o : Specifier} (b : Bool) (m : Machine) (ho : o ≠ ⟨0, 7⟩)
    (h : o.present = true ∨ m.destAddress ≠ Reg.pc.busAddr) :
    (address .dest b o m).destAddress ≠ Reg.pc.busAddr := by
  have hloc := address_loc .dest b o m
  rw [Machine.loc_dest] at hloc
  rw [hloc]
  split
  · exact o.target_ne_pcBusAddr m ho
  · next hp => exact h.resolve_left hp

/-- The store and flag phases leave PC alone when the latch is not PC's. -/
theorem finish_pc {st : AluStore} (fl : FlagUpdate) (m : Machine)
    (h : st.isDest = true → m.destAddress ≠ Reg.pc.busAddr) :
    (fl.apply (st.apply m)).pc = m.pc := by
  rw [FlagUpdate.apply_eq]
  simp [Machine.pc, AluStore.apply_regs_of_ne st m (r := .pc) nofun h]

theorem oneOperand_pc (b : Bool) (f : Word → Word → Word) {st : AluStore} (fl : FlagUpdate)
    (m : Machine) (ho : Specifier.dest m.ir ≠ ⟨0, 7⟩)
    (h : st.isDest = true →
      (Specifier.dest m.ir).present = true ∨ m.destAddress ≠ Reg.pc.busAddr) :
    (oneOperand b f st fl m).pc = m.pc + if (Specifier.dest m.ir).consumes then 2 else 0 := by
  rw [oneOperand, setupDestAddressing_eq, finish_pc fl _ fun hst => ?_]
  · exact address_pc .dest b _ m
  · exact dest_latch_ne_pcBusAddr b m ho (h hst)

theorem twoOperand_pc (b : Bool) (f : Word → Word → Word) {st : AluStore} (fl : FlagUpdate)
    (m : Machine) (ho : Specifier.dest m.ir ≠ ⟨0, 7⟩)
    (h : st.isDest = true →
      (Specifier.dest m.ir).present = true ∨ m.destAddress ≠ Reg.pc.busAddr) :
    (twoOperand b f st fl m).pc = m.pc + (if (Specifier.src m.ir).consumes then 2 else 0)
      + if (Specifier.dest m.ir).consumes then 2 else 0 := by
  rw [twoOperand, setupDestAddressing_eq, setupSrcAddressing_eq, address_ir,
    finish_pc fl _ fun hst => ?_]
  · rw [← address_pc .src b (.src m.ir) m]
    exact address_pc .dest b _ _
  · refine dest_latch_ne_pcBusAddr b _ ho ?_
    rw [address_src_destAddress]
    exact h hst

/-- PC after a handler, unless it stores through a stale latch that happens to
    be PC's bus address. -/
theorem execInstruction_pc {m : Machine} (hw : WordInScope m.ir)
    (h : (decode m.ir).storesDest = true →
      (Specifier.dest m.ir).present = true ∨ m.destAddress ≠ Reg.pc.busAddr) :
    (execInstruction m).pc = m.pc + takenBytes m.ir := by
  obtain ⟨hgroup, hdest, -⟩ := hw
  have hshape := handler_cases (decode m.ir)
  rw [execInstruction]
  generalize hop : decode m.ir = op at *
  generalize handler op = f at *
  cases hshape with
  | two hg hn b f st fl hst hs =>
    rw [hs] at h
    rw [twoOperand_pc b f fl _ hdest h]
    simp [takenBytes, specifiers, hop, hg, hn, BitVec.add_assoc]
  | one hg hn b f st fl hs =>
    rw [hs] at h
    rw [oneOperand_pc b f fl _ hdest h]
    simp [takenBytes, specifiers, hop, hg, hn]
  | stub hg hn => simp [takenBytes, hop, hn, NOP]
  | br hg => simp [hg] at hgroup
  | branch hg f taken => simp [hg] at hgroup
  | jmp h => subst h; simp [Op.group] at hgroup
  | jsr h => subst h; simp [Op.group] at hgroup
  | rts h => subst h; simp [Op.group] at hgroup
  | halt h => subst h; simp [Op.group] at hgroup

theorem iteration_pc {m : Machine} (hw : WordInScope (wordAt m m.pc))
    (h : (decode (wordAt m m.pc)).storesDest = true →
      (Specifier.dest (wordAt m m.pc)).present = true ∨ m.destAddress ≠ Reg.pc.busAddr) :
    (iteration m).pc = m.pc + 2 + takenBytes (wordAt m m.pc) := by
  have hexec := execInstruction_pc (m := fetchInstruction m) hw h
  rw [iteration, hexec, fetchInstruction_pc, fetchInstruction_ir]

/-! ### Comparing the two counts -/

theorem hasOperandWord_of_consumes : ∀ o : Specifier, o.consumes = true →
    o.hasOperandWord = true := by
  decide

/-- The code and the architecture agree on a specifier except on mode 7 of PC. -/
theorem consumes_eq_iff : ∀ o : Specifier, o ∉ [⟨1, 7⟩, ⟨4, 7⟩, ⟨5, 7⟩] →
    (o.consumes = o.hasOperandWord ↔ ⟨7, 7⟩ ≠ o) := by
  decide

theorem sum_one (v : Word) : [v].sum = v := BitVec.add_zero v

theorem sum_two (v w : Word) : [v, w].sum = v + w := congrArg (v + ·) (sum_one w)

theorem ite_two_eq_iff (p p' : Bool) :
    ((if p then 2 else 0) : Word) = (if p' then 2 else 0) ↔ p = p' := by
  revert p p'
  decide

theorem ite_two_add_eq_iff (p q p' q' : Bool) (hp : p = true → p' = true)
    (hq : q = true → q' = true) :
    ((if p then 2 else 0) + (if q then 2 else 0) : Word)
        = (if p' then 2 else 0) + (if q' then 2 else 0) ↔ p = p' ∧ q = q' := by
  revert p q p' q'
  decide

theorem takenBytes_eq_iff {w : Word} (hw : WordInScope w) :
    takenBytes w = operandBytes w ↔
      ((decode w).isStub = true → (Specifier.dest w).hasOperandWord = false) ∧
        ⟨7, 7⟩ ∉ specifiers w := by
  obtain ⟨hgroup, -, hmodes⟩ := hw
  by_cases hn : (decode w).isStub = true
  · have hspec : specifiers w = [.dest w] := by
      unfold specifiers
      generalize decode w = op at hn
      cases op <;> first | rfl | cases hn
    have hpc : (Specifier.dest w).hasOperandWord = false → (⟨7, 7⟩ : Specifier) ≠ .dest w := by
      intro h hpc
      rw [← hpc] at h
      exact absurd h (by decide)
    simp only [takenBytes, operandBytes, hn, hspec, if_true, List.map_cons, List.map_nil,
      sum_one, true_imp_iff, List.mem_singleton]
    rw [eq_comm]
    constructor
    · intro h
      have hno := (ite_two_eq_iff _ false).mp h
      exact ⟨hno, hpc hno⟩
    · exact fun h => (ite_two_eq_iff _ false).mpr h.1
  · have htwo (o : Specifier) (ho : o ∈ specifiers w) := consumes_eq_iff o (hmodes o ho)
    rcases hgroup with hg | hg | hg
    · have hspec : specifiers w = [.src w, .dest w] := by simp only [specifiers, hg]
      simp only [hspec, List.mem_cons, List.not_mem_nil, or_false] at htwo
      simp only [takenBytes, operandBytes, hn, hspec, List.map_cons, List.map_nil, sum_two,
        List.mem_cons, List.not_mem_nil, or_false, false_imp_iff,
        true_and, if_false, Bool.false_eq_true, not_or]
      rw [ite_two_add_eq_iff _ _ _ _ (hasOperandWord_of_consumes _)
        (hasOperandWord_of_consumes _), htwo _ (.inl rfl), htwo _ (.inr rfl)]
    · have hspec : specifiers w = [.dest w] := by simp only [specifiers, hg]
      simp only [hspec, List.mem_singleton] at htwo
      simp only [takenBytes, operandBytes, hn, hspec, List.map_cons, List.map_nil, sum_one,
        List.mem_singleton, false_imp_iff, true_and, if_false,
        Bool.false_eq_true]
      rw [ite_two_eq_iff, htwo _ rfl]
    · exfalso
      generalize decode w = op at hn hg
      cases op <;> simp [Op.group, Op.isStub] at hn hg

/-! ### Stores through a stale latch -/

/-- With mode 0 of PC as the source and a handler that keeps equal operands,
    the stale store puts back what is there. -/
theorem twoOperand_stale_pc {f : Word → Word → Word} (hf : ∀ v, f v v = v) (m : Machine)
    (hsrc : Specifier.src m.ir = ⟨0, 7⟩) (hdest : Specifier.dest m.ir = ⟨5, 6⟩)
    (hlatch : m.destAddress = Reg.pc.busAddr) (fl : FlagUpdate) :
    (twoOperand false f .word fl m).pc = m.pc := by
  rw [twoOperand, setupDestAddressing_eq, setupSrcAddressing_eq, address_ir, hsrc, hdest]
  -- Neither specifier touches a register: the latches are all that matters.
  have hsrcLatch := address_loc .src false ⟨0, 7⟩ m
  have hdestLatch := address_loc .dest false ⟨5, 6⟩ (address .src false ⟨0, 7⟩ m)
  have hregs : (address .dest false ⟨5, 6⟩ (address .src false ⟨0, 7⟩ m)).regs = m.regs := by
    funext r
    simp [address_regs, Specifier.regsAfter, Specifier.consumes, Specifier.delta]
  simp [Specifier.present, Specifier.target, hlatch] at hsrcLatch hdestLatch
  rw [FlagUpdate.apply_eq]
  simp [AluStore.apply, hsrcLatch, hdestLatch, hf, Machine.pc, hregs]

/-- A state at 0400 with `w` there, 0x77 in every other byte, C set and the given
    stale latch; the registers hold values no result below equals PC by. -/
def probe (w : Word) (d : Addr) : Machine where
  regs
    | .pc => 0o400
    | .psw => CARRYFLAG
    | _ => 0x7776
  alu := 0
  ir := 0
  srcAddress := 0
  destAddress := d
  halted := false
  mem := ByteStore.writeWord (fun _ => 0x77) 0o400 w

theorem wordAt_probe (w : Word) (d : Addr) : wordAt (probe w d) (probe w d).pc = w := by
  rw [wordAt_eq, show (probe w d).pc = 0o400 from rfl, translateBusAddr_of_lt (by decide)]
  exact ByteStore.readWord_writeWord _ _ (by decide)

/-- The count is the destination's, or two more. -/
theorem operandBytes_mem {w : Word} (hw : WordInScope w) :
    operandBytes w ∈ [(if (Specifier.dest w).hasOperandWord then (2 : Word) else 0),
      (if (Specifier.dest w).hasOperandWord then (2 : Word) else 0) + 2] := by
  have hsum (p q : Bool) : (if p then (2 : Word) else 0) + (if q then 2 else 0)
      ∈ [(if q then (2 : Word) else 0), (if q then (2 : Word) else 0) + 2] := by
    cases p <;> cases q <;> decide
  unfold operandBytes specifiers
  rcases hw.1 with hg | hg | hg <;> simp only [hg, List.map_cons, List.map_nil]
  · rw [sum_two]
    exact hsum _ _
  · rw [sum_one]
    exact List.mem_cons_self
  · rw [sum_one]
    exact List.mem_cons_self

/-- Storing through a latch left at PC's bus address moves PC elsewhere, except
    for `mov pc, @-(sp)` and `bis pc, @-(sp)`. -/
theorem probe_clobbers_sp : ∀ hi : BitVec 10,
    (decode (hi ++ (0o56 : BitVec 6))).storesDest = true →
    hi ++ (0o56 : BitVec 6) ∉ [(0o010756 : Word), 0o050756] →
    (iteration (probe (hi ++ (0o56 : BitVec 6)) Reg.pc.busAddr)).pc ∉ [(0o402 : Word), 0o404] := by
  decide +kernel

theorem probe_clobbers_pc : ∀ hi : BitVec 10,
    (decode (hi ++ (0o77 : BitVec 6))).storesDest = true →
    (iteration (probe (hi ++ (0o77 : BitVec 6)) Reg.pc.busAddr)).pc ∉ [(0o404 : Word), 0o406] := by
  decide +kernel

/-- A word is its ten high bits followed by its destination field. -/
theorem eq_append_of_dest {w : Word} (lo : BitVec 6)
    (h : Specifier.dest w = Specifier.dest (lo.setWidth 16)) :
    w.extractLsb' 6 10 ++ lo = w := by
  have hreg : w.extractLsb' 0 3 = (lo.setWidth 16).extractLsb' 0 3 :=
    BitVec.eq_of_toFin_eq (congrArg Specifier.reg h)
  have hmode : w.extractLsb' 3 3 = (lo.setWidth 16).extractLsb' 3 3 :=
    BitVec.eq_of_toFin_eq (congrArg Specifier.mode h)
  apply BitVec.eq_of_getLsbD_eq
  intro i hi
  rw [BitVec.getLsbD_append]
  by_cases h6 : i < 6
  · rw [if_pos h6]
    by_cases h3 : i < 3
    · have hbit := congrArg (BitVec.getLsbD · i) hreg
      simpa [h3, hi] using hbit.symm
    · have hbit := congrArg (BitVec.getLsbD · (i - 3)) hmode
      simpa [show i - 3 < 3 by omega, show 3 + (i - 3) = i by omega, hi] using hbit.symm
  · simp [h6, show i - 6 < 10 by omega, show 6 + (i - 6) = i by omega]

/-- Where a stale store goes to PC and does not put it back, the probe fails. -/
theorem probe_not_consumes {w : Word} (hw : WordInScope w) (hs : (decode w).storesDest = true)
    (hd : Specifier.dest w = ⟨5, 6⟩ ∧ w ∉ [(0o010756 : Word), 0o050756] ∨
      Specifier.dest w = ⟨7, 7⟩) :
    ¬ ConsumesOwnWords (probe w Reg.pc.busAddr) := by
  intro h
  rw [ConsumesOwnWords, wordAt_probe, show (probe w Reg.pc.busAddr).pc = 0o400 from rfl] at h
  have hbytes := operandBytes_mem hw
  obtain ⟨hdest, hw'⟩ | hdest := hd
  · have happ := eq_append_of_dest 0o56 (hdest.trans (by decide))
    have hpc := probe_clobbers_sp (w.extractLsb' 6 10)
    rw [happ, h] at hpc
    rw [hdest] at hbytes
    exact hpc hs hw' (by
      rcases List.mem_pair.mp hbytes with hb | hb <;> rw [hb] <;> decide)
  · have happ := eq_append_of_dest 0o77 (hdest.trans (by decide))
    have hpc := probe_clobbers_pc (w.extractLsb' 6 10)
    rw [happ, h] at hpc
    rw [hdest] at hbytes
    exact hpc hs (by
      rcases List.mem_pair.mp hbytes with hb | hb <;> rw [hb] <;> decide)

/-! ### The exact condition -/

/-- The two words whose stale store puts back what is there. -/
theorem stale_exception {w : Word} (h : (decode w = .MOV ∨ decode w = .BIS) ∧
    Specifier.src w = ⟨0, 7⟩) (hd : Specifier.dest w = ⟨5, 6⟩) {m : Machine}
    (hw : wordAt m m.pc = w) (hlatch : m.destAddress = Reg.pc.busAddr) : ConsumesOwnWords m := by
  obtain ⟨hop, hsrc⟩ := h
  have hbytes : operandBytes w = 0 := by
    unfold operandBytes specifiers
    rcases hop with hop | hop <;> rw [hop] <;> simp only [Op.group, hsrc, hd] <;> decide
  rw [ConsumesOwnWords, hw, hbytes, iteration, execInstruction, fetchInstruction_ir, hw]
  have hir : (fetchInstruction m).ir = w := hw
  rw [← hir] at hsrc hd
  have hpc : (fetchInstruction m).pc = m.pc + 2 + 0 := (fetchInstruction_pc m).trans (by simp)
  rw [← hpc]
  rcases hop with hop | hop
  · rw [hop]
    exact twoOperand_stale_pc (f := fun s _ => s) (fun _ => rfl) _ hsrc hd hlatch _
  · rw [hop]
    exact twoOperand_stale_pc (f := fun s d => d ||| s) (fun _ => BitVec.or_self) _ hsrc hd
      hlatch _

/-- In scope, a destination whose mode has no case is mode 5 of SP or mode 7 of PC. -/
theorem dest_eq_of_not_present {w : Word} (hw : WordInScope w)
    (h : (Specifier.dest w).present = false) :
    Specifier.dest w = ⟨5, 6⟩ ∨ Specifier.dest w = ⟨7, 7⟩ := by
  have hmiss : ∀ o : Specifier, o.present = false → o ∉ [⟨1, 7⟩, ⟨4, 7⟩, ⟨5, 7⟩] →
      o = ⟨5, 6⟩ ∨ o = ⟨7, 7⟩ := by
    decide
  exact hmiss _ h (hw.2.2 _ (dest_mem_specifiers hw))

theorem consumesOwnWords_iff_takenBytes {m : Machine} (hw : WordInScope (wordAt m m.pc))
    (h : ¬ ((Specifier.dest (wordAt m m.pc)).present = false ∧
      (decode (wordAt m m.pc)).storesDest = true ∧ m.destAddress = Reg.pc.busAddr)) :
    ConsumesOwnWords m ↔ takenBytes (wordAt m m.pc) = operandBytes (wordAt m m.pc) := by
  rw [ConsumesOwnWords, iteration_pc hw fun hs => ?_]
  · exact BitVec.add_right_inj _
  · by_contra hno
    rw [not_or, Bool.not_eq_true, not_not] at hno
    exact h ⟨hno.1, hs, hno.2⟩

/-- **Words consumed.**  For an instruction word in scope and a value left in
    `dest_address`, every state with them consumes the instruction's own words
    exactly on `WordsHold`. -/
theorem consumesOwnWords_iff (w : Word) (d : Addr) (hw : WordInScope w) :
    (∀ m, wordAt m m.pc = w → m.destAddress = d → ConsumesOwnWords m) ↔ WordsHold w d := by
  by_cases hstale : (Specifier.dest w).present = false ∧ (decode w).storesDest = true ∧
      d = Reg.pc.busAddr
  · obtain ⟨hmiss, hs, rfl⟩ := hstale
    have hdest := dest_eq_of_not_present hw hmiss
    constructor
    · intro h
      have hprobe := h (probe w Reg.pc.busAddr) (wordAt_probe w _) rfl
      -- Only the two exceptions survive the probe.
      have hexc : w ∈ [(0o010756 : Word), 0o050756] := by
        by_contra hno
        exact probe_not_consumes hw hs (hdest.imp_left fun h56 => ⟨h56, hno⟩) hprobe
      obtain rfl | rfl := List.mem_pair.mp hexc <;> decide
    · rintro ⟨-, h77, hexc⟩ m hm hd
      have h56 : Specifier.dest w = ⟨5, 6⟩ :=
        hdest.resolve_right fun hd77 => h77 (hd77 ▸ dest_mem_specifiers hw)
      exact stale_exception (hexc h56 hs rfl) h56 hm hd
  · constructor
    · intro h
      have hprobe := h (probe w d) (wordAt_probe w d) rfl
      have hw' : WordInScope (wordAt (probe w d) (probe w d).pc) := by rwa [wordAt_probe]
      rw [consumesOwnWords_iff_takenBytes hw' (by rwa [wordAt_probe]), wordAt_probe,
        takenBytes_eq_iff hw] at hprobe
      refine ⟨hprobe.1, hprobe.2, fun h56 hs hd => absurd ⟨?_, hs, hd⟩ hstale⟩
      rw [h56]
      decide
    · rintro ⟨hstub, h77, -⟩ m rfl rfl
      exact (consumesOwnWords_iff_takenBytes hw hstale).mpr
        ((takenBytes_eq_iff hw).mpr ⟨hstub, h77⟩)

/-- `mov r0, r1` holds whatever is in the latch. -/
theorem consumesOwnWords_mov :
    (∀ m, wordAt m m.pc = 0o010001 → m.destAddress = 0 → ConsumesOwnWords m)
      ↔ WordsHold 0o010001 0 :=
  consumesOwnWords_iff 0o010001 0 (by decide)

/-- `xor r0, 2(r1)` leaves its index word to be executed. -/
theorem xor_index_not_consumed :
    ¬ ∀ m, WordInScope (wordAt m m.pc) → ConsumesOwnWords m := by
  intro h
  have hxor := h (probe 0o074061 0) (by decide)
  exact absurd hxor (by unfold ConsumesOwnWords; decide)

end XMachine.Cpu
