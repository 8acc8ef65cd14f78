import XMachine.Cpu.Handlers
import XMachine.Cpu.Latches
import XMachine.Cpu.Linkage

namespace XMachine.Cpu

open XMachine.Lib

/-!
# CPU — where jumps go

`JMP dst` and `JSR R, dst` from one state, against the address the PDP-11 gives
`dst`.  Both address the operand alike; `JSR` takes the low half of the latch,
`JMP` the word found there.

* `Specifier.effective` — the architecture's address;
* `JumpsAlike` — both instructions leave PC there;
* `Specifier.JumpHolds` — the specifiers and the memory contents on which they do.
-/

/-- `JMP dst` -/
def jmpWord (dst : Specifier) : Word := 0o000100 ||| dst.word

/-- The state the operand is addressed in: PC past the instruction word. -/
def pastWord (m : Machine) : Machine := m.setReg .pc (m.pc + 2)

/-- The address of the operand on the PDP-11, with PC past the instruction word.
    A register has none; PC as an index base is past the operand word too. -/
def Specifier.effective (o : Specifier) (m : Machine) : Option Word :=
  let rn := m.regs o.gpr
  let base := if o.reg = 7 then rn + 2 else rn
  match o.mode with
  | 0 => none
  | 1 | 2 => some rn
  | 3 => some (wordAt m rn)
  | 4 => some (rn - 2)
  | 5 => some (wordAt m (rn - 2))
  | 6 => some (base + wordAt m m.pc)
  | 7 => some (wordAt m (base + wordAt m m.pc))

/-- From `m`, both instructions set PC to the address of `dst`. -/
def JumpsAlike (k : Fin 8) (dst : Specifier) (m : Machine) : Prop :=
  ∃ e, dst.effective (pastWord m) = some e ∧ (executeWord (jmpWord dst) m).pc = e ∧
    (executeWord (jsrWord (.ofFin k) dst) m).pc = e

/-- The latch holds `e`, and so does the word it points at. -/
def LatchHolds (e : Word) (m : Machine) : Prop :=
  m.destAddress.setWidth 16 = e ∧ fetchData m m.destAddress = e

/-- When both jumps are right, with PC past the instruction word.  The word at the
    address has to be the address itself; where the code computes another address
    than the architecture, the two have to coincide, and where a mode is missing,
    an earlier latch. -/
def Specifier.JumpHolds (o : Specifier) (m : Machine) : Prop :=
  let rn := m.regs o.gpr
  let X := wordAt m m.pc
  if o.reg = 7 then
    match o.mode with
    | 0 => False
    | 1 => LatchHolds rn m
    | 2 => X = rn
    | 3 => wordAt m X = X
    | 4 => LatchHolds (rn - 2) m
    | 5 => LatchHolds (wordAt m (rn - 2)) m
    | 6 => wordAtSum m (rn + 2) X = rn + 2 + X
    | 7 => LatchHolds (wordAt m (rn + 2 + X)) m
  else if o.reg = 6 then
    match o.mode with
    | 0 => False
    | 1 | 2 => wordAt m rn = rn
    | 3 => wordAt m (wordAt m rn) = wordAt m rn
    | 4 => wordAt m (rn - 2) = rn - 2
    | 5 => LatchHolds (wordAt m (rn - 2)) m
    | 6 => wordAtSum m rn X = rn + X
    | 7 => wordAtSum m X rn = wordAt m (rn + X) ∧ wordAt m (wordAt m (rn + X)) = wordAt m (rn + X)
  else
    match o.mode with
    | 0 | 4 => False
    | 1 | 2 => wordAt m rn = rn
    | 3 => wordAt m (wordAt m rn) = wordAt m rn
    | 5 =>
      -- the word the register points at is stepped before the jump reads its own
      wordAt m (wordAt m rn) = wordAt m (rn - 2) ∧
        wordAt (storeData m (rn.setWidth 32) (wordAt m rn - 2)) (wordAt m (rn - 2))
          = wordAt m (rn - 2)
    | 6 => wordAtSum m X rn = rn + X ∧ wordAt m (rn + X) = rn + X
    | 7 =>
      wordAtSum m (wordAt m rn) X = wordAt m (rn + X) ∧
        wordAt m (wordAt m (rn + X)) = wordAt m (rn + X)

theorem decode_jmpWord : ∀ dst : Specifier, decode (jmpWord dst) = .JMP ∧
    Specifier.dest (jmpWord dst) = dst := by
  decide +kernel

theorem decode_jsrWord_ofFin : ∀ (k : Fin 8) (dst : Specifier),
    decode (jsrWord (.ofFin k) dst) = .JSR ∧ Specifier.dest (jsrWord (.ofFin k) dst) = dst := by
  decide +kernel

section

variable (k : Fin 8) (dst : Specifier) (m : Machine)

/-- `JMP` reads its target from memory. -/
theorem jmp_pc : (executeWord (jmpWord dst) m).pc =
    let n := address .dest false dst (fetched (jmpWord dst) m)
    fetchData n n.destAddress := by
  obtain ⟨hop, hdst⟩ := decode_jmpWord dst
  rw [executeWord, execInstruction, fetched_ir, hop]
  show (JMP _).pc = _
  rw [JMP, setupDestAddressing_eq, fetched_ir, hdst]
  simp [Machine.pc]

/-- `JSR` goes to the latched address itself. -/
theorem jsr_pc : (executeWord (jsrWord (.ofFin k) dst) m).pc =
    (address .dest false dst (fetched (jsrWord (.ofFin k) dst) m)).destAddress.setWidth 16 := by
  obtain ⟨hop, hdst⟩ := decode_jsrWord_ofFin k dst
  rw [executeWord, execInstruction, fetched_ir, hop]
  show (JSR _).pc = _
  rw [JSR, setupDestAddressing_eq, fetched_ir, hdst]
  simp [Machine.pc]

end

/-! ### The addressing phase -/

/-- Once the operand is addressed, latch and word are the operand's address. -/
def Specifier.Lands (o : Specifier) (n : Machine) : Prop :=
  ∃ e, o.effective n = some e ∧ LatchHolds e (address .dest false o n)

/-- A missing mode leaves the jump to an earlier latch. -/
theorem lands_missing {o : Specifier} (n : Machine) (hp : o.present = false) :
    o.Lands n ↔ o.JumpHolds n := by
  rw [Specifier.Lands, address_missing .dest false n hp]
  obtain ⟨mode, reg⟩ := o
  fin_cases reg <;> fin_cases mode <;> first | exact absurd hp (by decide) | skip
  all_goals simp [Specifier.effective, Specifier.JumpHolds]

/-- Where addressing writes no memory, the word at the latched address is the one
    that was there before. -/
theorem lands_iff_target {o : Specifier} (n : Machine) (hp : o.present = true)
    (hmode : o.mode ≠ 0) (hwb : o.writesBack = false) :
    o.Lands n ↔ ∃ e, o.effective n = some e ∧ (o.target n).setWidth 16 = e ∧
      fetchData n (o.target n) = e := by
  have hext : isInternalBusAddr (o.target n) = false := by
    obtain ⟨h0, -⟩ | hlt := o.target_cases n
    · exact absurd h0 hmode
    · exact isInternalBusAddr_of_lt (by omega)
  have hmem : (address .dest false o n).mem = n.mem := by
    rw [address_mem, Specifier.memAfter, hwb, if_neg Bool.false_ne_true]
  have hfetch : fetchData (address .dest false o n) (o.target n) = fetchData n (o.target n) := by
    rw [fetchData_external _ hext, fetchData_external _ hext, hmem]
  simp only [Specifier.Lands, LatchHolds, address_destLatch false n hp, hfetch]

/-- The low half of an unreduced sum is the sum. -/
theorem setWidth_sum (v w : Word) :
    (v.setWidth 32 + w.setWidth 32 : Addr).setWidth 16 = v + w := by bv_omega

/-- A latch that is the address `x` is itself the address. -/
theorem latch_eq_comm {f : Word → Word} {x y : Word} : x = y ∧ f y = y ↔ y = x ∧ f x = x := by
  constructor
  · rintro ⟨rfl, h⟩
    exact ⟨rfl, h⟩
  · rintro ⟨rfl, h⟩
    exact ⟨rfl, h⟩

theorem lands_pc {mode : Fin 8} (n : Machine) (hp : Specifier.present ⟨mode, 7⟩ = true)
    (hmode : mode ≠ 0) : Specifier.Lands ⟨mode, 7⟩ n ↔ Specifier.JumpHolds ⟨mode, 7⟩ n := by
  rw [lands_iff_target n hp hmode (by simp [Specifier.writesBack])]
  fin_cases mode <;> first | exact absurd hp (by decide) | skip
  case «0» => exact absurd rfl hmode
  all_goals
    simp [Specifier.effective, Specifier.JumpHolds, Specifier.target, Machine.pc, setWidth_sum]

theorem lands_sp {mode : Fin 8} (n : Machine) (hp : Specifier.present ⟨mode, 6⟩ = true)
    (hmode : mode ≠ 0) : Specifier.Lands ⟨mode, 6⟩ n ↔ Specifier.JumpHolds ⟨mode, 6⟩ n := by
  rw [lands_iff_target n hp hmode (by simp [Specifier.writesBack])]
  fin_cases mode <;> first | exact absurd hp (by decide) | skip
  case «0» => exact absurd rfl hmode
  case «7» =>
    simp [Specifier.effective, Specifier.JumpHolds, Specifier.target, Machine.pc]
    exact latch_eq_comm
  all_goals
    simp [Specifier.effective, Specifier.JumpHolds, Specifier.target, Machine.pc, setWidth_sum]

/-- `@-(Rn)` on R0–R5: the latch is a word too far along, and the jump reads the
    memory the addressing has written. -/
theorem lands_autodecrementDeferred {reg : Fin 8} (n : Machine) (h6 : reg ≠ 6) (h7 : reg ≠ 7) :
    Specifier.Lands ⟨5, reg⟩ n ↔ Specifier.JumpHolds ⟨5, reg⟩ n := by
  have hp : Specifier.present ⟨5, reg⟩ = true := by simp [Specifier.present, h6, h7]
  have hmem : (address .dest false ⟨5, reg⟩ n).mem
      = (storeData n ((n.regs (Specifier.gpr ⟨5, reg⟩)).setWidth 32)
          (wordAt n (n.regs (Specifier.gpr ⟨5, reg⟩)) - 2)).mem := by
    rw [address_mem, storeData_setWidth]
    simp [Specifier.memAfter, Specifier.writesBack, h6, h7]
  simp [Specifier.Lands, LatchHolds, Specifier.effective, Specifier.JumpHolds, Specifier.target,
    address_destLatch false n hp, h6, h7, wordAt_congr hmem]
  intro hlatch
  rw [hlatch]

theorem lands_general {mode reg : Fin 8} (n : Machine) (hmode : mode ≠ 0) (h6 : reg ≠ 6)
    (h7 : reg ≠ 7) : Specifier.Lands ⟨mode, reg⟩ n ↔ Specifier.JumpHolds ⟨mode, reg⟩ n := by
  by_cases h5 : mode = 5
  · subst h5
    exact lands_autodecrementDeferred n h6 h7
  · have hp : Specifier.present ⟨mode, reg⟩ = true := by simp [Specifier.present, h6, h7]
    rw [lands_iff_target n hp hmode (by simp [Specifier.writesBack, h5])]
    fin_cases mode
    case «0» => exact absurd rfl hmode
    case «5» => exact absurd rfl h5
    case «4» =>
      have hne (a : Word) : a - 2#16 ≠ a := by bv_omega
      simp [Specifier.effective, Specifier.JumpHolds, Specifier.target, h6, h7, hne]
    all_goals simp [Specifier.effective, Specifier.JumpHolds, Specifier.target, h6, h7]
    case «3» =>
      constructor
      · rintro ⟨h, -⟩
        exact h.symm
      · intro h
        rw [h]
        exact ⟨rfl, h⟩
    case «6» => exact latch_eq_comm
    case «7» => exact latch_eq_comm

/-- No jump goes to a register. -/
theorem not_lands_register {reg : Fin 8} (n : Machine) : ¬ Specifier.Lands ⟨0, reg⟩ n := by
  rintro ⟨e, he, -⟩
  cases he

theorem lands_iff (o : Specifier) (n : Machine) : o.Lands n ↔ o.JumpHolds n := by
  by_cases hp : o.present = true
  · obtain ⟨mode, reg⟩ := o
    by_cases hmode : mode = 0
    · subst hmode
      exact iff_of_false (not_lands_register n) (by simp [Specifier.JumpHolds])
    · by_cases h7 : reg = 7
      · subst h7
        exact lands_pc n hp hmode
      · by_cases h6 : reg = 6
        · subst h6
          exact lands_sp n hp hmode
        · exact lands_general n hmode h6 h7
  · exact lands_missing n (Bool.eq_false_iff.mpr hp)

/-! ### The two instructions -/

/-- The instruction word in `ir` makes no difference to the addressing phase. -/
theorem latch_fetched (w : Word) (o : Specifier) (m : Machine) :
    let q := address .dest false o (fetched w m)
    let q' := address .dest false o (pastWord m)
    q.destAddress = q'.destAddress ∧ fetchData q q.destAddress = fetchData q' q'.destAddress := by
  have hag : Agree (fetched w m) (pastWord m) := ⟨rfl, rfl, rfl⟩
  have hlatch : (address .dest false o (fetched w m)).destAddress
      = (address .dest false o (pastWord m)).destAddress := by
    have hloc := address_loc .dest false o (fetched w m)
    rw [hag.target] at hloc
    exact hloc.trans (address_loc .dest false o (pastWord m)).symm
  refine ⟨hlatch, ?_⟩
  rw [hlatch]
  exact (hag.address .dest false o).fetchData _

/-- **Where `JMP` and `JSR` go.**  Both set PC to the effective address exactly
    when the word there is the address, and the code finds it. -/
theorem jumpsAlike_iff (k : Fin 8) (dst : Specifier) (m : Machine) :
    JumpsAlike k dst m ↔ dst.JumpHolds (pastWord m) := by
  obtain ⟨-, hjmp⟩ := latch_fetched (jmpWord dst) dst m
  obtain ⟨hjsr, -⟩ := latch_fetched (jsrWord (.ofFin k) dst) dst m
  rw [← lands_iff, JumpsAlike, Specifier.Lands]
  simp only [jmp_pc, jsr_pc, hjmp, hjsr, LatchHolds, and_comm]

/-- `JMP (R1)` with R1 = 02000 goes to the word at 02000. -/
theorem jmp_reads_target : ¬ ∀ (k : Fin 8) (dst : Specifier) (m : Machine), dst.mode ≠ 0 →
    JumpsAlike k dst m := by
  intro h
  obtain ⟨e, he, hjmp, -⟩ := h 7 ⟨1, 1⟩ ((initCpu fun _ => 0).setReg .r1 0o2000) (by decide)
  have hzero : (executeWord (jmpWord ⟨1, 1⟩) ((initCpu fun _ => 0).setReg .r1 0o2000)).pc = 0 := by
    decide +kernel
  have haddr : e = 0o2000 := (Option.some.inj he).symm
  rw [hzero, haddr] at hjmp
  exact absurd hjmp (by decide)

end XMachine.Cpu
