import XMachine.Cpu.Machine

namespace XMachine.Mem

open XMachine.Lib XMachine.Cpu

/-!
# Memory — the `mem` device

`mem_dev` with its 65535-byte `store`, the address test the data bus calls, and
the three accesses `read_word`, `write_word` and `write_byte`.  The two writes
index the store with the 16-bit `mar`, `read_word` with the 32-bit bus address
itself.  An index outside the array has no meaning in the source; it is `none`
here.

* `Agrees dev st` — the device holds the bytes of the ideal store `st`;
* `readWord_agrees`, `writeWord_agrees`, `writeByte_agrees` — below the last
  byte the accesses are those of the ideal store.
-/

/-- Bytes in the store; `MEMHIGH`, the highest address claimed, is the same number. -/
def MEMBYTES : ℕ := 65535

/-- `mem_dev`. -/
structure MemDev where
  mar : Word
  mbr : Word
  store : Fin MEMBYTES → Byte

/-- The address test handed to the data bus: `MEMLOW` to `MEMHIGH`. -/
def isLocalAddr (addr : Addr) : Bool := 0 ≤ addr.toNat && addr.toNat ≤ MEMBYTES

namespace MemDev

/-- `store[i]`. -/
def load (dev : MemDev) (i : ℕ) : Option Byte :=
  if h : i < MEMBYTES then some (dev.store ⟨i, h⟩) else none

/-- `store[i] = b`. -/
def put (dev : MemDev) (i : ℕ) (b : Byte) : Option MemDev :=
  if h : i < MEMBYTES then some { dev with store := Function.update dev.store ⟨i, h⟩ b } else none

def writeWord (dev : MemDev) (addr : Addr) (word : Word) : Option MemDev :=
  let dev := { dev with mar := addr.setWidth 16, mbr := word }
  (dev.put dev.mar.toNat ((dev.mbr &&& 0o377).setWidth 8)).bind fun dev =>
    dev.put (dev.mar.toNat + 1) (((dev.mbr &&& 0o177400) >>> 8).setWidth 8)

def writeByte (dev : MemDev) (addr : Addr) (word : Word) : Option MemDev :=
  let dev := { dev with mar := addr.setWidth 16, mbr := word }
  dev.put dev.mar.toNat ((dev.mbr &&& 0o377).setWidth 8)

def readWord (dev : MemDev) (addr : Addr) : Option Word :=
  (dev.load addr.toNat).bind fun lo =>
    (dev.load (addr + 1).toNat).map fun hi =>
      (lo.setWidth 16 : Word) ||| ((hi.setWidth 16 : Word) <<< 8)

/-! ### The accesses inside the store -/

/-- The byte stored last is the one loaded, every other byte is as before. -/
theorem load_put {dev dev' : MemDev} {i : ℕ} {b : Byte} (h : dev.put i b = some dev') (j : ℕ) :
    dev'.load j = if j = i then some b else dev.load j := by
  unfold put at h
  split at h
  · next hi =>
    obtain rfl := (Option.some.inj h).symm
    unfold load
    by_cases hj : j < MEMBYTES
    · by_cases hji : j = i
      · subst hji
        simp [hi]
      · simp [hj, hji, Function.update, Fin.ext_iff]
    · have hji : j ≠ i := by omega
      simp [hj, hji]
  · cases h

theorem put_of_lt (dev : MemDev) {i : ℕ} (b : Byte) (h : i < MEMBYTES) :
    ∃ dev', dev.put i b = some dev' ∧ dev'.mar = dev.mar ∧ dev'.mbr = dev.mbr :=
  ⟨_, dif_pos h, rfl, rfl⟩

theorem lowByte_mask (w : Word) : (w &&& 0o377).setWidth 8 = lowByte w := by
  rw [lowByte, show (0o377 : Word) = (BitVec.allOnes 8).setWidth 16 from rfl,
    BitVec.setWidth_and, BitVec.setWidth_setWidth_of_le _ (by decide), BitVec.setWidth_eq,
    BitVec.and_allOnes]

theorem highByte_mask (w : Word) : ((w &&& 0o177400) >>> 8).setWidth 8 = highByte w := by
  rw [BitVec.ushiftRight_and_distrib, show (0o177400 : Word) >>> 8 = 0o377 from rfl, lowByte_mask,
    lowByte, highByte]

/-- A word write inside the store: low byte at the address, high byte above it. -/
theorem writeWord_of_lt (dev : MemDev) {addr : Addr} (word : Word)
    (h : addr.toNat + 1 < MEMBYTES) :
    ∃ dev', dev.writeWord addr word = some dev' ∧ ∀ j, dev'.load j =
      if j = addr.toNat + 1 then some (highByte word)
      else if j = addr.toNat then some (lowByte word) else dev.load j := by
  have hmar : ((addr.setWidth 16 : Word)).toNat = addr.toNat := by
    rw [BitVec.toNat_setWidth]
    exact Nat.mod_eq_of_lt (by unfold MEMBYTES at h; omega)
  obtain ⟨dev₁, h₁, hmar₁, hmbr₁⟩ :=
    put_of_lt { dev with mar := addr.setWidth 16, mbr := word } (lowByte word)
      (show addr.toNat < MEMBYTES by omega)
  obtain ⟨dev₂, h₂, -⟩ := put_of_lt dev₁ (highByte word) h
  refine ⟨dev₂, ?_, fun j => ?_⟩
  · simp only [writeWord, hmar, lowByte_mask, h₁, Option.bind_some, hmar₁, hmbr₁, highByte_mask, h₂]
  · rw [load_put h₂, load_put h₁]
    rfl

theorem writeByte_of_lt (dev : MemDev) {addr : Addr} (word : Word) (h : addr.toNat < MEMBYTES) :
    ∃ dev', dev.writeByte addr word = some dev' ∧ ∀ j, dev'.load j =
      if j = addr.toNat then some (lowByte word) else dev.load j := by
  have hmar : ((addr.setWidth 16 : Word)).toNat = addr.toNat := by
    rw [BitVec.toNat_setWidth]
    exact Nat.mod_eq_of_lt (by unfold MEMBYTES at h; omega)
  obtain ⟨dev', h', -⟩ :=
    put_of_lt { dev with mar := addr.setWidth 16, mbr := word } (lowByte word) h
  refine ⟨dev', ?_, fun j => ?_⟩
  · simp only [writeByte, hmar, lowByte_mask, h']
  · rw [load_put h']
    rfl

/-! ### The ideal store -/

/-- The device holds the bytes of `st` that it has room for. -/
def Agrees (dev : MemDev) (st : ByteStore Addr) : Prop :=
  ∀ addr : Addr, addr.toNat < MEMBYTES → dev.load addr.toNat = some (st addr)

variable {dev : MemDev} {st : ByteStore Addr} {addr : Addr}

theorem toNat_succ (h : addr.toNat + 1 < MEMBYTES) : (addr + 1).toNat = addr.toNat + 1 := by
  unfold MEMBYTES at h
  bv_omega

theorem readWord_agrees (hst : dev.Agrees st) (h : addr.toNat + 1 < MEMBYTES) :
    dev.readWord addr = some (st.readWord addr) := by
  have hlo := hst addr (by omega)
  have hhi := hst (addr + 1) (by rw [toNat_succ h]; exact h)
  rw [readWord, hlo, hhi]
  rfl

theorem writeWord_agrees (hst : dev.Agrees st) (word : Word) (h : addr.toNat + 1 < MEMBYTES) :
    ∃ dev', dev.writeWord addr word = some dev' ∧ dev'.Agrees (st.writeWord addr word) := by
  obtain ⟨dev', hw, hload⟩ := writeWord_of_lt dev word h
  refine ⟨dev', hw, fun c hc => ?_⟩
  rw [hload, ← toNat_succ h, ByteStore.writeWord]
  simp only [ByteStore.writeByte, Function.update_apply, ← BitVec.toNat_inj]
  split
  · rfl
  · split
    · rfl
    · exact hst c hc

theorem writeByte_agrees (hst : dev.Agrees st) (word : Word) (h : addr.toNat < MEMBYTES) :
    ∃ dev', dev.writeByte addr word = some dev' ∧
      dev'.Agrees (st.writeByte addr (lowByte word)) := by
  obtain ⟨dev', hw, hload⟩ := writeByte_of_lt dev word h
  refine ⟨dev', hw, fun c hc => ?_⟩
  rw [hload]
  simp only [ByteStore.writeByte, Function.update_apply, ← BitVec.toNat_inj]
  split
  · rfl
  · exact hst c hc

/-- The ideal store with the device's bytes. -/
def image (dev : MemDev) : ByteStore Addr := fun addr => (dev.load addr.toNat).getD 0

theorem agrees_image (dev : MemDev) : dev.Agrees dev.image := by
  intro addr h
  simp [image, load, h]

end MemDev

end XMachine.Mem
