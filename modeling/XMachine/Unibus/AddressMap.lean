import XMachine.Mem.Memory

namespace XMachine.Disk

open XMachine.Cpu

def RXCS_ADDR : Addr := 0o777170
def RXDB_ADDR : Addr := 0o777172

/-- The disk's address test: its two registers. -/
def isLocalAddr (addr : Addr) : Bool := addr == RXCS_ADDR || addr == RXDB_ADDR

end XMachine.Disk

namespace XMachine.Unibus

open XMachine.Lib XMachine.Cpu XMachine.Mem

/-!
# Unibus — which place a program address reaches

The CPU's data access with the bus made of the devices that are really on it:
`mem` next to the CPU and the disk behind `mem`.  An address no device claims
is never answered and the CPU stays blocked; such an access is `none`.

* `AddressServed` — the address map: memory below `0160000`, the two disk
  registers, the processor's own registers at the top;
* `addressServed_iff` — the addresses the code maps so.  The translation tests
  the bits `0177000` where the I/O page is `0160000`, so memory ends at `01000`
  and the addresses above it lose their place; and the register test comes
  before the translation, so no program address ever passes it;
* `fetchData_agrees`, `storeData_agrees` — below `01000` the devices behave as
  the ideal store of the processor's model;
* `storeFetch_iff` — where a stored word is found again.
-/

/-! ### The wired bus -/

/-- What the disk makes of the accesses it claims.  `pending_bus_requests` acts
    on a `slave_req` it never fills in, so any answer, and none, is possible. -/
structure DiskPort (D : Type) where
  read : D → Addr → Option (Word × D)
  write : D → Addr → Word → Option D

/-- The processor's registers and the devices' states. -/
structure Wired (D : Type) where
  regs : Reg → Word
  mem : MemDev
  disk : D

variable {D : Type} (port : DiskPort D)

def readDataIn (s : Wired D) (addr : Addr) : Option (Word × Wired D) :=
  if Mem.isLocalAddr addr then (s.mem.readWord addr).map fun w => (w, s)
  else if Disk.isLocalAddr addr then
    (port.read s.disk addr).map fun wd => (wd.1, { s with disk := wd.2 })
  else none

def writeDataOut (s : Wired D) (addr : Addr) (data : Word) : Option (Wired D) :=
  if Mem.isLocalAddr addr then (s.mem.writeWord addr data).map fun dev => { s with mem := dev }
  else if Disk.isLocalAddr addr then
    (port.write s.disk addr data).map fun d => { s with disk := d }
  else none

def fetchData (s : Wired D) (addr : Addr) : Option (Word × Wired D) :=
  if isInternalBusAddr addr then (busAddrToRegister addr).map fun r => (s.regs r, s)
  else readDataIn port s (translateBusAddr addr)

def storeData (s : Wired D) (addr : Addr) (data : Word) : Option (Wired D) :=
  if isInternalBusAddr addr then
    (busAddrToRegister addr).map fun r => { s with regs := Function.update s.regs r data }
  else writeDataOut port s (translateBusAddr addr) data

/-! ### The address map -/

/-- `a` reaches memory, and there the cell with index `a`. -/
structure ServedByMemory (a : Word) : Prop where
  external : isInternalBusAddr (a.setWidth 32) = false
  busAddr : translateBusAddr (a.setWidth 32) = a.setWidth 32
  mem : Mem.isLocalAddr (translateBusAddr (a.setWidth 32)) = true
  disk : Disk.isLocalAddr (translateBusAddr (a.setWidth 32)) = false
  load : ∀ (dev : MemDev) (w : Word),
    dev.readWord (translateBusAddr (a.setWidth 32)) = some w → dev.load a.toNat = some (lowByte w)
  put : ∀ (dev : MemDev) (w : Word), ∃ dev',
    dev.writeWord (translateBusAddr (a.setWidth 32)) w = some dev' ∧
      dev'.load a.toNat = some (lowByte w)

/-- `a` reaches the disk register `reg` and nothing else. -/
structure ServedByDisk (a : Word) (reg : Addr) : Prop where
  external : isInternalBusAddr (a.setWidth 32) = false
  busAddr : translateBusAddr (a.setWidth 32) = reg
  disk : Disk.isLocalAddr reg = true
  mem : Mem.isLocalAddr reg = false

/-- `a` reaches the processor register `r`. -/
def ServedByRegister (a : Word) (r : Reg) : Prop :=
  isInternalBusAddr (a.setWidth 32) = true ∧ busAddrToRegister (a.setWidth 32) = some r

/-- `a` is the 16-bit form of `r`'s bus address. -/
def Names (a : Word) (r : Reg) : Prop := r.busAddr = 0o600000 + a.setWidth 32

instance (a : Word) (r : Reg) : Decidable (Names a r) := inferInstanceAs (Decidable (_ = _))

/-- Every program address reaches the one place that owns it. -/
structure AddressServed (a : Word) : Prop where
  memory : a.toNat < 0o160000 → ServedByMemory a
  rxcs : a = 0o177170 → ServedByDisk a Disk.RXCS_ADDR
  rxdb : a = 0o177172 → ServedByDisk a Disk.RXDB_ADDR
  register : ∀ r, Names a r → ServedByRegister a r

/-- The register test runs on the untranslated address, so it never succeeds. -/
theorem not_servedByRegister (a : Word) (r : Reg) : ¬ ServedByRegister a r := by
  rintro ⟨h, -⟩
  rw [isInternalBusAddr_setWidth] at h
  cases h

/-- A translated address is far above the memory. -/
theorem le_translateBusAddr {a : Word} (h : 0o1000 ≤ a.toNat) :
    0o700000 ≤ (translateBusAddr (a.setWidth 32)).toNat := by
  have hmask : (a.setWidth 32 : Addr) &&& 0o177000 ≠ 0 := fun h0 => by
    have := (and_translateMask_eq_zero a).mp h0
    omega
  rw [translateBusAddr, if_pos hmask, BitVec.toNat_or]
  exact Nat.right_le_or

theorem translateBusAddr_not_mem {a : Word} (h : 0o1000 ≤ a.toNat) :
    Mem.isLocalAddr (translateBusAddr (a.setWidth 32)) = false := by
  have hle := le_translateBusAddr h
  have : ¬ (translateBusAddr (a.setWidth 32)).toNat ≤ MEMBYTES := by
    unfold MEMBYTES
    omega
  simp [Mem.isLocalAddr, this]

theorem toNat_programAddr (a : Word) : (a.setWidth 32 : Addr).toNat = a.toNat := by
  rw [BitVec.toNat_setWidth]
  exact Nat.mod_eq_of_lt (lt_trans a.isLt (by decide))

theorem mem_isLocalAddr (a : Word) : Mem.isLocalAddr (a.setWidth 32) = true := by
  have := a.isLt
  simp only [Mem.isLocalAddr, toNat_programAddr, MEMBYTES, Bool.and_eq_true, decide_eq_true_eq]
  omega

theorem disk_isLocalAddr (a : Word) : Disk.isLocalAddr (a.setWidth 32) = false := by
  have hne : ∀ reg : Addr, 0o777170 ≤ reg.toNat → (a.setWidth 32 : Addr) ≠ reg := by
    intro reg hreg he
    have := congrArg BitVec.toNat he
    rw [toNat_programAddr] at this
    have := a.isLt
    omega
  simp [Disk.isLocalAddr, hne Disk.RXCS_ADDR (by decide), hne Disk.RXDB_ADDR (by decide)]

theorem servedByMemory_of_lt {a : Word} (h : a.toNat < 0o1000) : ServedByMemory a := by
  have hbus := translateBusAddr_of_lt h
  have hroom : (a.setWidth 32 : Addr).toNat + 1 < MEMBYTES := by
    rw [toNat_programAddr]
    unfold MEMBYTES
    omega
  refine ⟨isInternalBusAddr_setWidth a, hbus, ?_, ?_, fun dev w hw => ?_, fun dev w => ?_⟩
  · rw [hbus]
    exact mem_isLocalAddr a
  · rw [hbus]
    exact disk_isLocalAddr a
  · have hload := dev.agrees_image (a.setWidth 32) (by omega)
    rw [hbus, MemDev.readWord_agrees dev.agrees_image hroom, Option.some.injEq] at hw
    rw [toNat_programAddr] at hload
    rw [hload, ← hw, ByteStore.readWord, lowByte_joinBytes]
  · obtain ⟨dev', hw, hload⟩ := MemDev.writeWord_of_lt dev w hroom
    refine ⟨dev', by rw [hbus]; exact hw, ?_⟩
    rw [hload, toNat_programAddr, if_neg (by omega), if_pos rfl]

/-- **The address map.**  What the code serves as the map says: memory below
    `01000`, and the I/O page without the processor's registers. -/
theorem addressServed_iff (a : Word) :
    AddressServed a ↔ a.toNat < 0o1000 ∨ (0o160000 ≤ a.toNat ∧ ∀ r, ¬ Names a r) := by
  constructor
  · intro h
    by_cases hlow : a.toNat < 0o1000
    · exact .inl hlow
    · refine .inr ⟨?_, fun r hr => not_servedByRegister a r (h.register r hr)⟩
      -- above 01000 and below the I/O page the bus address is not `a`
      by_contra hpage
      have hmem := (h.memory (by omega)).mem
      rw [translateBusAddr_not_mem (by omega)] at hmem
      cases hmem
  · rintro (hlow | ⟨hpage, hreg⟩)
    · refine ⟨fun _ => servedByMemory_of_lt hlow, ?_, ?_, fun r hr => ?_⟩
      · rintro rfl
        exact absurd hlow (by decide)
      · rintro rfl
        exact absurd hlow (by decide)
      · -- the registers' addresses end in 01777xx
        have hbus : 0o777700 ≤ r.busAddr.toNat := by cases r <;> decide
        rw [Names] at hr
        rw [hr] at hbus
        bv_omega
    · refine ⟨fun h => absurd h (by omega), ?_, ?_, fun r hr => absurd hr (hreg r)⟩
      · rintro rfl
        exact ⟨by decide, by decide, by decide, by decide⟩
      · rintro rfl
        exact ⟨by decide, by decide, by decide, by decide⟩

/-! ### Agreement with the ideal bus -/

/-- The wired state behaves as the machine `m`. -/
def Agrees (s : Wired D) (m : Machine) : Prop := s.regs = m.regs ∧ s.mem.Agrees m.mem

variable {port} {s : Wired D} {m : Machine} {a : Word}

theorem fetchData_agrees (hs : Agrees s m) (h : a.toNat < 0o1000) :
    fetchData port s (a.setWidth 32) = some (Cpu.fetchData m (a.setWidth 32), s) := by
  have hroom : (a.setWidth 32 : Addr).toNat + 1 < MEMBYTES := by
    rw [toNat_programAddr]
    unfold MEMBYTES
    omega
  rw [fetchData, isInternalBusAddr_setWidth, if_neg Bool.false_ne_true, readDataIn,
    translateBusAddr_of_lt h, mem_isLocalAddr, if_pos rfl, MemDev.readWord_agrees hs.2 hroom,
    Option.map_some, Cpu.fetchData_setWidth, wordAt_eq, translateBusAddr_of_lt h]

theorem storeData_agrees (hs : Agrees s m) (v : Word) (h : a.toNat < 0o1000) :
    ∃ s', storeData port s (a.setWidth 32) v = some s' ∧
      Agrees s' (Cpu.storeData m (a.setWidth 32) v) := by
  have hroom : (a.setWidth 32 : Addr).toNat + 1 < MEMBYTES := by
    rw [toNat_programAddr]
    unfold MEMBYTES
    omega
  obtain ⟨dev', hw, hdev'⟩ := MemDev.writeWord_agrees hs.2 v hroom
  refine ⟨{ s with mem := dev' }, ?_, ?_⟩
  · rw [storeData, isInternalBusAddr_setWidth, if_neg Bool.false_ne_true, writeDataOut,
      translateBusAddr_of_lt h, mem_isLocalAddr, if_pos rfl, hw, Option.map_some]
  · rw [storeData_setWidth, translateBusAddr_of_lt h]
    exact ⟨hs.1, hdev'⟩

/-- Two program words that do not overlap. -/
theorem wordAt_storeData_of_disjoint {b : Word} (m : Machine) (v : Word)
    (ha : a.toNat < 0o1000) (hb : b.toNat < 0o1000)
    (hab : a.toNat + 2 ≤ b.toNat ∨ b.toNat + 2 ≤ a.toNat) :
    wordAt (Cpu.storeData m (a.setWidth 32) v) b = wordAt m b := by
  rw [storeData_setWidth, wordAt_eq, wordAt_eq, translateBusAddr_of_lt ha,
    translateBusAddr_of_lt hb, Machine.setMem_mem]
  apply ByteStore.readWord_writeWord_of_disjoint <;> bv_omega

theorem wordAt_storeData_self (m : Machine) (v : Word) (ha : a.toNat < 0o1000) :
    wordAt (Cpu.storeData m (a.setWidth 32) v) a = v := by
  rw [storeData_setWidth, wordAt_eq, translateBusAddr_of_lt ha, Machine.setMem_mem]
  exact ByteStore.readWord_writeWord _ _ (by bv_omega)

/-! ### Store, then fetch -/

/-- Two even program addresses below the I/O page, at least a word apart. -/
structure SeparateWords (a b : Word) : Prop where
  even : a.toNat % 2 = 0 ∧ b.toNat % 2 = 0
  low : a.toNat < 0o157776 ∧ b.toNat < 0o157776
  apart : a.toNat + 2 ≤ b.toNat ∨ b.toNat + 2 ≤ a.toNat

/-- A word stored at `a` is fetched again there, and the word at `b` is as before. -/
def StoreFetch (a b : Word) : Prop :=
  ∀ (D : Type) (port : DiskPort D) (s : Wired D) (v : Word),
    ∃ s', storeData port s (a.setWidth 32) v = some s' ∧
      (∃ t, fetchData port s' (a.setWidth 32) = some (v, t)) ∧
      ∃ w t t', fetchData port s (b.setWidth 32) = some (w, t) ∧
        fetchData port s' (b.setWidth 32) = some (w, t')

/-- A disk that answers nothing; with it only memory serves words. -/
def silentPort : DiskPort Unit where
  read _ _ := none
  write _ _ _ := none

theorem fetchData_silent (s : Wired Unit) (h : 0o1000 ≤ a.toNat) :
    fetchData silentPort s (a.setWidth 32) = none := by
  rw [fetchData, isInternalBusAddr_setWidth, if_neg Bool.false_ne_true, readDataIn,
    translateBusAddr_not_mem h, if_neg Bool.false_ne_true]
  split <;> rfl

theorem storeData_silent (s : Wired Unit) (v : Word) (h : 0o1000 ≤ a.toNat) :
    storeData silentPort s (a.setWidth 32) v = none := by
  rw [storeData, isInternalBusAddr_setWidth, if_neg Bool.false_ne_true, writeDataOut,
    translateBusAddr_not_mem h, if_neg Bool.false_ne_true]
  split <;> rfl

theorem storeFetch_of_lt {b : Word} (ha : a.toNat < 0o1000) (hb : b.toNat < 0o1000)
    (hab : a.toNat + 2 ≤ b.toNat ∨ b.toNat + 2 ≤ a.toNat) : StoreFetch a b := by
  intro D port s v
  -- the ideal machine with the same registers and the same bytes
  let m : Machine := { initCpu s.mem.image with regs := s.regs }
  have hs : Agrees s m := ⟨rfl, s.mem.agrees_image⟩
  obtain ⟨s', hstore, hs'⟩ : ∃ s', storeData port s (a.setWidth 32) v = some s' ∧
      Agrees s' (Cpu.storeData m (a.setWidth 32) v) := storeData_agrees hs v ha
  have hself := wordAt_storeData_self m v ha
  have hother := wordAt_storeData_of_disjoint m v ha hb hab
  refine ⟨s', hstore, ⟨s', ?_⟩, wordAt m b, s, s', ?_, ?_⟩
  · rw [fetchData_agrees hs' ha, fetchData_setWidth, hself]
  · rw [fetchData_agrees hs hb, fetchData_setWidth]
  · rw [fetchData_agrees hs' hb, fetchData_setWidth, hother]

theorem storeFetch_iff {b : Word} (hab : SeparateWords a b) :
    StoreFetch a b ↔ a.toNat < 0o1000 ∧ b.toNat < 0o1000 := by
  constructor
  · intro h
    obtain ⟨s', hstore, -, w, t, t', hfetch, -⟩ :=
      h Unit silentPort ⟨fun _ => 0, ⟨0, 0, fun _ => 0⟩, ()⟩ 0
    constructor
    · by_contra ha
      rw [storeData_silent _ _ (by omega)] at hstore
      cases hstore
    · by_contra hb
      rw [fetchData_silent _ (by omega)] at hfetch
      cases hfetch
  · rintro ⟨ha, hb⟩
    exact storeFetch_of_lt ha hb hab.apart

/-- **Addresses reach their owners** exactly below `01000` and in the I/O page
    apart from the processor's registers; and what is stored is found again
    exactly when both addresses are below `01000`. -/
theorem addressMap_iff (a b : Word) :
    (AddressServed a ↔ a.toNat < 0o1000 ∨ (0o160000 ≤ a.toNat ∧ ∀ r, ¬ Names a r)) ∧
      (SeparateWords a b → (StoreFetch a b ↔ a.toNat < 0o1000 ∧ b.toNat < 0o1000)) :=
  ⟨addressServed_iff a, storeFetch_iff⟩

theorem addressMap_lowMemory : AddressServed 0o100 ∧ StoreFetch 0o100 0o102 := by
  obtain ⟨hserved, hfetch⟩ := addressMap_iff 0o100 0o102
  exact ⟨hserved.mpr (.inl (by decide)), (hfetch ⟨by decide, by decide, by decide⟩).mpr (by decide)⟩

/-- Address `01000` is put on the bus as `0701000`, which no device claims. -/
theorem address_01000_not_served : ¬ AddressServed 0o1000 := by
  intro h
  have hbus := (h.memory (by decide)).busAddr
  exact absurd hbus (by decide)

/-- Address `077170` is memory by the map and the disk's RXCS on the bus. -/
example : translateBusAddr ((0o077170 : Word).setWidth 32) = Disk.RXCS_ADDR := by decide

end XMachine.Unibus
