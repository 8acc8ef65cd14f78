import XMachine.Load.Aout
import XMachine.Mem.Memory

namespace XMachine.Mem

open XMachine.Lib XMachine.Cpu XMachine.Load

/-!
# Memory — loading a program, and the end of the store

`load_aout` puts the text of an a.out object into the store, word by word from
the load offset on.  Like the accesses of the bus it tests no bound of its own.

* `loadWords_isSome_iff` — which texts fit;
* `store_iff` — which accesses that the device accepts stay inside the store;
* `loadWords_spec` — what the loader leaves in the store;
* `load_places_program` — a complete file, read and loaded at offset zero.
-/

namespace MemDev

/-- `store[m] = b` with an `int` for the index. -/
def putInt (dev : MemDev) (m : ℤ) (b : Byte) : Option MemDev :=
  if 0 ≤ m then dev.put m.toNat b else none

/-- The loop of `load_aout` over the words that are left, `m` being the running index. -/
def loadWords (dev : MemDev) : List Word → ℤ → Option MemDev
  | [], _ => some dev
  | word :: text, m =>
    (dev.putInt m ((word &&& 0x00FF).setWidth 8)).bind fun dev =>
      (dev.putInt (m + 1) (((word &&& 0xFF00) >>> 8).setWidth 8)).bind fun dev =>
        loadWords dev text (m + 2)

/-- `load_aout`; the offset becomes an `int`. -/
def loadAout (dev : MemDev) (aout : AoutObject) (offset : BitVec 32) : Option MemDev :=
  dev.loadWords (List.ofFn aout.text) offset.toInt

section Bounds

variable {dev : MemDev} {addr : Addr} {word : Word} {b : Byte} {i : ℕ} {m : ℤ}

theorem load_isSome_iff : (dev.load i).isSome ↔ i < MEMBYTES := by
  unfold load
  split
  · next h => exact iff_of_true rfl h
  · next h => exact iff_of_false Bool.false_ne_true h

theorem put_isSome_iff : (dev.put i b).isSome ↔ i < MEMBYTES := by
  unfold put
  split
  · next h => exact iff_of_true rfl h
  · next h => exact iff_of_false Bool.false_ne_true h

theorem put_mar {dev' : MemDev} (h : dev.put i b = some dev') : dev'.mar = dev.mar := by
  unfold put at h
  split at h
  · obtain rfl := Option.some.inj h
    rfl
  · cases h

theorem putInt_isSome_iff : (dev.putInt m b).isSome ↔ 0 ≤ m ∧ m < MEMBYTES := by
  unfold putInt
  split
  · next h =>
    rw [put_isSome_iff]
    omega
  · next h => exact iff_of_false Bool.false_ne_true fun hm => h hm.1

/-- Below the end of the address space the address and its successor are what they are. -/
theorem toNat_of_isLocalAddr (h : isLocalAddr addr = true) :
    addr.toNat ≤ MEMBYTES ∧ (addr + 1).toNat = addr.toNat + 1 ∧
      (addr.setWidth 16 : Word).toNat = addr.toNat := by
  have hle : addr.toNat ≤ MEMBYTES := by simpa [isLocalAddr] using h
  have hlt : addr.toNat < 65536 := Nat.lt_succ_of_le hle
  refine ⟨hle, ?_, ?_⟩
  · bv_omega
  · rw [BitVec.toNat_setWidth]
    exact Nat.mod_eq_of_lt hlt

/-- Two accesses in a row, the second independent of what the first gave. -/
theorem isSome_bind_iff {α β : Type} {o : Option α} {f : α → Option β} {q : Prop}
    (h : ∀ x, o = some x → ((f x).isSome ↔ q)) : (o.bind f).isSome ↔ o.isSome ∧ q := by
  cases o with
  | none => exact iff_of_false Bool.false_ne_true fun hq => Bool.false_ne_true hq.1
  | some x => exact (h x rfl).trans (and_iff_right rfl).symm

theorem readWord_isSome_iff (h : isLocalAddr addr = true) :
    (dev.readWord addr).isSome ↔ addr.toNat + 1 < MEMBYTES := by
  obtain ⟨-, hsucc, -⟩ := toNat_of_isLocalAddr h
  have hhi : ∀ lo : Byte, dev.load addr.toNat = some lo →
      (((dev.load (addr + 1).toNat).map fun hi =>
        (lo.setWidth 16 : Word) ||| ((hi.setWidth 16 : Word) <<< 8)).isSome ↔
          addr.toNat + 1 < MEMBYTES) := fun lo _ => by
    rw [Option.isSome_map, hsucc, load_isSome_iff]
  rw [readWord, isSome_bind_iff hhi, load_isSome_iff]
  omega

theorem writeByte_isSome_iff (h : isLocalAddr addr = true) :
    (dev.writeByte addr word).isSome ↔ addr.toNat < MEMBYTES := by
  obtain ⟨-, -, hmar⟩ := toNat_of_isLocalAddr h
  rw [writeByte, put_isSome_iff, hmar]

theorem writeWord_isSome_iff (h : isLocalAddr addr = true) :
    (dev.writeWord addr word).isSome ↔ addr.toNat + 1 < MEMBYTES := by
  obtain ⟨-, -, hmar⟩ := toNat_of_isLocalAddr h
  have hsecond : ∀ dev', { dev with mar := addr.setWidth 16, mbr := word }.put
      (addr.setWidth 16 : Word).toNat ((word &&& 0o377).setWidth 8) = some dev' →
      ((dev'.put (dev'.mar.toNat + 1) (((dev'.mbr &&& 0o177400) >>> 8).setWidth 8)).isSome ↔
        addr.toNat + 1 < MEMBYTES) := fun dev' hput => by
    rw [put_isSome_iff, put_mar hput, hmar]
  rw [writeWord, isSome_bind_iff hsecond, put_isSome_iff, hmar]
  omega

/-- A text fits when it ends inside the store; an empty one fits anywhere. -/
theorem loadWords_isSome_iff (text : List Word) :
    (dev.loadWords text m).isSome ↔ text = [] ∨ 0 ≤ m ∧ m + 2 * text.length ≤ MEMBYTES := by
  induction text generalizing dev m with
  | nil => exact iff_of_true rfl (.inl rfl)
  | cons word text ih =>
    have hhigh : ∀ dev', dev.putInt m ((word &&& 0x00FF).setWidth 8) = some dev' →
        (((dev'.putInt (m + 1) (((word &&& 0xFF00) >>> 8).setWidth 8)).bind fun dev =>
          loadWords dev text (m + 2)).isSome ↔ (0 ≤ m + 1 ∧ m + 1 < MEMBYTES) ∧
            (text = [] ∨ 0 ≤ m + 2 ∧ m + 2 + 2 * text.length ≤ MEMBYTES)) := fun dev' _ => by
      rw [isSome_bind_iff fun _ _ => ih, putInt_isSome_iff]
    rw [loadWords, isSome_bind_iff hhigh, putInt_isSome_iff, ← List.length_eq_zero_iff,
      or_iff_right (List.cons_ne_nil word text), List.length_cons]
    push_cast
    omega

theorem loadAout_isSome_iff (aout : AoutObject) (offset : BitVec 32) :
    (dev.loadAout aout offset).isSome ↔
      nText aout.header = 0 ∨ offset.toNat + 2 * nText aout.header ≤ MEMBYTES := by
  have hcond := BitVec.toInt_eq_toNat_cond offset
  rw [loadAout, loadWords_isSome_iff, ← List.length_eq_zero_iff, List.length_ofFn, hcond]
  unfold MEMBYTES
  split <;> omega

end Bounds

/-- **The device leaves its store** at the top: the address test lets in an
    address too many, a word access another, and the loader any offset. -/
theorem store_iff {addr : Addr} (h : isLocalAddr addr = true) (dev : MemDev) (word : Word)
    (aout : AoutObject) (offset : BitVec 32) :
    ((dev.readWord addr).isSome ↔ addr.toNat + 1 < MEMBYTES) ∧
      ((dev.writeWord addr word).isSome ↔ addr.toNat + 1 < MEMBYTES) ∧
      ((dev.writeByte addr word).isSome ↔ addr.toNat < MEMBYTES) ∧
      ((dev.loadAout aout offset).isSome ↔
        nText aout.header = 0 ∨ offset.toNat + 2 * nText aout.header ≤ MEMBYTES) :=
  ⟨readWord_isSome_iff h, writeWord_isSome_iff h, writeByte_isSome_iff h,
    loadAout_isSome_iff aout offset⟩

/-- A device full of zeros. -/
def zeroDev : MemDev := ⟨0, 0, fun _ => 0⟩

/-- An object of two words. -/
def twoWords : AoutObject := ⟨fun field => if field = .aText then 4 else 0, fun i => i + 1⟩

/-- The last byte of the store: a word there is not inside, nor is a text of two
    words three bytes before the end. -/
theorem store_iff_top :
    ((zeroDev.readWord 65534).isSome ↔ (65534 : Addr).toNat + 1 < MEMBYTES) ∧
      ((zeroDev.writeWord 65534 0o123456).isSome ↔ (65534 : Addr).toNat + 1 < MEMBYTES) ∧
      ((zeroDev.writeByte 65534 0o123456).isSome ↔ (65534 : Addr).toNat < MEMBYTES) ∧
      ((zeroDev.loadAout twoWords 65532).isSome ↔
        nText twoWords.header = 0 ∨
          (65532 : BitVec 32).toNat + 2 * nText twoWords.header ≤ MEMBYTES) :=
  store_iff (by decide) zeroDev 0o123456 twoWords 65532

/-- The last address that the test lets in is behind the store. -/
theorem last_address_outside :
    ¬ ∀ (dev : MemDev) (addr : Addr), isLocalAddr addr = true →
      (dev.readWord addr).isSome = true := by
  intro h
  exact absurd ((readWord_isSome_iff (by decide)).mp (h zeroDev 65535 (by decide))) (by decide)

/-! ### What the loader leaves -/

section Placing

variable {dev : MemDev}

theorem putInt_of_lt (dev : MemDev) {m : ℕ} (b : Byte) (h : m < MEMBYTES) :
    ∃ dev', dev.putInt m b = some dev' ∧
      ∀ j, dev'.load j = if j = m then some b else dev.load j := by
  obtain ⟨dev', hput, -⟩ := put_of_lt dev b h
  refine ⟨dev', ?_, load_put hput⟩
  rw [putInt, if_pos (Int.natCast_nonneg m), Int.toNat_natCast]
  exact hput

/-- One turn of the loop. -/
theorem loadWords_cons (dev : MemDev) {m : ℕ} (word : Word) (text : List Word)
    (h : m + 1 < MEMBYTES) :
    ∃ dev' : MemDev, dev.loadWords (word :: text) m = dev'.loadWords text (m + 2 : ℕ) ∧
      ∀ j, dev'.load j = if j = m + 1 then some (highByte word)
        else if j = m then some (lowByte word) else dev.load j := by
  obtain ⟨dev₁, h₁, hload₁⟩ := putInt_of_lt dev (lowByte word) (Nat.lt_of_succ_lt h)
  obtain ⟨dev₂, h₂, hload₂⟩ := putInt_of_lt dev₁ (highByte word) h
  refine ⟨dev₂, ?_, fun j => by rw [hload₂, hload₁]⟩
  have hlow : ((word &&& 0x00FF).setWidth 8 : Byte) = lowByte word := lowByte_mask word
  have hhigh : (((word &&& 0xFF00) >>> 8).setWidth 8 : Byte) = highByte word := highByte_mask word
  rw [loadWords, hlow, h₁, Option.bind_some, hhigh, show (m : ℤ) + 1 = (m + 1 : ℕ) from rfl, h₂,
    Option.bind_some]
  rfl

/-- The words lie one behind the other, low byte first, and nothing else changes. -/
theorem loadWords_spec (dev : MemDev) (text : List Word) (m : ℕ)
    (h : m + 2 * text.length ≤ MEMBYTES) :
    ∃ dev', dev.loadWords text m = some dev' ∧
      (∀ i, (hi : i < text.length) → dev'.load (m + 2 * i) = some (lowByte text[i]) ∧
        dev'.load (m + 2 * i + 1) = some (highByte text[i])) ∧
      ∀ j, j < m ∨ m + 2 * text.length ≤ j → dev'.load j = dev.load j := by
  induction text generalizing dev m with
  | nil => exact ⟨dev, rfl, fun i hi => absurd hi (Nat.not_lt_zero i), fun _ _ => rfl⟩
  | cons word text ih =>
    rw [List.length_cons] at h
    obtain ⟨dev₁, hstep, hload⟩ := loadWords_cons dev word text (show m + 1 < MEMBYTES by omega)
    obtain ⟨dev', hrest, hwords, hother⟩ := ih dev₁ (m + 2) (by omega)
    refine ⟨dev', hstep.trans hrest, fun i hi => ?_, fun j hj => ?_⟩
    · cases i with
      | zero =>
        -- The bytes of the first word are behind the rest of the loop.
        rw [Nat.mul_zero, Nat.add_zero, hother m (by omega), hother (m + 1) (by omega), hload,
          hload, if_neg (by omega), if_pos rfl, if_pos rfl]
        exact ⟨rfl, rfl⟩
      | succ i =>
        have hword := hwords i (Nat.lt_of_succ_lt_succ hi)
        rw [List.getElem_cons_succ, show m + 2 * (i + 1) = m + 2 + 2 * i by omega]
        exact hword
    · rw [List.length_cons] at hj
      rw [hother j (by omega), hload, if_neg (by omega), if_neg (by omega)]

/-- A word is read back from its two bytes. -/
theorem readWord_of_load {addr : Addr} {word : Word} (haddr : (addr + 1).toNat = addr.toNat + 1)
    (hlo : dev.load addr.toNat = some (lowByte word))
    (hhi : dev.load (addr.toNat + 1) = some (highByte word)) : dev.readWord addr = some word := by
  rw [readWord, hlo, haddr, hhi, Option.bind_some, Option.map_some]
  exact congrArg some (joinBytes_bytes word)

end Placing

/-- The file `f`, read as `aout`, lies in `dev'` where the processor fetches it,
    and `dev'` is otherwise as `dev`. -/
structure Placed (f : File) (aout : AoutObject) (dev dev' : MemDev) : Prop where
  count : nText aout.header = (wordAt f 2).toNat / 2
  inside : 2 * nText aout.header ≤ MEMBYTES
  bytes : ∀ k, k < 2 * nText aout.header → dev'.load k = f[HEADER_SIZE + k]?
  others : ∀ k, 2 * nText aout.header ≤ k → dev'.load k = dev.load k
  words : ∀ i : Fin (nText aout.header),
    dev'.readWord (BitVec.ofNat 32 (2 * i)) = some (aout.text i)

theorem loadAout_placed {f : File} {aout : AoutObject} (hf : Complete f) (haout : Decodes f aout)
    (dev : MemDev) : ∃ dev', dev.loadAout aout 0 = some dev' ∧ Placed f aout dev dev' := by
  have haText : aout.header .aText = wordAt f 2 := haout.header 1 (by decide)
  have hcount : nText aout.header = (wordAt f 2).toNat / 2 := by rw [nText_eq, haText]
  have hword : (wordAt f 2).toNat < 65536 := (wordAt f 2).isLt
  have hinside : 2 * nText aout.header ≤ MEMBYTES := by
    unfold MEMBYTES
    omega
  have hfile : HEADER_SIZE + 2 * nText aout.header ≤ f.length := hcount ▸ hf.text
  obtain ⟨dev', hload, hwords, hother⟩ := loadWords_spec dev (List.ofFn aout.text) 0
    (by rw [List.length_ofFn, Nat.zero_add]; exact hinside)
  rw [List.length_ofFn] at hother
  have hbytes : ∀ i, (hi : i < nText aout.header) →
      dev'.load (2 * i) = some (lowByte (aout.text ⟨i, hi⟩)) ∧
        dev'.load (2 * i + 1) = some (highByte (aout.text ⟨i, hi⟩)) := fun i hi => by
    have hi' := hwords i (by rw [List.length_ofFn]; exact hi)
    rw [List.getElem_ofFn, Nat.zero_add] at hi'
    exact hi'
  refine ⟨dev', hload, hcount, hinside, fun k hk => ?_, fun k hk => hother k (by omega),
    fun i => ?_⟩
  · have hi : k / 2 < nText aout.header := by omega
    obtain ⟨hlo, hhi⟩ := hbytes (k / 2) hi
    obtain ⟨hlo', hhi'⟩ := getElem?_eq_wordAt f (HEADER_SIZE + 2 * (k / 2)) (by omega)
    rw [haout.text] at hlo hhi
    rcases Nat.mod_two_eq_zero_or_one k with heven | hodd
    · rw [show 2 * (k / 2) = k by omega] at hlo hlo'
      rw [hlo', hlo]
    · rw [show 2 * (k / 2) + 1 = k by omega] at hhi
      rw [show HEADER_SIZE + 2 * (k / 2) + 1 = HEADER_SIZE + k by omega] at hhi'
      rw [hhi', hhi]
  · obtain ⟨hlo, hhi⟩ := hbytes i i.isLt
    have hi := i.isLt
    have haddr : (BitVec.ofNat 32 (2 * i.val)).toNat = 2 * i.val := by
      rw [BitVec.toNat_ofNat]
      exact Nat.mod_eq_of_lt (by omega)
    refine readWord_of_load ?_ (by rw [haddr]; exact hlo) (by rw [haddr]; exact hhi)
    rw [BitVec.toNat_add, haddr]
    exact Nat.mod_eq_of_lt (by simp; omega)

/-- **A program is loaded where it is fetched**: for every file with the text that
    its header announces, whatever the memory held. -/
theorem load_places_program (f : File)
    (hf : HEADER_SIZE + 2 * ((wordAt f 2).toNat / 2) ≤ f.length) (header : AoutHeader)
    (dev : MemDev) :
    ∃ aout dev', aoutRead (.succeed f header) = some aout ∧ dev.loadAout aout 0 = some dev' ∧
      Placed f aout dev dev' := by
  have hcomplete : Complete f := ⟨by omega, hf⟩
  obtain ⟨aout, hread, hdecodes⟩ := aoutRead_of_complete hcomplete header
  obtain ⟨dev', hload, hplaced⟩ := loadAout_placed hcomplete hdecodes dev
  exact ⟨aout, dev', hread, hload, hplaced⟩

/-- `mov $5, r1` and `halt`, announced as six bytes of text. -/
def movFile : File := [7, 1, 6, 0, 0, 0, 0, 0, 0, 0, 0, 0, 0, 0, 0, 0, 0xC1, 0x15, 5, 0, 0, 0]

/-- It is loaded over a store full of ones. -/
theorem load_places_mov :
    ∃ aout dev', aoutRead (.succeed movFile fun _ => 0) = some aout ∧
      MemDev.loadAout ⟨3, 5, fun _ => 0o377⟩ aout 0 = some dev' ∧
      Placed movFile aout ⟨3, 5, fun _ => 0o377⟩ dev' :=
  load_places_program movFile (by decide) (fun _ => 0) ⟨3, 5, fun _ => 0o377⟩

end MemDev

end XMachine.Mem
