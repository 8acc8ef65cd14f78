import XMachine.Lib.ByteStore

namespace XMachine.Lib

/-!
# Library — raw bytes of files and word arrays

A file is the list of its bytes.  `readAt` and `writeAt` are a `read` and a
`write` behind an `lseek`; they transfer the full count where the file reaches
that far.  `rawByte` and `storeRaw` are the bytes of an array of 16-bit cells as
they lie in the memory of a little-endian host, which is what a `read` into or a
`write` from such an array moves.
-/

abbrev File := List (BitVec 8)

/-- `lseek(file, off, SEEK_SET)` and `read(file, _, n)`. -/
def readAt (file : File) (off n : ℕ) : List (BitVec 8) := (file.drop off).take n

/-- `lseek(file, off, SEEK_SET)` and `write(file, bytes, _)`; a gap is filled with zeros. -/
def writeAt (file : File) (off : ℕ) (bytes : List (BitVec 8)) : File :=
  (file ++ List.replicate (off - file.length) 0).take off ++ bytes ++ file.drop (off + bytes.length)

section Files

variable {file : File} {off n i : ℕ} {bytes : List (BitVec 8)}

theorem readAt_getElem? (hi : i < n) : (readAt file off n)[i]? = file[off + i]? := by
  rw [readAt, List.getElem?_take_of_lt hi, List.getElem?_drop]

theorem writeAt_of_le (h : off ≤ file.length) :
    writeAt file off bytes = file.take off ++ bytes ++ file.drop (off + bytes.length) := by
  rw [writeAt, Nat.sub_eq_zero_of_le h, List.replicate_zero, List.append_nil]

/-- The bytes written, at their place. -/
theorem writeAt_getElem?_of_mem (h : off ≤ file.length) (hi : i < bytes.length) :
    (writeAt file off bytes)[off + i]? = bytes[i]? := by
  have hlen : (file.take off).length = off := by
    rw [List.length_take]
    omega
  rw [writeAt_of_le h, List.append_assoc, List.getElem?_append_right (by omega), hlen,
    Nat.add_sub_cancel_left, List.getElem?_append_left hi]

/-- Every other byte is as before. -/
theorem writeAt_getElem?_of_not_mem (h : off + bytes.length ≤ file.length)
    (hi : i < off ∨ off + bytes.length ≤ i) : (writeAt file off bytes)[i]? = file[i]? := by
  have hlen : (file.take off).length = off := by
    rw [List.length_take]
    omega
  rw [writeAt_of_le (by omega), List.append_assoc]
  rcases hi with hi | hi
  · rw [List.getElem?_append_left (by omega), List.getElem?_take_of_lt hi]
  · rw [List.getElem?_append_right (by omega), List.getElem?_append_right (by omega), hlen,
      List.getElem?_drop]
    congr 1
    omega

/-- The same for a write beyond the end, as far as the file went. -/
theorem writeAt_getElem?_of_lt (h : i < file.length) (hi : i < off ∨ off + bytes.length ≤ i) :
    (writeAt file off bytes)[i]? = file[i]? := by
  have hlen : ((file ++ List.replicate (off - file.length) 0).take off).length = off := by
    rw [List.length_take, List.length_append, List.length_replicate]
    omega
  rw [writeAt, List.append_assoc]
  rcases hi with hi | hi
  · rw [List.getElem?_append_left (by omega), List.getElem?_take_of_lt hi,
      List.getElem?_append_left h]
  · rw [List.getElem?_append_right (by omega), List.getElem?_append_right (by omega), hlen,
      List.getElem?_drop]
    congr 1
    omega

end Files

/-! ### Arrays of words -/

section Words

variable {size : ℕ}

/-- Byte `k` of the array: the low half of a cell comes first. -/
def rawByte (cells : Fin size → BitVec 16) (k : ℕ) : BitVec 8 :=
  if h : k / 2 < size then
    if k % 2 = 0 then lowByte (cells ⟨k / 2, h⟩) else highByte (cells ⟨k / 2, h⟩)
  else 0

/-- The first `n` bytes of the array. -/
def rawBytes (cells : Fin size → BitVec 16) (n : ℕ) : List (BitVec 8) :=
  (List.range n).map (rawByte cells)

/-- Bytes moved to the beginning of the array; what they do not reach stays. -/
def storeRaw (cells : Fin size → BitVec 16) (bytes : List (BitVec 8)) : Fin size → BitVec 16 :=
  fun c => joinBytes ((bytes[2 * c.val + 1]?).getD (highByte (cells c)))
    ((bytes[2 * c.val]?).getD (lowByte (cells c)))

variable {cells : Fin size → BitVec 16} {bytes : List (BitVec 8)} {n k : ℕ}

@[simp] theorem length_rawBytes : (rawBytes cells n).length = n := by
  simp [rawBytes]

theorem rawBytes_getElem? (h : k < n) : (rawBytes cells n)[k]? = some (rawByte cells k) := by
  simp [rawBytes, h]

theorem rawByte_even {c : Fin size} : rawByte cells (2 * c.val) = lowByte (cells c) := by
  have hdiv : 2 * c.val / 2 = c.val := by omega
  have hmod : 2 * c.val % 2 = 0 := by omega
  simp [rawByte, hdiv, hmod]

theorem rawByte_odd {c : Fin size} : rawByte cells (2 * c.val + 1) = highByte (cells c) := by
  have hdiv : (2 * c.val + 1) / 2 = c.val := by omega
  have hmod : (2 * c.val + 1) % 2 = 1 := by omega
  simp [rawByte, hdiv, hmod]

/-- A cell beyond the bytes moved stays. -/
theorem storeRaw_of_length_le {c : Fin size} (h : bytes.length ≤ 2 * c.val) :
    storeRaw cells bytes c = cells c := by
  rw [storeRaw, List.getElem?_eq_none h, List.getElem?_eq_none (by omega)]
  exact joinBytes_bytes _

end Words

end XMachine.Lib
