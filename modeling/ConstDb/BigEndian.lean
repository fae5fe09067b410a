import ConstDb.Bytes

/-! # Big-endian words

All numbers in a database are stored with their most significant byte first.  `encode` and `decode`
convert between a number and a list of bytes (`encode_decode`).  `ByteArray.word32` and
`ByteArray.word64` read a word at an offset of a byte string, and `UInt32.bigEndian` and
`UInt64.bigEndian` write one. -/

namespace ConstDb.BigEndian

/-- The number that a list of bytes stands for, most significant byte first. -/
def decode (bytes : List UInt8) : Nat :=
  bytes.foldl (fun n b => n * 256 + b.toNat) 0

/-- The low `width` bytes of a number, most significant byte first. -/
def encode : (width : Nat) → Nat → List UInt8
  | 0, _ => []
  | width + 1, n => encode width (n / 256) ++ [UInt8.ofNat n]

@[simp] theorem length_encode (width n : Nat) : (encode width n).length = width := by
  induction width generalizing n with
  | zero => rfl
  | succ width ih => simp [encode, ih]

theorem decode_append_singleton (bytes : List UInt8) (b : UInt8) :
    decode (bytes ++ [b]) = decode bytes * 256 + b.toNat := by
  simp [decode]

/-- Reading `bytes` and writing as many bytes gives them back. -/
theorem encode_decode (bytes : List UInt8) : encode bytes.length (decode bytes) = bytes := by
  -- Both directions work from the last byte, so the list is taken apart there.
  generalize hn : bytes.length = n
  induction n generalizing bytes with
  | zero => simp [encode, List.length_eq_zero_iff.1 hn]
  | succ n ih =>
    rcases List.eq_nil_or_concat bytes with rfl | ⟨front, b, rfl⟩
    · simp at hn
    · have hlen : front.length = n := by simpa using hn
      have hdiv : (decode front * 256 + b.toNat) / 256 = decode front := by
        have := b.toNat_lt
        omega
      have hlow : UInt8.ofNat (decode front * 256 + b.toNat) = b := by
        apply UInt8.toNat_inj.1
        have := b.toNat_lt
        simp
      rw [List.concat_eq_append, encode, decode_append_singleton, hdiv, hlow, ih front hlen]

end ConstDb.BigEndian

namespace ByteArray

/-- The byte at offset `i`; behind the end there are zeros. -/
@[inline] def byteAt (b : ByteArray) (i : Nat) : UInt8 := if h : i < b.size then b[i] else 0

/-- The 32-bit word stored at offset `pos`. -/
@[inline] def word32 (b : ByteArray) (pos : Nat) : UInt32 :=
  (((b.byteAt pos).toUInt32 * 256 + (b.byteAt (pos + 1)).toUInt32) * 256
      + (b.byteAt (pos + 2)).toUInt32) * 256
    + (b.byteAt (pos + 3)).toUInt32

/-- The four bytes of a word fit into it. -/
theorem toNat_word32 (b : ByteArray) (pos : Nat) :
    (b.word32 pos).toNat =
      (((b.byteAt pos).toNat * 256 + (b.byteAt (pos + 1)).toNat) * 256
          + (b.byteAt (pos + 2)).toNat) * 256
        + (b.byteAt (pos + 3)).toNat := by
  have h₀ := (b.byteAt pos).toNat_lt
  have h₁ := (b.byteAt (pos + 1)).toNat_lt
  have h₂ := (b.byteAt (pos + 2)).toNat_lt
  have h₃ := (b.byteAt (pos + 3)).toNat_lt
  simp only [word32, UInt32.toNat_add, UInt32.toNat_mul, UInt8.toNat_toUInt32, UInt32.reduceToNat]
  omega

/-- The 64-bit word stored at offset `pos`: a high and a low half. -/
@[inline] def word64 (b : ByteArray) (pos : Nat) : UInt64 :=
  (b.word32 pos).toUInt64 * 4294967296 + (b.word32 (pos + 4)).toUInt64

/-- The two halves of a word fit into it. -/
theorem toNat_word64 (b : ByteArray) (pos : Nat) :
    (b.word64 pos).toNat = (b.word32 pos).toNat * 0x100000000 + (b.word32 (pos + 4)).toNat := by
  have h₀ := (b.word32 pos).toNat_lt
  have h₁ := (b.word32 (pos + 4)).toNat_lt
  simp only [word64, UInt64.toNat_add, UInt64.toNat_mul, UInt32.toNat_toUInt64, UInt64.reduceToNat]
  omega

/-- The bytes of a stretch that lies inside, one by one. -/
theorem toList_extract_eq_map {b : ByteArray} {pos len : Nat} (h : pos + len ≤ b.size) :
    (b.extract pos (pos + len)).data.toList = (List.range len).map fun i => b.byteAt (pos + i) := by
  apply List.ext_getElem
  · simp only [Array.length_toList, size_data, size_extract, List.length_map, List.length_range]
    omega
  · intro i h₁ h₂
    simp only [List.length_map, List.length_range] at h₂
    have hi : pos + i < b.size := by omega
    simp only [Array.getElem_toList, List.getElem_map, List.getElem_range, byteAt, hi, dif_pos]
    rw [← getElem_eq_getElem_data, getElem_extract]

/-- A 32-bit word inside a byte string is the number that its four bytes stand for. -/
theorem toNat_word32_eq_decode {b : ByteArray} {pos : Nat} (h : pos + 4 ≤ b.size) :
    (b.word32 pos).toNat =
      ConstDb.BigEndian.decode (b.extract pos (pos + 4)).data.toList := by
  rw [toList_extract_eq_map h, toNat_word32]
  simp [ConstDb.BigEndian.decode, List.range, List.range.loop]

/-- A 64-bit word inside a byte string is the number that its eight bytes stand for. -/
theorem toNat_word64_eq_decode {b : ByteArray} {pos : Nat} (h : pos + 8 ≤ b.size) :
    (b.word64 pos).toNat =
      ConstDb.BigEndian.decode (b.extract pos (pos + 8)).data.toList := by
  rw [toList_extract_eq_map h, toNat_word64, toNat_word32, toNat_word32]
  simp only [ConstDb.BigEndian.decode, List.range, List.range.loop, List.map_cons, List.map_nil,
    List.foldl_cons, List.foldl_nil, Nat.add_assoc, Nat.reduceAdd, Nat.add_zero]
  omega

end ByteArray

/-- The four bytes that store a 32-bit word. -/
def UInt32.bigEndian (w : UInt32) : ByteArray :=
  (ConstDb.BigEndian.encode 4 w.toNat).toByteArray

/-- The eight bytes that store a 64-bit word. -/
def UInt64.bigEndian (w : UInt64) : ByteArray :=
  (ConstDb.BigEndian.encode 8 w.toNat).toByteArray

@[simp] theorem UInt32.size_bigEndian (w : UInt32) : w.bigEndian.size = 4 := by
  simp [UInt32.bigEndian]

@[simp] theorem UInt64.size_bigEndian (w : UInt64) : w.bigEndian.size = 8 := by
  simp [UInt64.bigEndian]
