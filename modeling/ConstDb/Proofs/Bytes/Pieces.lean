import ConstDb.BigEndian
import Mathlib.Algebra.Ring.Nat

/-! # Pieces of byte strings

A file is put together from pieces, and read again at offsets.  `ByteArray.HasAt b pos piece` says
that `piece` stands in `b` from offset `pos` on; whatever can be read from the piece can then be
read from `b` (`HasAt.word32`, `HasAt.word64`, `HasAt.extract`).

## Key results

- `HasAt.append`: a piece of two parts has both, one behind the other
- `HasAt.join`: each of several pieces that were joined stands behind the ones before it
- `byteAt_overwrite`, `overwrite_of_hasAt`: what writing over a stretch changes, and what not
- `word32_bigEndian`, `word64_bigEndian`: a word that was written is read again
- `hasAt_word32`, `hasAt_word64`: a word that was read stands where it was read
-/

namespace ByteArray

/-- `piece` stands in `b` from offset `pos` on. -/
structure HasAt (b : ByteArray) (pos : Nat) (piece : ByteArray) : Prop where
  le : pos + piece.size ≤ b.size
  byteAt_eq : ∀ i < piece.size, b.byteAt (pos + i) = piece.byteAt i

/-- Puts pieces one behind the other. -/
def join : List ByteArray → ByteArray
  | [] => empty
  | piece :: rest => piece ++ join rest

@[simp] theorem join_nil : join [] = empty := rfl

@[simp] theorem join_cons (piece : ByteArray) (rest : List ByteArray) :
    join (piece :: rest) = piece ++ join rest := rfl

/-- Appending pieces one by one joins them. -/
theorem foldl_append_eq (pieces : List ByteArray) (b : ByteArray) :
    pieces.foldl (· ++ ·) b = b ++ join pieces := by
  induction pieces generalizing b with
  | nil => simp
  | cons piece rest ih => rw [List.foldl_cons, ih, join_cons, append_assoc]

theorem size_join (pieces : List ByteArray) : (join pieces).size = (pieces.map size).sum := by
  induction pieces with
  | nil => rfl
  | cons piece rest ih => rw [join_cons, size_append, ih, List.map_cons, List.sum_cons]

theorem join_append (front back : List ByteArray) :
    join (front ++ back) = join front ++ join back := by
  induction front with
  | nil => simp
  | cons piece rest ih => rw [List.cons_append, join_cons, ih, join_cons, append_assoc]

/-- Blocks of one byte make one block. -/
theorem join_replicate (count width : Nat) (x : UInt8) :
    join (List.replicate count (replicate width x)) = replicate (count * width) x := by
  induction count with
  | zero =>
    rw [Nat.zero_mul]
    rfl
  | succ count ih =>
    rw [List.replicate_succ, join_cons, ih]
    apply ext
    rw [data_append]
    simp only [replicate, Array.replicate_append_replicate]
    rw [Nat.succ_mul, Nat.add_comm]

/-- The front of a block is a block. -/
theorem extract_replicate (x : UInt8) {m n : Nat} (h : m ≤ n) :
    (replicate n x).extract 0 m = replicate m x := by
  apply ext
  simp [replicate, h]

/-- The number of bytes in the first pieces, where all have one size. -/
theorem sum_size_take {pieces : List ByteArray} {width : Nat}
    (hsize : ∀ piece ∈ pieces, piece.size = width) {i : Nat} (hi : i ≤ pieces.length) :
    ((pieces.take i).map size).sum = i * width := by
  have hmap : (pieces.take i).map size = List.replicate i width := by
    rw [List.eq_replicate_iff]
    refine ⟨by simp; omega, fun n hn => ?_⟩
    obtain ⟨piece, hpiece, rfl⟩ := List.mem_map.1 hn
    exact hsize piece (List.mem_of_mem_take hpiece)
  rw [hmap, List.sum_replicate_nat]

/-- Writing over what stands between two others puts another piece in its place. -/
theorem overwrite_append (front : ByteArray) {piece piece' : ByteArray} (back : ByteArray)
    (hsize : piece'.size = piece.size) :
    (front ++ piece ++ back).overwrite front.size piece' = front ++ piece' ++ back := by
  have hfront : (front ++ piece ++ back).extract 0 front.size = front := by
    rw [append_assoc, extract_append_eq_left rfl]
  have hback : (front ++ piece ++ back).extract (front.size + piece'.size)
      (front ++ piece ++ back).size = back := by
    rw [extract_append_eq_right]
    · rw [size_append, hsize]
    · rw [size_append]
  rw [overwrite, hfront, hback]

/-- Writing over the bytes behind a front leaves the front, and what is behind. -/
theorem overwrite_behind (front : ByteArray) {rest piece : ByteArray} (h : piece.size ≤ rest.size) :
    (front ++ rest).overwrite front.size piece =
      front ++ piece ++ rest.extract piece.size rest.size := by
  have hsplit : front ++ rest =
      front ++ rest.extract 0 piece.size ++ rest.extract piece.size rest.size := by
    rw [append_assoc, extract_append_extract, Nat.zero_min, Nat.max_eq_right h, extract_zero_size]
  have hsize : piece.size = (rest.extract 0 piece.size).size := by
    rw [size_extract]
    omega
  rw [hsplit, overwrite_append front _ hsize]

/-- Writing over one of several pieces that were joined, where all have one size. -/
theorem overwrite_join {pieces : List ByteArray} {width : Nat}
    (hsize : ∀ piece ∈ pieces, piece.size = width) {i : Nat} (hi : i < pieces.length)
    {piece : ByteArray} (hpiece : piece.size = width) :
    (join pieces).overwrite (i * width) piece = join (pieces.set i piece) := by
  have hsplit : pieces = pieces.take i ++ pieces[i] :: pieces.drop (i + 1) := by
    rw [← List.drop_eq_getElem_cons hi, List.take_append_drop]
  have hfront : (join (pieces.take i)).size = i * width := by
    rw [size_join, sum_size_take hsize (Nat.le_of_lt hi)]
  have hold : pieces[i].size = width := hsize _ (List.getElem_mem hi)
  calc (join pieces).overwrite (i * width) piece
      = (join (pieces.take i) ++ pieces[i] ++ join (pieces.drop (i + 1))).overwrite
          (join (pieces.take i)).size piece := by
        rw [hfront, append_assoc, ← join_cons, ← join_append, ← hsplit]
    _ = join (pieces.take i) ++ piece ++ join (pieces.drop (i + 1)) :=
        overwrite_append _ _ (hpiece.trans hold.symm)
    _ = join (pieces.set i piece) := by
        rw [List.set_eq_take_append_cons_drop, if_pos hi, join_append, join_cons, append_assoc]

/-! ### Single bytes -/

theorem byteAt_of_lt {b : ByteArray} {i : Nat} (h : i < b.size) : b.byteAt i = b[i] :=
  dif_pos h

/-- There is nothing behind the end. -/
theorem byteAt_of_le {b : ByteArray} {i : Nat} (h : b.size ≤ i) : b.byteAt i = 0 :=
  dif_neg (by omega)

/-- Byte strings are equal if they have the same bytes. -/
theorem eq_of_byteAt {a b : ByteArray} (hsize : a.size = b.size)
    (h : ∀ i < a.size, a.byteAt i = b.byteAt i) : a = b := by
  apply ByteArray.ext_getElem hsize
  intro i h₁ h₂
  have hbyte := h i h₁
  rwa [byteAt_of_lt h₁, byteAt_of_lt h₂] at hbyte

/-- A word is the same wherever its four bytes are. -/
theorem word32_congr {a b : ByteArray} {i j : Nat}
    (h : ∀ k < 4, a.byteAt (i + k) = b.byteAt (j + k)) : a.word32 i = b.word32 j := by
  have hfirst := h 0 (by decide)
  rw [Nat.add_zero, Nat.add_zero] at hfirst
  rw [word32, word32, hfirst, h 1 (by decide), h 2 (by decide), h 3 (by decide)]

theorem word64_congr {a b : ByteArray} {i j : Nat}
    (h : ∀ k < 8, a.byteAt (i + k) = b.byteAt (j + k)) : a.word64 i = b.word64 j := by
  have hhigh : a.word32 i = b.word32 j := word32_congr fun k hk => h k (by omega)
  have hlow : a.word32 (i + 4) = b.word32 (j + 4) := by
    apply word32_congr
    intro k hk
    rw [Nat.add_assoc, Nat.add_assoc]
    exact h (4 + k) (by omega)
  rw [word64, word64, hhigh, hlow]

/-- The bytes of the first part of two. -/
theorem byteAt_append_left {a : ByteArray} (b : ByteArray) {i : Nat} (h : i < a.size) :
    (a ++ b).byteAt i = a.byteAt i := by
  have hlt : i < (a ++ b).size := by rw [size_append]; omega
  rw [byteAt_of_lt hlt, byteAt_of_lt h, getElem_append_left h]

/-- The bytes of the second part of two. -/
theorem byteAt_append_right (a : ByteArray) {b : ByteArray} {i : Nat} (h : i < b.size) :
    (a ++ b).byteAt (a.size + i) = b.byteAt i := by
  have hlt : a.size + i < (a ++ b).size := by rw [size_append]; omega
  rw [byteAt_of_lt hlt, byteAt_of_lt h, getElem_append_right (by omega)]
  congr 1
  omega

/-! ### Pieces -/

namespace HasAt

variable {b : ByteArray} {pos : Nat}

/-- Bytes stand at the front of themselves. -/
theorem refl (b : ByteArray) : b.HasAt 0 b where
  le := by rw [Nat.zero_add]
  byteAt_eq i _ := by rw [Nat.zero_add]

/-- No bytes stand anywhere. -/
theorem empty (h : pos ≤ b.size) : b.HasAt pos .empty where
  le := by rwa [size_empty, Nat.add_zero]
  byteAt_eq i hi := absurd hi (Nat.not_lt_zero i)

/-- What is put between two parts stands behind the first. -/
theorem of_append (front piece back : ByteArray) :
    (front ++ piece ++ back).HasAt front.size piece where
  le := by simp only [size_append]; omega
  byteAt_eq i hi := by
    rw [byteAt_append_left back (by rw [size_append]; omega), byteAt_append_right front hi]

/-- What is written over a stretch of a buffer stands there. -/
theorem of_overwrite {piece : ByteArray} (h : pos + piece.size ≤ b.size) :
    (b.overwrite pos piece).HasAt pos piece := by
  have hfront : (b.extract 0 pos).size = pos := by
    rw [size_extract]
    omega
  have hat := of_append (b.extract 0 pos) piece (b.extract (pos + piece.size) b.size)
  rwa [hfront] at hat

/-- A piece of two parts has both, one behind the other. -/
theorem append {p q : ByteArray} (h : b.HasAt pos (p ++ q)) :
    b.HasAt pos p ∧ b.HasAt (pos + p.size) q := by
  have hle := h.le
  rw [size_append] at hle
  refine ⟨⟨by omega, fun i hi => ?_⟩, ⟨by omega, fun i hi => ?_⟩⟩
  · rw [h.byteAt_eq i (by rw [size_append]; omega), byteAt_append_left q hi]
  · rw [Nat.add_assoc, h.byteAt_eq (p.size + i) (by rw [size_append]; omega),
      byteAt_append_right p hi]

/-- Each of several pieces that were joined stands behind the ones before it. -/
theorem join {pieces : List ByteArray} (h : b.HasAt pos (join pieces)) (i : Nat)
    (hi : i < pieces.length) : b.HasAt (pos + ((pieces.take i).map size).sum) pieces[i] := by
  induction pieces generalizing pos i with
  | nil => simp at hi
  | cons piece rest ih =>
    obtain ⟨hfirst, hrest⟩ := h.append
    cases i with
    | zero => simpa using hfirst
    | succ i =>
      have := ih hrest i (by simpa using hi)
      simpa [Nat.add_assoc] using this

/-- Where all pieces have one size, their places are multiples of it. -/
theorem join_of_size {pieces : List ByteArray} {width : Nat}
    (h : b.HasAt pos (ByteArray.join pieces)) (hsize : ∀ piece ∈ pieces, piece.size = width)
    (i : Nat) (hi : i < pieces.length) : b.HasAt (pos + i * width) pieces[i] := by
  rw [← sum_size_take hsize (Nat.le_of_lt hi)]
  exact h.join i hi

/-- The word that stands at the front of a piece. -/
theorem word32 {piece : ByteArray} (h : b.HasAt pos piece) (hsize : 4 ≤ piece.size) :
    b.word32 pos = piece.word32 0 := by
  simp only [ByteArray.word32, Nat.zero_add]
  rw [h.byteAt_eq 1 (by omega), h.byteAt_eq 2 (by omega), h.byteAt_eq 3 (by omega)]
  rw [← h.byteAt_eq 0 (by omega), Nat.add_zero]

/-- The long word that stands at the front of a piece. -/
theorem word64 {piece : ByteArray} (h : b.HasAt pos piece) (hsize : 8 ≤ piece.size) :
    b.word64 pos = piece.word64 0 := by
  simp only [ByteArray.word64, ByteArray.word32, Nat.zero_add, Nat.add_assoc, Nat.reduceAdd]
  rw [h.byteAt_eq 1 (by omega), h.byteAt_eq 2 (by omega), h.byteAt_eq 3 (by omega),
    h.byteAt_eq 4 (by omega), h.byteAt_eq 5 (by omega), h.byteAt_eq 6 (by omega),
    h.byteAt_eq 7 (by omega)]
  rw [← h.byteAt_eq 0 (by omega), Nat.add_zero]

/-- A piece can be cut out again. -/
theorem extract {piece : ByteArray} (h : b.HasAt pos piece) :
    b.extract pos (pos + piece.size) = piece := by
  have hle := h.le
  apply ByteArray.ext_getElem
  · rw [size_extract]; omega
  · intro i h₁ h₂
    have hbyte := h.byteAt_eq i h₂
    rw [byteAt_of_lt (by omega), byteAt_of_lt h₂] at hbyte
    rw [getElem_extract, hbyte]

/-- Two pieces that stand one behind the other make one. -/
theorem concat {p q : ByteArray} (hp : b.HasAt pos p) (hq : b.HasAt (pos + p.size) q) :
    b.HasAt pos (p ++ q) := by
  have hle := hq.le
  refine ⟨by rw [size_append]; omega, fun i hi => ?_⟩
  rw [size_append] at hi
  by_cases hlow : i < p.size
  · rw [hp.byteAt_eq i hlow, byteAt_append_left q hlow]
  · obtain ⟨j, rfl⟩ := Nat.exists_eq_add_of_le (Nat.le_of_not_lt hlow)
    rw [← Nat.add_assoc, hq.byteAt_eq j (by omega), byteAt_append_right p (by omega)]

/-- What can be cut out of a byte string stands in it. -/
theorem of_extract {len : Nat} (h : pos + len ≤ b.size) :
    b.HasAt pos (b.extract pos (pos + len)) := by
  have hsize : (b.extract pos (pos + len)).size = len := by
    rw [size_extract]
    omega
  refine ⟨by omega, fun i hi => ?_⟩
  rw [byteAt_of_lt (by omega), byteAt_of_lt hi, getElem_extract]

end HasAt

/-- Writing over a stretch changes nothing outside it. -/
theorem byteAt_overwrite {b piece : ByteArray} {start i : Nat} (h : start + piece.size ≤ b.size)
    (hi : i < start ∨ start + piece.size ≤ i) :
    (b.overwrite start piece).byteAt i = b.byteAt i := by
  have hfront : (b.extract 0 start).size = start := by
    rw [size_extract]
    omega
  rcases hi with hi | hi
  · have hat : b.HasAt 0 (b.extract 0 (0 + start)) := .of_extract (by omega)
    rw [Nat.zero_add] at hat
    have hbyte := hat.byteAt_eq i (by omega)
    rw [Nat.zero_add] at hbyte
    rw [overwrite, append_assoc, byteAt_append_left _ (by omega), ← hbyte]
  -- Behind the piece the bytes are the old ones, and past the end there are none in either string.
  by_cases hend : i < b.size
  · obtain ⟨j, rfl⟩ := Nat.exists_eq_add_of_le hi
    have hat : b.HasAt (start + piece.size) (b.extract (start + piece.size)
        (start + piece.size + (b.size - (start + piece.size)))) := .of_extract (by omega)
    rw [Nat.add_sub_cancel' h] at hat
    have hback : j < (b.extract (start + piece.size) b.size).size := by
      rw [size_extract]
      omega
    have hsize : (b.extract 0 start ++ piece).size = start + piece.size := by
      rw [size_append, hfront]
    have hright := byteAt_append_right (b.extract 0 start ++ piece) hback
    rw [hsize] at hright
    rw [overwrite, hright, hat.byteAt_eq j hback]
  · rw [byteAt_of_le (by rw [size_overwrite h]; omega), byteAt_of_le (by omega)]

/-- Writing what stands there anyway changes nothing. -/
theorem overwrite_of_hasAt {b piece : ByteArray} {pos : Nat} (h : b.HasAt pos piece) :
    b.overwrite pos piece = b := by
  apply eq_of_byteAt (size_overwrite h.le)
  intro i _
  by_cases hout : i < pos ∨ pos + piece.size ≤ i
  · exact byteAt_overwrite h.le hout
  · obtain ⟨j, rfl⟩ := Nat.exists_eq_add_of_le (show pos ≤ i by omega)
    rw [(HasAt.of_overwrite h.le).byteAt_eq j (by omega), h.byteAt_eq j (by omega)]

end ByteArray

/-! ### Words that were written -/

/-- Writing `width` bytes and reading them back keeps a number modulo `256 ^ width`. -/
theorem ConstDb.BigEndian.decode_encode (width n : Nat) :
    decode (encode width n) = n % 256 ^ width := by
  induction width generalizing n with
  | zero => simp [encode, decode, Nat.mod_one]
  | succ width ih =>
    have hb : (UInt8.ofNat n).toNat = n % 256 := by simp
    rw [encode, decode_append_singleton, ih, hb, Nat.pow_succ, Nat.mul_comm (256 ^ width) 256,
      Nat.mod_mul]
    omega

namespace ByteArray

private theorem bigEndian_toList (width n : Nat) :
    (ConstDb.BigEndian.encode width n).toByteArray.data.toList =
      ConstDb.BigEndian.encode width n := by
  simp

/-- A 32-bit word that was written is read again. -/
@[simp] theorem word32_bigEndian (w : UInt32) : w.bigEndian.word32 0 = w := by
  apply UInt32.toNat_inj.1
  have hall : w.bigEndian.extract 0 (0 + 4) = w.bigEndian := by
    rw [Nat.zero_add, ← UInt32.size_bigEndian w, extract_zero_size]
  rw [toNat_word32_eq_decode (by simp), hall, UInt32.bigEndian, bigEndian_toList,
    ConstDb.BigEndian.decode_encode]
  exact Nat.mod_eq_of_lt w.toNat_lt

/-- A 64-bit word that was written is read again. -/
@[simp] theorem word64_bigEndian (w : UInt64) : w.bigEndian.word64 0 = w := by
  apply UInt64.toNat_inj.1
  have hall : w.bigEndian.extract 0 (0 + 8) = w.bigEndian := by
    rw [Nat.zero_add, ← UInt64.size_bigEndian w, extract_zero_size]
  rw [toNat_word64_eq_decode (by simp), hall, UInt64.bigEndian, bigEndian_toList,
    ConstDb.BigEndian.decode_encode]
  exact Nat.mod_eq_of_lt w.toNat_lt

/-- The number that a stretch stands for is written as that stretch. -/
theorem hasAt_encode_decode {b : ByteArray} {pos width : Nat} (h : pos + width ≤ b.size) :
    b.HasAt pos (ConstDb.BigEndian.encode width
      (ConstDb.BigEndian.decode (b.extract pos (pos + width)).data.toList)).toByteArray := by
  have hlength : (b.extract pos (pos + width)).data.toList.length = width := by
    rw [toList_extract_eq_map h, List.length_map, List.length_range]
  have hcode := ConstDb.BigEndian.encode_decode (b.extract pos (pos + width)).data.toList
  rw [hlength] at hcode
  rw [hcode]
  have hbytes : (b.extract pos (pos + width)).data.toList.toByteArray =
      b.extract pos (pos + width) := by
    apply ext
    rw [List.data_toByteArray, Array.toArray_toList]
  rw [hbytes]
  exact .of_extract h

/-- A 32-bit word that was read stands where it was read. -/
theorem hasAt_word32 {b : ByteArray} {pos : Nat} (h : pos + 4 ≤ b.size) :
    b.HasAt pos (b.word32 pos).bigEndian := by
  rw [UInt32.bigEndian, toNat_word32_eq_decode h]
  exact hasAt_encode_decode h

/-- And so does a 64-bit word. -/
theorem hasAt_word64 {b : ByteArray} {pos : Nat} (h : pos + 8 ≤ b.size) :
    b.HasAt pos (b.word64 pos).bigEndian := by
  rw [UInt64.bigEndian, toNat_word64_eq_decode h]
  exact hasAt_encode_decode h

end ByteArray

/-- Words with the same bytes are the same. -/
theorem UInt32.bigEndian_inj {a b : UInt32} : a.bigEndian = b.bigEndian ↔ a = b := by
  refine ⟨fun h => ?_, fun h => by rw [h]⟩
  rw [← ByteArray.word32_bigEndian a, h, ByteArray.word32_bigEndian]

theorem UInt64.bigEndian_inj {a b : UInt64} : a.bigEndian = b.bigEndian ↔ a = b := by
  refine ⟨fun h => ?_, fun h => by rw [h]⟩
  rw [← ByteArray.word64_bigEndian a, h, ByteArray.word64_bigEndian]
