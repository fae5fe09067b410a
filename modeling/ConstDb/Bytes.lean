/-! # Byte strings

Keys, values, files and texts are all `ByteArray`s.  This module adds the operations that the
library needs on them beyond core: a block of one repeated byte (`replicate`), writing a piece over
a stretch of a buffer (`overwrite`), cutting or zero-filling to a length (`resized`) and the order
of byte strings (`compareBytes`).

The proof-facing view of a byte string is the list `b.data.toList`. -/

namespace ByteArray

/-- A byte string of `n` bytes, all equal to `x`. -/
def replicate (n : Nat) (x : UInt8) : ByteArray := ⟨Array.replicate n x⟩

@[simp] theorem size_replicate (n : Nat) (x : UInt8) : (replicate n x).size = n := by
  rw [← size_data]
  simp [replicate]

/-- Writes `piece` over the bytes of `b` from offset `start` on. -/
def overwrite (b : ByteArray) (start : Nat) (piece : ByteArray) : ByteArray :=
  b.extract 0 start ++ piece ++ b.extract (start + piece.size) b.size

/-- Overwriting inside a buffer keeps its size. -/
theorem size_overwrite {b piece : ByteArray} {start : Nat} (h : start + piece.size ≤ b.size) :
    (b.overwrite start piece).size = b.size := by
  simp only [overwrite, size_append, size_extract]
  omega

/-- Cuts `b` to `n` bytes, or fills it up to `n` bytes with zeros. -/
def resized (b : ByteArray) (n : Nat) : ByteArray :=
  b.extract 0 n ++ replicate (n - b.size) 0

@[simp] theorem size_resized (b : ByteArray) (n : Nat) : (b.resized n).size = n := by
  simp only [resized, size_append, size_extract, size_replicate]
  omega

/-- Byte strings are compared as core does it. -/
instance (priority := high) decidableEq : DecidableEq ByteArray := instDecidableEq

/-- Byte strings are equal if their bytes are. -/
instance lawfulBEq : LawfulBEq ByteArray where
  eq_of_beq h := ByteArray.ext (eq_of_beq h)
  rfl {a} := beq_self_eq_true a.data

/-- Compares two byte strings from offset `i` on. -/
def compareFrom (a b : ByteArray) (i : Nat) : Ordering :=
  if ha : i < a.size then
    if hb : i < b.size then
      match compare a[i] b[i] with
      | .eq => compareFrom a b (i + 1)
      | order => order
    else .gt
  else if i < b.size then .lt
  else .eq
termination_by a.size - i

/-- Byte strings are ordered like words in a dictionary, byte by byte. -/
def compareBytes (a b : ByteArray) : Ordering := compareFrom a b 0

/-- From an offset on, byte strings compare like the lists of the bytes behind it. -/
theorem compareFrom_eq (a b : ByteArray) (i : Nat) :
    compareFrom a b i =
      List.compareLex compare (a.data.toList.drop i) (b.data.toList.drop i) := by
  have drop_lt {x : ByteArray} {i : Nat} (h : i < x.size) :
      x.data.toList.drop i = x[i] :: x.data.toList.drop (i + 1) := by
    have h' : i < x.data.toList.length := by simpa using h
    rw [List.drop_eq_getElem_cons h']
    rfl
  have drop_le {x : ByteArray} {i : Nat} (h : ¬ i < x.size) : x.data.toList.drop i = [] :=
    List.drop_eq_nil_of_le (by simpa using h)
  fun_induction compareFrom a b i with
  | case1 i ha hb heq ih => simp [drop_lt ha, drop_lt hb, List.compareLex_cons_cons, heq, ih]
  | case2 i ha hb hne =>
    rw [drop_lt ha, drop_lt hb, List.compareLex_cons_cons]
    cases hc : compare a[i] b[i] <;> simp_all
  | case3 i ha hb => simp [drop_lt ha, drop_le hb, List.compareLex]
  | case4 i ha hb => simp [drop_le ha, drop_lt hb, List.compareLex]
  | case5 i ha hb => simp [drop_le ha, drop_le hb, List.compareLex]

/-- The order of byte strings is that of their bytes as lists. -/
theorem compareBytes_eq (a b : ByteArray) : compareBytes a b = compare a.data b.data := by
  rw [compareBytes, compareFrom_eq]
  exact Array.compareLex_eq_compareLex_toList.symm

instance : Std.TransCmp compareBytes where
  eq_swap {a b} := by simp only [compareBytes_eq]; exact Std.OrientedCmp.eq_swap
  isLE_trans {a b c} := by simp only [compareBytes_eq]; exact Std.TransCmp.isLE_trans

instance : Std.LawfulEqCmp compareBytes where
  eq_of_compare {a b} h := by
    rw [compareBytes_eq] at h
    exact ByteArray.ext (Std.LawfulEqCmp.eq_of_compare h)

end ByteArray
