import ConstDb.BigEndian
import ConstDb.Except
import Mathlib.Algebra.Ring.Nat

/-! # Machine words that trap

The library computes with words of 32 and 64 bits and cuts slices out of byte strings.  A sum that
does not fit, a difference below zero, a division by zero and a slice that is not inside stop the
program: they are traps.  A trap is no error, and no operation of a reader may ever end in one.

Each operation has a lemma that says when it does not trap and what it gives then. -/

namespace ConstDb.Machine

/-- What stops a program that computes with words and slices. -/
inductive Trap where
  /-- A sum, a product or a shift that does not fit. -/
  | overflow
  /-- A difference below zero. -/
  | underflow
  | divisionByZero
  /-- A slice or an index out of range. -/
  | outOfRange
deriving DecidableEq, Repr

/-! ### Arithmetic -/

/-- The sum of two words of 64 bits. -/
def add64 (a b : UInt64) : Except Trap UInt64 :=
  if a.toNat + b.toNat < 2 ^ 64 then .ok (a + b) else .error .overflow

/-- The sum of two words of 64 bits, if it fits. -/
def checkedAdd64 (a b : UInt64) : Option UInt64 :=
  if a.toNat + b.toNat < 2 ^ 64 then some (a + b) else none

/-- The difference of two words of 64 bits. -/
def sub64 (a b : UInt64) : Except Trap UInt64 :=
  if b.toNat ≤ a.toNat then .ok (a - b) else .error .underflow

/-- The product of two words of 64 bits. -/
def mul64 (a b : UInt64) : Except Trap UInt64 :=
  if a.toNat * b.toNat < 2 ^ 64 then .ok (a * b) else .error .overflow

/-- The remainder of a division of two words of 64 bits. -/
def rem64 (a b : UInt64) : Except Trap UInt64 :=
  if b = 0 then .error .divisionByZero else .ok (a % b)

/-- A word of 64 bits with its bits moved up.  Bits that leave the word are lost without a trap. -/
def shl64 (a bits : UInt64) : Except Trap UInt64 :=
  if bits.toNat < 64 then .ok (a <<< bits) else .error .overflow

/-- The sum of two words of 32 bits. -/
def add32 (a b : UInt32) : Except Trap UInt32 :=
  if a.toNat + b.toNat < 2 ^ 32 then .ok (a + b) else .error .overflow

/-- The product of two words of 32 bits. -/
def mul32 (a b : UInt32) : Except Trap UInt32 :=
  if a.toNat * b.toNat < 2 ^ 32 then .ok (a * b) else .error .overflow

/-- The remainder of a division of two words of 32 bits. -/
def rem32 (a b : UInt32) : Except Trap UInt32 :=
  if b = 0 then .error .divisionByZero else .ok (a % b)

/-- A number of 32 bits stays what it is in a word of 64 bits. -/
theorem toNat_widened {n : Nat} (h : n < 2 ^ 32) : (UInt32.ofNat n).toUInt64.toNat = n := by
  rw [UInt32.toNat_toUInt64, UInt32.toNat_ofNat_of_lt' h]

section

variable {a b : UInt64} {m n : Nat}

theorem add64_eq_ok (ha : a.toNat = m) (hb : b.toNat = n) (h : m + n < 2 ^ 64) :
    add64 a b = .ok (.ofNat (m + n)) := by
  subst ha hb
  have hsum : a + b = .ofNat (a.toNat + b.toNat) := by
    apply UInt64.toNat_inj.1
    rw [UInt64.toNat_add, UInt64.toNat_ofNat']
  rw [add64, if_pos h, hsum]

/-- A sum that was given fits. -/
theorem of_add64_eq_ok {a b c : UInt64} (h : add64 a b = .ok c) :
    c.toNat = a.toNat + b.toNat := by
  unfold add64 at h
  split at h
  · rename_i hfits
    cases h
    rw [UInt64.toNat_add, Nat.mod_eq_of_lt hfits]
  · cases h

/-- Counting one up. -/
theorem add64_one (h : n + 1 < 2 ^ 64) : add64 (.ofNat n) 1 = .ok (.ofNat (n + 1)) :=
  add64_eq_ok (UInt64.toNat_ofNat_of_lt' (show n < 2 ^ 64 by omega)) rfl h

theorem checkedAdd64_eq (a b : UInt64) :
    checkedAdd64 a b =
      if a.toNat + b.toNat < 2 ^ 64 then some (.ofNat (a.toNat + b.toNat)) else none := by
  have hsum : a + b = .ofNat (a.toNat + b.toNat) := by
    apply UInt64.toNat_inj.1
    rw [UInt64.toNat_add, UInt64.toNat_ofNat']
  rw [checkedAdd64, hsum]

/-- A sum that has to stay within a bound may as well be a checked one: a sum that does not fit is
beyond every bound that does. -/
theorem filter_checkedAdd64 (a b : UInt64) {bound : Nat} (h : bound < 2 ^ 64) :
    ((checkedAdd64 a b).filter fun last => decide (last.toNat ≤ bound)) =
      if a.toNat + b.toNat ≤ bound then some (.ofNat (a.toNat + b.toNat)) else none := by
  rw [checkedAdd64_eq]
  by_cases hsum : a.toNat + b.toNat < 2 ^ 64
  · rw [if_pos hsum, Option.filter_some, UInt64.toNat_ofNat_of_lt' hsum]
    simp
  · rw [if_neg hsum, if_neg (by omega)]
    rfl

theorem sub64_eq_ok (ha : a.toNat = m) (hb : b.toNat = n) (h : n ≤ m) :
    sub64 a b = .ok (.ofNat (m - n)) := by
  subst ha hb
  have hdiff : a - b = .ofNat (a.toNat - b.toNat) := by
    have hlt := a.toNat_lt
    apply UInt64.toNat_inj.1
    rw [UInt64.toNat_sub_of_le _ _ (UInt64.le_iff_toNat_le.2 h),
      UInt64.toNat_ofNat_of_lt' (show a.toNat - b.toNat < 2 ^ 64 by omega)]
  rw [sub64, if_pos h, hdiff]

theorem mul64_eq_ok (ha : a.toNat = m) (hb : b.toNat = n) (h : m * n < 2 ^ 64) :
    mul64 a b = .ok (.ofNat (m * n)) := by
  subst ha hb
  have hproduct : a * b = .ofNat (a.toNat * b.toNat) := by
    apply UInt64.toNat_inj.1
    rw [UInt64.toNat_mul, UInt64.toNat_ofNat']
  rw [mul64, if_pos h, hproduct]

theorem rem64_eq_ok (ha : a.toNat = m) (hb : b.toNat = n) (h : n ≠ 0) :
    rem64 a b = .ok (.ofNat (m % n)) := by
  subst ha hb
  have hne : b ≠ 0 := by
    rintro rfl
    exact h rfl
  have hrem : a % b = .ofNat (a.toNat % b.toNat) := by
    have hlt := a.toNat_lt
    have hle := Nat.mod_le a.toNat b.toNat
    apply UInt64.toNat_inj.1
    rw [UInt64.toNat_mod,
      UInt64.toNat_ofNat_of_lt' (show a.toNat % b.toNat < 2 ^ 64 by omega)]
  rw [rem64, if_neg hne, hrem]

/-- A shift is a multiplication, as far as the word goes. -/
theorem shl64_eq_ok (ha : a.toNat = m) (hb : b.toNat = n) (h : n < 64) :
    shl64 a b = .ok (.ofNat (m * 2 ^ n)) := by
  subst ha hb
  have hshift : a <<< b = .ofNat (a.toNat * 2 ^ b.toNat) := by
    apply UInt64.toNat_inj.1
    rw [UInt64.toNat_shiftLeft, Nat.mod_eq_of_lt h, Nat.shiftLeft_eq, UInt64.toNat_ofNat']
  rw [shl64, if_pos h, hshift]

end

theorem add32_eq_ok {a b : UInt32} {m n : Nat} (ha : a.toNat = m) (hb : b.toNat = n)
    (h : m + n < 2 ^ 32) : add32 a b = .ok (.ofNat (m + n)) := by
  subst ha hb
  have hsum : a + b = .ofNat (a.toNat + b.toNat) := by
    apply UInt32.toNat_inj.1
    rw [UInt32.toNat_add, UInt32.toNat_ofNat']
  rw [add32, if_pos h, hsum]

theorem mul32_eq_ok {a b : UInt32} {m n : Nat} (ha : a.toNat = m) (hb : b.toNat = n)
    (h : m * n < 2 ^ 32) : mul32 a b = .ok (.ofNat (m * n)) := by
  subst ha hb
  have hproduct : a * b = .ofNat (a.toNat * b.toNat) := by
    apply UInt32.toNat_inj.1
    rw [UInt32.toNat_mul, UInt32.toNat_ofNat']
  rw [mul32, if_pos h, hproduct]

theorem rem32_eq_ok {a b : UInt32} (h : b ≠ 0) :
    rem32 a b = .ok (.ofNat (a.toNat % b.toNat)) := by
  have hrem : a % b = .ofNat (a.toNat % b.toNat) := by
    have hlt := a.toNat_lt
    have hle := Nat.mod_le a.toNat b.toNat
    apply UInt32.toNat_inj.1
    rw [UInt32.toNat_mod,
      UInt32.toNat_ofNat_of_lt' (show a.toNat % b.toNat < 2 ^ 32 by omega)]
  rw [rem32, if_neg h, hrem]

/-! ### Slices -/

/-- The slice between two offsets, if it is inside. -/
def slice? (data : ByteArray) (start stop : UInt64) : Option ByteArray :=
  if start.toNat ≤ stop.toNat ∧ stop.toNat ≤ data.size then
    some (data.extract start.toNat stop.toNat)
  else none

/-- The slice between two offsets. -/
def slice (data : ByteArray) (start stop : UInt64) : Except Trap ByteArray :=
  match slice? data start stop with
  | none => .error .outOfRange
  | some piece => .ok piece

/-- The word of 32 bits at a place of a slice. -/
def read32 (piece : ByteArray) (start : Nat) : Except Trap UInt32 :=
  if start + 4 ≤ piece.size then .ok (piece.word32 start) else .error .outOfRange

/-- The word of 64 bits at a place of a slice. -/
def read64 (piece : ByteArray) (start : Nat) : Except Trap UInt64 :=
  if start + 8 ≤ piece.size then .ok (piece.word64 start) else .error .outOfRange

/-- The item of an array at an index. -/
def item (items : Array α) (index : UInt64) : Except Trap α :=
  match items[index.toNat]? with
  | none => .error .outOfRange
  | some a => .ok a

theorem slice_eq_ok {data : ByteArray} {start stop : UInt64} {m n : Nat} (hm : start.toNat = m)
    (hn : stop.toNat = n) (h₁ : m ≤ n) (h₂ : n ≤ data.size) :
    slice data start stop = .ok (data.extract m n) := by
  subst hm hn
  rw [slice, slice?, if_pos ⟨h₁, h₂⟩]

theorem byteAt_extract {data : ByteArray} {start len i : Nat} (h : start + len ≤ data.size)
    (hi : i < len) : (data.extract start (start + len)).byteAt i = data.byteAt (start + i) := by
  have hpiece : i < (data.extract start (start + len)).size := by
    rw [ByteArray.size_extract]
    omega
  have hdata : start + i < data.size := by omega
  simp only [ByteArray.byteAt, hpiece, hdata, dif_pos, ByteArray.getElem_extract]

/-- A word in a slice is the word of the whole at the place behind the start of the slice. -/
theorem read32_extract {data : ByteArray} {start len i : Nat} (h : start + len ≤ data.size)
    (hi : i + 4 ≤ len) :
    read32 (data.extract start (start + len)) i = .ok (data.word32 (start + i)) := by
  have hsize : i + 4 ≤ (data.extract start (start + len)).size := by
    rw [ByteArray.size_extract]
    omega
  rw [read32, if_pos hsize]
  simp only [ByteArray.word32, Nat.add_assoc]
  rw [byteAt_extract h (by omega), byteAt_extract h (by omega), byteAt_extract h (by omega),
    byteAt_extract h (by omega)]

theorem read64_extract {data : ByteArray} {start len i : Nat} (h : start + len ≤ data.size)
    (hi : i + 8 ≤ len) :
    read64 (data.extract start (start + len)) i = .ok (data.word64 (start + i)) := by
  have hsize : i + 8 ≤ (data.extract start (start + len)).size := by
    rw [ByteArray.size_extract]
    omega
  have hlow := read32_extract h (show i + 4 ≤ len by omega)
  have hhigh := read32_extract h (show i + 4 + 4 ≤ len by omega)
  rw [read32, if_pos (by omega), Except.ok.injEq] at hlow hhigh
  rw [read64, if_pos hsize, ByteArray.word64, hlow, hhigh, ByteArray.word64]
  simp only [Nat.add_assoc]

theorem item_eq_ok {items : Array α} {index : UInt64} (h : index.toNat < items.size) :
    item items index = .ok items[index.toNat] := by
  rw [item, Array.getElem?_eq_getElem h]

end ConstDb.Machine
