import ConstDb.Proofs.RecordText.Grammar
import ConstDb.RecordText.Print

/-! # Reading what was written

What is written for records is record text: the line of a record is a line of the grammar, with
lengths of the fewest digits.  So reading it gives back the records, whatever bytes they hold and
whatever follows behind the empty line.

## Key results

- `RecordText.isLength_digits`: a number is written as a length with its value
- `RecordText.isLine_line`: a record is written as one of its lines
- `Source.records_of_rest`: the records of a text that was written are read again
-/

namespace ConstDb

namespace RecordText

/-! ### Numbers -/

/-- The digits of a number, byte by byte. -/
def digits (n : Nat) : List UInt8 := (Nat.toDigits 10 n).map byteOf

private theorem utf8EncodeChar_of_isDigit {c : Char} (h : c.isDigit = true) :
    String.utf8EncodeChar c = [byteOf c] := by
  apply String.utf8EncodeChar_eq_singleton
  simp [Char.isDigit, Char.utf8Size, UInt32.le_iff_toNat_le] at h ⊢
  omega

private theorem flatMap_utf8EncodeChar {cs : List Char} (h : ∀ c ∈ cs, c.isDigit = true) :
    cs.flatMap String.utf8EncodeChar = cs.map byteOf := by
  induction cs with
  | nil => rfl
  | cons c cs ih =>
    obtain ⟨hc, hcs⟩ := List.forall_mem_cons.1 h
    rw [List.flatMap_cons, utf8EncodeChar_of_isDigit hc, ih hcs, List.map_cons,
      List.singleton_append]

theorem toList_toString (n : Nat) : (toString n).toByteArray.data.toList = digits n := by
  have hdigits := @flatMap_utf8EncodeChar (Nat.toDigits 10 n)
    fun c => Nat.isDigit_of_mem_toDigits (by decide) (by decide)
  change (String.ofList _).toByteArray.data.toList = _
  rw [String.toByteArray_ofList, List.utf8Encode, List.data_toByteArray, hdigits, digits]

/-- The byte of a digit has the number of the digit. -/
private theorem toNat_byteOf_of_isDigit {c : Char} (h : c.isDigit = true) :
    IsDigit (byteOf c) ∧ (byteOf c).toNat = c.toNat := by
  have hrange : '0'.toNat ≤ c.toNat ∧ c.toNat ≤ '9'.toNat := by
    simpa [Char.isDigit, UInt32.le_iff_toNat_le] using h
  have hvalue : (byteOf c).toNat = c.toNat := by
    have hlt : c.toNat < 256 := Nat.lt_of_le_of_lt hrange.2 (by decide)
    exact Nat.mod_eq_of_lt hlt
  exact ⟨by rwa [IsDigit, hvalue], hvalue⟩

/-- Digits have the same value as characters and as bytes. -/
private theorem valueFrom_map_byteOf {cs : List Char} (h : ∀ c ∈ cs, c.isDigit = true) (n : Nat) :
    valueFrom n (cs.map byteOf) = Nat.ofDigitChars 10 cs n := by
  induction cs generalizing n with
  | nil => rfl
  | cons c cs ih =>
    obtain ⟨hc, hcs⟩ := List.forall_mem_cons.1 h
    have hstep := ih hcs (n * 10 + (c.toNat - '0'.toNat))
    rw [Nat.ofDigitChars_cons, Nat.mul_comm, ← hstep, ← (toNat_byteOf_of_isDigit hc).2]
    rfl

/-- The digits of a number are a length with its value. -/
theorem isLength_digits {n : Nat} (h : n < 0x100000000) : IsLength n (digits n) := by
  have hdigit : ∀ c ∈ Nat.toDigits 10 n, c.isDigit = true :=
    fun c => Nat.isDigit_of_mem_toDigits (by decide) (by decide)
  refine ⟨?_, ?_, ?_, h⟩
  · rw [digits, ne_eq, List.map_eq_nil_iff]
    exact Nat.toDigits_ne_nil
  · intro d hd
    obtain ⟨c, hc, rfl⟩ := List.mem_map.1 hd
    exact (toNat_byteOf_of_isDigit (hdigit c hc)).1
  · rw [digits, valueFrom_map_byteOf hdigit]
    exact Nat.ofDigitChars_toDigits (by decide) (by decide)

/-! ### Lines -/

/-- The line of a record, byte by byte. -/
theorem toList_line (r : Record) :
    (line r).data.toList =
      byteOf '+' :: (digits r.key.size ++ byteOf ',' :: (digits r.value.size ++ byteOf ':' ::
        (r.key.data.toList ++ byteOf '-' :: byteOf '>' ::
          (r.value.data.toList ++ [byteOf '\n'])))) := by
  simp only [line, String.toUTF8, String.toByteArray_append, ByteArray.data_append,
    Array.toList_append, toList_toString, List.append_assoc]
  rfl

theorem isLine_line {r : Record} (hkey : r.key.size < 0x100000000)
    (hvalue : r.value.size < 0x100000000) : IsLine r (line r).data.toList := by
  rw [toList_line]
  exact .intro (isLength_digits hkey) (isLength_digits hvalue)

theorem isLines_lines {rs : List Record}
    (hsmall : ∀ r ∈ rs, r.key.size < 0x100000000 ∧ r.value.size < 0x100000000) :
    IsLines rs (lines rs).data.toList := by
  induction rs with
  | nil => exact .nil
  | cons r rest ih =>
    obtain ⟨hr, hrest⟩ := List.forall_mem_cons.1 hsmall
    rw [lines_cons, ByteArray.data_append, Array.toList_append]
    exact .cons (isLine_line hr.1 hr.2) (ih hrest)

end RecordText

/-! ### Whole texts -/

/-- All records of a text are read, whatever follows. -/
theorem Source.records_of_rest {s : Source} {rs : List Record} {bs : List UInt8}
    (hsmall : ∀ r ∈ rs, r.key.size < 0x100000000 ∧ r.value.size < 0x100000000)
    (h : s.rest = (RecordText.print rs).data.toList ++ bs) : s.records = ⟨rs, none⟩ := by
  have hend : RecordText.terminator.data.toList = [RecordText.byteOf '\n'] := rfl
  rw [RecordText.print, ByteArray.data_append, Array.toList_append, hend, List.append_assoc,
    List.singleton_append] at h
  exact records_of_terminated (RecordText.isLines_lines hsmall) h

end ConstDb
