import ConstDb.Proofs.Image.Reach
import ConstDb.RecordText.Parse

/-! # The grammar of record text

Which texts are record text is said here without a word about reading.  A line has two lengths in
decimal, with leading zeros or without, and the bytes of a key and of a value that are as long; a
text is lines, and then either nothing or an empty line with anything behind it.

Fields may hold any bytes, even whole lines, and still a text has only one reading: a line is read
as the record that it is the line of (`Source.line_of_rest`), and what was read as a record is its
line (`Source.takes_of_line`).  Both directions together give what reading makes of any text.

## Key results

- `Source.records_eq_iff`: the texts that are read without an error, and their records
- `Source.startsWith_records`, `Source.isPrefix_records`: the records that are read of any text are
  those of the longest sequence of lines at its front
- `Source.isFormat_of_records`: what reading fails with
-/

namespace ConstDb

namespace RecordText

/-- The byte of a character that is one of the first 128. -/
def byteOf (c : Char) : UInt8 := c.val.toUInt8

/-- A decimal digit. -/
def IsDigit (b : UInt8) : Prop := '0'.toNat ≤ b.toNat ∧ b.toNat ≤ '9'.toNat

instance (b : UInt8) : Decidable (IsDigit b) :=
  inferInstanceAs (Decidable ('0'.toNat ≤ b.toNat ∧ b.toNat ≤ '9'.toNat))

/-- The number that digits stand for, behind digits that stand for `n`. -/
def valueFrom (n : Nat) (ds : List UInt8) : Nat :=
  ds.foldl (fun n d => n * 10 + (d.toNat - '0'.toNat)) n

/-- The decimal lengths of a field of `n` bytes: any number of digits, but at least one, and a value
below `2 ^ 32`. -/
structure IsLength (n : Nat) (ds : List UInt8) : Prop where
  ne_nil : ds ≠ []
  isDigit : ∀ d ∈ ds, IsDigit d
  value : valueFrom 0 ds = n
  lt : n < 0x100000000

instance (n : Nat) (ds : List UInt8) : Decidable (IsLength n ds) :=
  decidable_of_iff
    (ds ≠ [] ∧ ds.all (fun d => decide (IsDigit d)) ∧ valueFrom 0 ds = n ∧ n < 0x100000000)
    ⟨fun ⟨hne, hds, hvalue, hn⟩ => ⟨hne, by simpa using hds, hvalue, hn⟩,
      fun ⟨hne, hds, hvalue, hn⟩ => ⟨hne, by simpa using hds, hvalue, hn⟩⟩

/-- The lines of a record.  They differ in the leading zeros of the lengths. -/
inductive IsLine (r : Record) : List UInt8 → Prop
  | intro {keySize valueSize : List UInt8} (hkey : IsLength r.key.size keySize)
      (hvalue : IsLength r.value.size valueSize) :
      IsLine r (byteOf '+' :: (keySize ++ byteOf ',' :: (valueSize ++ byteOf ':' ::
        (r.key.data.toList ++ byteOf '-' :: byteOf '>' ::
          (r.value.data.toList ++ [byteOf '\n'])))))

/-- Texts that are a line for each of some records. -/
inductive IsLines : List Record → List UInt8 → Prop
  | nil : IsLines [] []
  | cons {r : Record} {rs : List Record} {line lines : List UInt8} (head : IsLine r line)
      (tail : IsLines rs lines) : IsLines (r :: rs) (line ++ lines)

/-- Texts that start with a line for each of some records. -/
def StartsWith (rs : List Record) (text : List UInt8) : Prop :=
  ∃ lines more, IsLines rs lines ∧ text = lines ++ more

/-- The texts of some records: their lines, and then the end or an empty line and anything. -/
def Accepts (rs : List Record) (text : List UInt8) : Prop :=
  ∃ lines, IsLines rs lines ∧ (text = lines ∨ ∃ more, text = lines ++ byteOf '\n' :: more)

/-- More digits never make a number smaller. -/
theorem le_valueFrom (ds : List UInt8) (n : Nat) : n ≤ valueFrom n ds := by
  induction ds generalizing n with
  | nil => exact Nat.le_refl n
  | cons d ds ih =>
    have h := ih (n * 10 + (d.toNat - '0'.toNat))
    rw [valueFrom, List.foldl_cons]
    exact Nat.le_trans (by omega) h

/-- A byte with the number of a character is its byte. -/
theorem eq_byteOf {b : UInt8} {c : Char} (h : b.toNat = c.toNat) : b = byteOf c := by
  apply UInt8.toNat_inj.1
  show b.toNat = c.toNat % 256
  have := b.toNat_lt
  omega

end RecordText

namespace Source

open RecordText

variable {s t u : Source} {bs : List UInt8}

/-- Whether a reading from `s` to `t` took the bytes `taken`. -/
structure Takes (s : Source) (taken : List UInt8) (t : Source) : Prop where
  rest_eq : s.rest = taken ++ t.rest
  fault_eq : t.fault = s.fault

theorem Takes.append {as bs : List UInt8} (h₁ : s.Takes as t) (h₂ : t.Takes bs u) :
    s.Takes (as ++ bs) u := by
  refine ⟨?_, h₂.fault_eq.trans h₁.fault_eq⟩
  rw [h₁.rest_eq, h₂.rest_eq, List.append_assoc]

theorem takes_next (h : s.offset < s.bytes.size) : s.Takes [s.bytes[s.offset]] s.next :=
  ⟨rest_eq_cons h, rfl⟩

/-! ### Texts of the grammar are read -/

private theorem getElem_of_rest {b : UInt8} (h : s.rest = b :: bs) :
    ∃ hlt : s.offset < s.bytes.size, s.bytes[s.offset] = b ∧ s.next.rest = bs := by
  have hlt : s.offset < s.bytes.size := by
    have hlength := congrArg List.length h
    rw [length_rest, left, List.length_cons] at hlength
    omega
  rw [rest_eq_cons hlt] at h
  obtain ⟨hb, hrest⟩ := List.cons.inj h
  exact ⟨hlt, hb, hrest⟩

theorem expect_of_rest {want : Char} (h : s.rest = byteOf want :: bs)
    (hwant : (byteOf want).toNat = want.toNat) : ∃ t, s.expect want = .ok t ∧ t.rest = bs := by
  obtain ⟨hbyte, hrest⟩ := byte_of_rest_eq_cons h
  exact ⟨s.next, by simp only [expect, hbyte, hwant, if_true], hrest⟩

/-- Digits are read up to the terminator, as long as the number fits. -/
theorem lengthFrom_of_rest {ds : List UInt8} {terminator : Char} {n : Nat} {seen : Bool}
    (h : s.rest = ds ++ byteOf terminator :: bs) (hds : ∀ d ∈ ds, IsDigit d)
    (hterminator : (byteOf terminator).toNat = terminator.toNat)
    (hdigit : digit? (byteOf terminator) = none)
    (hfits : valueFrom n ds < 0x100000000) (hseen : seen = true ∨ ds ≠ []) :
    ∃ t, lengthFrom terminator s n seen = .ok (valueFrom n ds, t) ∧ t.rest = bs := by
  -- What was read so far never exceeds the number, so no digit makes it too large.
  induction ds generalizing s n seen with
  | nil =>
    obtain ⟨hlt, hb, hrest⟩ := getElem_of_rest h
    have hseen : seen = true := hseen.resolve_right (by simp)
    refine ⟨s.next, ?_, hrest⟩
    rw [lengthFrom, dif_pos hlt]
    simp only [hb, hdigit, hterminator, hseen, and_self, if_true, valueFrom, List.foldl_nil]
  | cons d ds ih =>
    obtain ⟨hd, hds⟩ := List.forall_mem_cons.1 hds
    obtain ⟨hlt, hb, hrest⟩ := getElem_of_rest h
    have hvalue : digit? d = some (d.toNat - '0'.toNat) := if_pos hd
    have hsmall : ¬0x100000000 ≤ n * 10 + (d.toNat - '0'.toNat) :=
      Nat.not_le.2 (Nat.lt_of_le_of_lt (le_valueFrom ds _) hfits)
    obtain ⟨t, hread, ht⟩ := ih hrest hds hfits (.inl rfl)
    refine ⟨t, ?_, ht⟩
    rw [lengthFrom, dif_pos hlt]
    simp only [hb, hvalue, if_neg hsmall, hread]
    rfl

theorem length_of_rest {n : Nat} {ds : List UInt8} {terminator : Char}
    (h : s.rest = ds ++ byteOf terminator :: bs) (hds : IsLength n ds)
    (hterminator : (byteOf terminator).toNat = terminator.toNat)
    (hdigit : digit? (byteOf terminator) = none) :
    ∃ t, s.length terminator = .ok (n, t) ∧ t.rest = bs := by
  obtain ⟨hne, hdigits, rfl, hlt⟩ := hds
  exact lengthFrom_of_rest h hdigits hterminator hdigit hlt (.inr hne)

/-- A field is read, whatever bytes it holds. -/
theorem field_of_rest {field : ByteArray} (h : s.rest = field.data.toList ++ bs) :
    ∃ t, s.field field.size = .ok (field, t) ∧ t.rest = bs := by
  obtain ⟨bytes, t, hfield, hbytes, hrest, -⟩ := field_of_rest_eq_append h
  obtain rfl : bytes = field := ByteArray.ext (Array.toList_inj.1 hbytes)
  exact ⟨t, hfield, hrest⟩

/-- How the byte that starts a line decides about it. -/
theorem line_of_rest_eq_cons {b : UInt8} (h : s.rest = b :: bs) :
    s.line =
      if b.toNat = '\n'.toNat then .ok none
      else if b.toNat ≠ '+'.toNat then .error (.format s.next.offset (.expectedRecord b))
      else s.next.lineTail.map some := by
  rw [line, (byte_of_rest_eq_cons h).1]

/-- A plus sign announces a record. -/
theorem line_of_sign (h : s.rest = byteOf '+' :: bs) : s.line = s.next.lineTail.map some := by
  have hnewline : (byteOf '+').toNat ≠ '\n'.toNat := by decide
  have hsign : ¬(byteOf '+').toNat ≠ '+'.toNat := by decide
  rw [line_of_rest_eq_cons h, if_neg hnewline, if_neg hsign]

/-- A line of a record is read as this record. -/
theorem line_of_rest {r : Record} {line : List UInt8} (h : s.rest = line ++ bs)
    (hline : IsLine r line) : ∃ t, s.line = .ok (some (r, t)) ∧ t.rest = bs := by
  obtain ⟨hkey, hvalue⟩ := hline
  simp only [List.cons_append, List.append_assoc, List.nil_append] at h
  -- Each part is read from what the part in front of it left.
  have h₀ := (byte_of_rest_eq_cons h).2
  obtain ⟨t₁, h₁, hrest₁⟩ := length_of_rest h₀ hkey (by decide) (by decide)
  obtain ⟨t₂, h₂, hrest₂⟩ := length_of_rest hrest₁ hvalue (by decide) (by decide)
  obtain ⟨t₃, h₃, hrest₃⟩ := field_of_rest hrest₂
  obtain ⟨t₄, h₄, hrest₄⟩ := expect_of_rest hrest₃ (by decide)
  obtain ⟨t₅, h₅, hrest₅⟩ := expect_of_rest hrest₄ (by decide)
  obtain ⟨t₆, h₆, hrest₆⟩ := field_of_rest hrest₅
  obtain ⟨t₇, h₇, hrest₇⟩ := expect_of_rest hrest₆ (by decide)
  have htail : s.next.lineTail = .ok (r, t₇) := by
    simp only [lineTail, h₁, h₂, h₃, h₄, h₅, h₆, h₇, bind, Except.bind, pure, Except.pure]
  refine ⟨t₇, ?_, hrest₇⟩
  rw [line_of_sign h, htail]
  rfl

/-- An empty line ends the text. -/
theorem line_of_terminator (h : s.rest = byteOf '\n' :: bs) : s.line = .ok none := by
  have hnewline : (byteOf '\n').toNat = '\n'.toNat := by decide
  rw [line_of_rest_eq_cons h, if_pos hnewline]

/-- So does the end, if it is no fault. -/
theorem line_of_end (h : s.rest = []) (hfault : s.fault = none) : s.line = .ok none := by
  rw [line, byte_of_rest_eq_nil h, hfault]

/-! ### What is read is a text of the grammar -/

theorem takes_of_byte {b : UInt8} (h : s.byte = .ok (some b, t)) : s.Takes [b] t := by
  unfold byte at h
  split at h
  · rename_i hlt
    cases h
    exact takes_next hlt
  · split at h <;> cases h

theorem takes_of_expect {want : Char} (h : s.expect want = .ok t) : s.Takes [byteOf want] t := by
  unfold expect at h
  split at h
  · cases h
  · cases h
  · rename_i hb
    split at h
    · rename_i hwant
      cases h
      exact eq_byteOf hwant ▸ takes_of_byte hb
    · cases h

/-- What was taken for a number behind digits that stand for `n`. -/
theorem takes_of_lengthFrom {terminator : Char} {n m : Nat} {seen : Bool}
    (h : lengthFrom terminator s n seen = .ok (m, t)) (hn : n < 0x100000000) :
    ∃ ds, s.Takes (ds ++ [byteOf terminator]) t ∧ (∀ d ∈ ds, IsDigit d) ∧
      (seen = true ∨ ds ≠ []) ∧ valueFrom n ds = m ∧ m < 0x100000000 := by
  fun_induction lengthFrom terminator s n seen with
  | case1 => cases h
  | case2 s n seen hlt b d hd hsmall ih =>
    obtain ⟨ds, htakes, hds, -, hvalue, hm⟩ := ih h (Nat.lt_of_not_le hsmall)
    unfold digit? at hd
    split at hd
    · rename_i hdigit
      cases hd
      exact ⟨b :: ds, (takes_next hlt).append htakes, List.forall_mem_cons.2 ⟨hdigit, hds⟩,
        .inr (by simp), hvalue, hm⟩
    · cases hd
  | case3 s n seen hlt b hd hend =>
    cases h
    exact ⟨[], eq_byteOf hend.1 ▸ takes_next hlt, by simp, .inl hend.2, rfl, hn⟩
  | case4 => cases h
  | case5 => cases h
  | case6 => cases h

theorem takes_of_length {terminator : Char} {n : Nat} (h : s.length terminator = .ok (n, t)) :
    ∃ ds, s.Takes (ds ++ [byteOf terminator]) t ∧ IsLength n ds := by
  obtain ⟨ds, htakes, hds, hne, hvalue, hn⟩ := takes_of_lengthFrom h (by decide)
  exact ⟨ds, htakes, hne.resolve_left (by simp), hds, hvalue, hn⟩

theorem takes_of_field {n : Nat} {field : ByteArray} (h : s.field n = .ok (field, t)) :
    s.Takes field.data.toList t ∧ field.size = n := by
  have hn : n ≤ s.rest.length := by
    rw [length_rest]
    unfold Source.field at h
    split at h
    · split at h <;> cases h
    · omega
  have hrest : s.rest = s.rest.take n ++ s.rest.drop n := (List.take_append_drop ..).symm
  obtain ⟨bytes, u, hread, hbytes, hleft, -, hfault⟩ := field_of_rest_eq_append hrest
  rw [List.length_take, Nat.min_eq_left hn, h] at hread
  cases hread
  refine ⟨⟨by rw [hbytes, hleft, ← hrest], hfault⟩, ?_⟩
  rw [← ByteArray.size_data, ← Array.length_toList, hbytes, List.length_take, Nat.min_eq_left hn]

/-- What was taken behind the plus sign of a line. -/
theorem takes_of_lineTail {r : Record} (h : s.lineTail = .ok (r, t)) :
    ∃ tail, s.Takes tail t ∧ IsLine r (byteOf '+' :: tail) := by
  unfold lineTail at h
  obtain ⟨⟨keySize, s₁⟩, h₁, h⟩ := bind_eq_ok.1 h
  obtain ⟨⟨valueSize, s₂⟩, h₂, h⟩ := bind_eq_ok.1 h
  obtain ⟨⟨key, s₃⟩, h₃, h⟩ := bind_eq_ok.1 h
  obtain ⟨s₄, h₄, h⟩ := bind_eq_ok.1 h
  obtain ⟨s₅, h₅, h⟩ := bind_eq_ok.1 h
  obtain ⟨⟨value, s₆⟩, h₆, h⟩ := bind_eq_ok.1 h
  obtain ⟨s₇, h₇, h⟩ := bind_eq_ok.1 h
  cases h
  obtain ⟨ks, hks, hkey⟩ := takes_of_length h₁
  obtain ⟨vs, hvs, hvalue⟩ := takes_of_length h₂
  obtain ⟨hkeyBytes, rfl⟩ := takes_of_field h₃
  obtain ⟨hvalueBytes, rfl⟩ := takes_of_field h₆
  have htakes := hks.append <| hvs.append <| hkeyBytes.append <| (takes_of_expect h₄).append <|
    (takes_of_expect h₅).append <| hvalueBytes.append <| takes_of_expect h₇
  simp only [List.append_assoc, List.cons_append, List.nil_append] at htakes
  exact ⟨_, htakes, .intro hkey hvalue⟩

/-- What was read as a record is a line of it. -/
theorem takes_of_line {r : Record} (h : s.line = .ok (some (r, t))) :
    ∃ line, s.Takes line t ∧ IsLine r line := by
  obtain ⟨b, u, hb, hsign, hread⟩ := lineTail_of_line h
  obtain rfl : b = byteOf '+' := eq_byteOf hsign
  obtain ⟨tail, htail, hline⟩ := takes_of_lineTail hread
  exact ⟨_, (takes_of_byte hb).append htail, hline⟩

/-- What was read as the end is the end or an empty line. -/
theorem rest_of_line_eq_none (h : s.line = .ok none) :
    s.rest = [] ∨ ∃ more, s.rest = byteOf '\n' :: more := by
  cases hrest : s.rest with
  | nil => exact .inl rfl
  | cons b more =>
    refine .inr ⟨more, ?_⟩
    rw [line_of_rest_eq_cons hrest] at h
    split at h
    · rename_i hb
      rw [eq_byteOf hb]
    · split at h
      · cases h
      · obtain ⟨p, -, hp⟩ := map_eq_ok.1 h
        cases hp

/-! ### Errors -/

section

variable {e : Error} (hfault : s.fault = none)

include hfault

theorem isFormat_of_expect {want : Char} (h : s.expect want = .error e) : e.IsFormat := by
  unfold expect byte at h
  rw [hfault] at h
  split at h
  · rename_i hb
    split at hb <;> cases hb
  · cases h
    exact ⟨_, _, rfl⟩
  · split at h
    · cases h
    · cases h
      exact ⟨_, _, rfl⟩

theorem isFormat_of_lengthFrom {terminator : Char} {n : Nat} {seen : Bool}
    (h : lengthFrom terminator s n seen = .error e) : e.IsFormat := by
  fun_induction lengthFrom terminator s n seen with
  | case1 =>
    cases h
    exact ⟨_, _, rfl⟩
  | case2 s n seen hlt b d hd hsmall ih => exact ih hfault h
  | case3 => cases h
  | case4 =>
    cases h
    exact ⟨_, _, rfl⟩
  | case5 =>
    cases h
    exact ⟨_, _, rfl⟩
  | case6 s n seen hend f hf => cases hf.symm.trans hfault

theorem isFormat_of_field {n : Nat} (h : s.field n = .error e) : e.IsFormat := by
  unfold field at h
  rw [hfault] at h
  split at h
  · cases h
    exact ⟨_, _, rfl⟩
  · cases h

theorem isFormat_of_lineTail (h : s.lineTail = .error e) : e.IsFormat := by
  unfold lineTail at h
  -- Each part meets the fault that the part in front of it left, which is none.
  obtain h | ⟨⟨_, s₁⟩, h₁, h⟩ := bind_eq_error.1 h
  · exact isFormat_of_lengthFrom hfault h
  obtain ⟨_, htakes₁, -⟩ := takes_of_length h₁
  have hfault := htakes₁.fault_eq.trans hfault
  obtain h | ⟨⟨_, s₂⟩, h₂, h⟩ := bind_eq_error.1 h
  · exact isFormat_of_lengthFrom hfault h
  obtain ⟨_, htakes₂, -⟩ := takes_of_length h₂
  have hfault := htakes₂.fault_eq.trans hfault
  obtain h | ⟨⟨_, s₃⟩, h₃, h⟩ := bind_eq_error.1 h
  · exact isFormat_of_field hfault h
  have hfault := (takes_of_field h₃).1.fault_eq.trans hfault
  obtain h | ⟨s₄, h₄, h⟩ := bind_eq_error.1 h
  · exact isFormat_of_expect hfault h
  have hfault := (takes_of_expect h₄).fault_eq.trans hfault
  obtain h | ⟨s₅, h₅, h⟩ := bind_eq_error.1 h
  · exact isFormat_of_expect hfault h
  have hfault := (takes_of_expect h₅).fault_eq.trans hfault
  obtain h | ⟨⟨_, s₆⟩, h₆, h⟩ := bind_eq_error.1 h
  · exact isFormat_of_field hfault h
  have hfault := (takes_of_field h₆).1.fault_eq.trans hfault
  obtain h | ⟨s₇, h₇, h⟩ := bind_eq_error.1 h
  · exact isFormat_of_expect hfault h
  cases h

theorem isFormat_of_line (h : s.line = .error e) : e.IsFormat := by
  unfold line at h
  split at h
  · rename_i hb
    unfold byte at hb
    rw [hfault] at hb
    split at hb <;> cases hb
  · cases h
  · rename_i b u hb
    split at h
    · cases h
    · split at h
      · cases h
        exact ⟨_, _, rfl⟩
      · exact isFormat_of_lineTail ((takes_of_byte hb).fault_eq.trans hfault) (map_eq_error.1 h)

end

/-! ### All records -/

/-- The lines that were read, and what stands behind them: the end of the text, or what the reading
failed at. -/
theorem takes_records (s : Source) :
    ∃ lines t, IsLines s.records.items lines ∧ s.Takes lines t ∧
      t.line = match s.records.failure with
        | none => .ok none
        | some e => .error e := by
  -- The induction is on what is left; a line leaves less.
  induction hn : s.left using Nat.strongRecOn generalizing s with
  | ind n ih =>
    subst hn
    rw [records_eq]
    split
    · rename_i e hl
      exact ⟨[], s, .nil, ⟨rfl, rfl⟩, hl⟩
    · rename_i hl
      exact ⟨[], s, .nil, ⟨rfl, rfl⟩, hl⟩
    · rename_i r u hl
      obtain ⟨line, hline, hrecord⟩ := takes_of_line hl
      obtain ⟨lines, t, hlines, htakes, hend⟩ := ih u.left (left_lt_of_line hl) u rfl
      exact ⟨line ++ lines, t, .cons hrecord hlines, hline.append htakes, hend⟩

/-- A text starts with a line for each record that was read of it. -/
theorem startsWith_records (s : Source) : StartsWith s.records.items s.rest := by
  obtain ⟨lines, t, hlines, htakes, -⟩ := takes_records s
  exact ⟨lines, t.rest, hlines, htakes.rest_eq⟩

/-- Lines at the front of a text are read first. -/
theorem records_of_lines {rs : List Record} {lines : List UInt8} (hlines : IsLines rs lines)
    (h : s.rest = lines ++ bs) :
    ∃ t : Source, t.rest = bs ∧ t.fault = s.fault ∧
      s.records = ⟨rs ++ t.records.items, t.records.failure⟩ := by
  induction hlines generalizing s with
  | nil => exact ⟨s, h, rfl, rfl⟩
  | @cons r rs line lines hline hlines ih =>
    rw [List.append_assoc] at h
    obtain ⟨u, hl, hu⟩ := line_of_rest h hline
    obtain ⟨taken, htakes, -⟩ := takes_of_line hl
    obtain ⟨t, ht, hfault, hrecords⟩ := ih hu
    refine ⟨t, ht, hfault.trans htakes.fault_eq, ?_⟩
    rw [records_eq, hl]
    simp only [hrecords, Walk.cons, List.cons_append]

/-- No text starts with a line for each of some records without these being read first. -/
theorem isPrefix_records {rs : List Record} (h : StartsWith rs s.rest) :
    rs <+: s.records.items := by
  obtain ⟨lines, more, hlines, hrest⟩ := h
  obtain ⟨t, -, -, hrecords⟩ := records_of_lines hlines hrest
  rw [hrecords]
  exact List.prefix_append ..

/-- Behind an empty line nobody looks at the text, nor meets its fault. -/
theorem records_of_terminated {rs : List Record} {lines : List UInt8} (hlines : IsLines rs lines)
    (h : s.rest = lines ++ byteOf '\n' :: bs) : s.records = ⟨rs, none⟩ := by
  obtain ⟨t, ht, -, hrecords⟩ := records_of_lines hlines h
  rw [records_eq t, line_of_terminator ht] at hrecords
  simpa [Walk.empty] using hrecords

theorem isFormat_of_records (hfault : s.fault = none) {e : Error}
    (h : s.records.failure = some e) : e.IsFormat := by
  obtain ⟨lines, t, -, htakes, hend⟩ := takes_records s
  rw [h] at hend
  exact isFormat_of_line (htakes.fault_eq.trans hfault) hend

/-- A text that was read without an error is one of the records that were read of it. -/
theorem accepts_records (h : s.records.failure = none) : Accepts s.records.items s.rest := by
  obtain ⟨lines, t, hlines, htakes, hend⟩ := takes_records s
  rw [h] at hend
  refine ⟨lines, hlines, ?_⟩
  rw [htakes.rest_eq]
  obtain hnil | ⟨more, hmore⟩ := rest_of_line_eq_none hend
  · exact .inl (by rw [hnil, List.append_nil])
  · exact .inr ⟨more, by rw [hmore]⟩

/-- A text of some records is read as these. -/
theorem records_of_accepts (hfault : s.fault = none) {rs : List Record}
    (h : Accepts rs s.rest) : s.records = ⟨rs, none⟩ := by
  obtain ⟨lines, hlines, hend | ⟨more, hend⟩⟩ := h
  · obtain ⟨t, ht, htfault, hrecords⟩ :=
      records_of_lines hlines (hend.trans (List.append_nil lines).symm)
    rw [records_eq t, line_of_end ht (htfault.trans hfault)] at hrecords
    simpa [Walk.empty] using hrecords
  · exact records_of_terminated hlines hend

/-- The texts that are read without an error are those of the grammar. -/
theorem records_eq_iff (hfault : s.fault = none) {rs : List Record} :
    s.records = ⟨rs, none⟩ ↔ Accepts rs s.rest := by
  refine ⟨fun h => ?_, records_of_accepts hfault⟩
  have haccepts := accepts_records (s := s) (by rw [h])
  rwa [h] at haccepts

end Source

/-- A text is one of at most one list of records. -/
theorem RecordText.Accepts.eq {rs rs' : List Record} {text : List UInt8}
    (h : RecordText.Accepts rs text) (h' : RecordText.Accepts rs' text) : rs = rs' := by
  let s : Source := ⟨⟨text.toArray⟩, 0, none⟩
  have hs : s.rest = text := rfl
  have hread := Source.records_of_accepts (s := s) rfl (hs ▸ h)
  have hread' := Source.records_of_accepts (s := s) rfl (hs ▸ h')
  exact congrArg Walk.items (hread.symm.trans hread')

end ConstDb
