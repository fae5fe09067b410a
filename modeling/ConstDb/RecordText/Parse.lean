import ConstDb.Except
import ConstDb.Record
import ConstDb.RecordText.Input
import ConstDb.Walk

/-! # Reading record text

Record text has one line for each record,

    +3,5:key->value

with the lengths of key and value in decimal, and an empty line at the end.  Key and value are raw
bytes and may hold anything, the separators too: their lengths tell where they end.  The text may
also just stop behind a line.

`parse` gives the records of all complete lines at the front of a text, and the error that ended the
reading, if one did.  A malformed byte is reported with the offset behind it, a text that ends too
early with the offset of its end. -/

namespace ConstDb

namespace Source

/-- How many bytes are left. -/
def left (s : Source) : Nat := s.bytes.size - s.offset

/-- The text behind the next byte. -/
def next (s : Source) : Source := { s with offset := s.offset + 1 }

/-- Taking a byte leaves one byte less. -/
theorem left_next_lt {s : Source} (h : s.offset < s.bytes.size) : s.next.left < s.left := by
  simp only [left, next]
  omega

/-- Takes the next byte; nothing at the end of the text. -/
def byte (s : Source) : Except Error (Option UInt8 × Source) :=
  if h : s.offset < s.bytes.size then .ok (some s.bytes[s.offset], s.next)
  else
    match s.fault with
    | none => .ok (none, s)
    | some f => .error (.stream f)

/-- Takes the next byte, which has to be `want`. -/
def expect (want : Char) (s : Source) : Except Error Source :=
  match s.byte with
  | .error e => .error e
  | .ok (none, s) => .error (.format s.offset (.endExpectingByte want))
  | .ok (some b, s) =>
    if b.toNat = want.toNat then .ok s else .error (.format s.offset (.expectedByte want b))

/-- The value of a decimal digit. -/
def digit? (b : UInt8) : Option Nat :=
  if '0'.toNat ≤ b.toNat ∧ b.toNat ≤ '9'.toNat then some (b.toNat - '0'.toNat) else none

/-- Takes the digits of a length and the terminator behind them.  The digits before stand for `n`;
`seen` tells whether there were any. -/
def lengthFrom (terminator : Char) (s : Source) (n : Nat) (seen : Bool) :
    Except Error (Nat × Source) :=
  if h : s.offset < s.bytes.size then
    let b := s.bytes[s.offset]
    match digit? b with
    | some d =>
      -- Leading zeros may go on for ever; only the value has to fit.
      if 0x100000000 ≤ n * 10 + d then .error (.format s.next.offset .lengthOverflow)
      else lengthFrom terminator s.next (n * 10 + d) true
    | none =>
      if b.toNat = terminator.toNat ∧ seen = true then .ok (n, s.next)
      else .error (.format s.next.offset (.expectedDigit terminator b))
  else
    match s.fault with
    | none => .error (.format s.offset .endInLength)
    | some f => .error (.stream f)
termination_by s.left
decreasing_by exact left_next_lt h

/-- Takes a length in decimal, below `2 ^ 32`, and the terminator behind it. -/
def length (terminator : Char) (s : Source) : Except Error (Nat × Source) :=
  lengthFrom terminator s 0 false

/-- Takes exactly `n` bytes. -/
def field (n : Nat) (s : Source) : Except Error (ByteArray × Source) :=
  if s.left < n then
    -- A field that is complete never meets the fault behind it.
    match s.fault with
    | none => .error (.format (s.offset + s.left) (.endInField n s.left))
    | some f => .error (.stream f)
  else .ok (s.bytes.extract s.offset (s.offset + n), { s with offset := s.offset + n })

/-- Takes a record behind the plus sign that starts its line. -/
def lineTail (s : Source) : Except Error (Record × Source) := do
  let (keySize, s) ← s.length ','
  let (valueSize, s) ← s.length ':'
  let (key, s) ← s.field keySize
  let s ← s.expect '-'
  let s ← s.expect '>'
  let (value, s) ← s.field valueSize
  let s ← s.expect '\n'
  return (⟨key, value⟩, s)

/-- Takes the next line; nothing at the end of the text and at an empty line. -/
def line (s : Source) : Except Error (Option (Record × Source)) :=
  match s.byte with
  | .error e => .error e
  | .ok (none, _) => .ok none
  | .ok (some b, s) =>
    if b.toNat = '\n'.toNat then .ok none
    else if b.toNat ≠ '+'.toNat then .error (.format s.offset (.expectedRecord b))
    else s.lineTail.map some

/-! ### What is taken from the list of bytes that are left -/

@[simp] theorem length_rest (s : Source) : s.rest.length = s.left := by
  simp [rest, left]

/-- The next byte is the first of those that are left. -/
theorem rest_eq_cons {s : Source} (h : s.offset < s.bytes.size) :
    s.rest = s.bytes[s.offset] :: s.next.rest := by
  have h' : s.offset < s.bytes.data.toList.length := by simpa using h
  rw [rest, List.drop_eq_getElem_cons h']
  rfl

/-- As long as there are bytes left, `byte` takes the first of them. -/
theorem byte_of_rest_eq_cons {s : Source} {b : UInt8} {bs : List UInt8} (h : s.rest = b :: bs) :
    s.byte = .ok (some b, s.next) ∧ s.next.rest = bs := by
  have hlt : s.offset < s.bytes.size := by
    have := congrArg List.length h
    rw [length_rest, left, List.length_cons] at this
    omega
  rw [rest_eq_cons hlt] at h
  obtain ⟨rfl, rfl⟩ := List.cons.inj h
  exact ⟨by rw [byte, dif_pos hlt], rfl⟩

/-- At the end of the text there is the fault, or nothing. -/
theorem byte_of_rest_eq_nil {s : Source} (h : s.rest = []) :
    s.byte = match s.fault with
      | none => .ok (none, s)
      | some f => .error (.stream f) := by
  have hle : ¬ s.offset < s.bytes.size := by
    have := congrArg List.length h
    rw [length_rest, left, List.length_nil] at this
    omega
  rw [byte, dif_neg hle]

/-- A field is the front of what is left. -/
theorem field_of_rest_eq_append {s : Source} {taken bs : List UInt8} (h : s.rest = taken ++ bs) :
    ∃ bytes t, s.field taken.length = .ok (bytes, t) ∧ bytes.data.toList = taken ∧ t.rest = bs ∧
      t.offset = s.offset + taken.length ∧ t.fault = s.fault := by
  have hlen : ¬ s.left < taken.length := by
    have := congrArg List.length h
    rw [length_rest, List.length_append] at this
    omega
  refine ⟨s.bytes.extract s.offset (s.offset + taken.length),
    { s with offset := s.offset + taken.length }, ?_, ?_, ?_, rfl, rfl⟩
  · rw [field, if_neg hlen]
  · rw [ByteArray.data_extract, Array.toList_extract, List.extract_eq_take_drop, ← rest, h,
      Nat.add_sub_cancel_left, List.take_left]
  · rw [rest] at h
    rw [rest, ← List.drop_drop, h, List.drop_left]

/-! ### Reading makes a text shorter -/

theorem left_lt_of_byte {s t : Source} {b : UInt8} (h : s.byte = .ok (some b, t)) :
    t.left < s.left := by
  unfold byte at h
  split at h
  · rename_i hlt
    simp only [Except.ok.injEq, Prod.mk.injEq] at h
    exact h.2 ▸ left_next_lt hlt
  · split at h <;> simp at h

theorem left_lt_of_expect {want : Char} {s t : Source} (h : s.expect want = .ok t) :
    t.left < s.left := by
  unfold expect at h
  split at h
  · cases h
  · cases h
  · rename_i hb
    split at h
    · simp only [Except.ok.injEq] at h
      exact h ▸ left_lt_of_byte hb
    · cases h

theorem left_lt_of_lengthFrom {terminator : Char} {s t : Source} {n m : Nat} {seen : Bool}
    (h : lengthFrom terminator s n seen = .ok (m, t)) : t.left < s.left := by
  fun_induction lengthFrom terminator s n seen with
  | case1 => cases h
  | case2 s n seen hlt b d hd hn ih => exact Nat.lt_trans (ih h) (left_next_lt hlt)
  | case3 s n seen hlt =>
    simp only [Except.ok.injEq, Prod.mk.injEq] at h
    exact h.2 ▸ left_next_lt hlt
  | case4 => cases h
  | case5 => cases h
  | case6 => cases h

theorem left_le_of_field {n : Nat} {s t : Source} {bytes : ByteArray}
    (h : s.field n = .ok (bytes, t)) : t.left ≤ s.left := by
  unfold field at h
  split at h
  · split at h <;> cases h
  · simp only [Except.ok.injEq, Prod.mk.injEq] at h
    rw [← h.2]
    simp only [left]
    omega

theorem left_lt_of_lineTail {s t : Source} {r : Record} (h : s.lineTail = .ok (r, t)) :
    t.left < s.left := by
  unfold lineTail at h
  obtain ⟨⟨_, s₁⟩, h₁, h⟩ := bind_eq_ok.1 h
  obtain ⟨⟨_, s₂⟩, h₂, h⟩ := bind_eq_ok.1 h
  obtain ⟨⟨_, s₃⟩, h₃, h⟩ := bind_eq_ok.1 h
  obtain ⟨s₄, h₄, h⟩ := bind_eq_ok.1 h
  obtain ⟨s₅, h₅, h⟩ := bind_eq_ok.1 h
  obtain ⟨⟨_, s₆⟩, h₆, h⟩ := bind_eq_ok.1 h
  obtain ⟨s₇, h₇, h⟩ := bind_eq_ok.1 h
  cases h
  -- An empty field takes nothing, so the bytes between the fields have to make the text shorter.
  calc t.left
    _ < s₆.left := left_lt_of_expect h₇
    _ ≤ s₅.left := left_le_of_field h₆
    _ < s₄.left := left_lt_of_expect h₅
    _ < s₃.left := left_lt_of_expect h₄
    _ ≤ s₂.left := left_le_of_field h₃
    _ < s₁.left := left_lt_of_lengthFrom h₂
    _ < s.left := left_lt_of_lengthFrom h₁

/-- A line that was read starts with a plus sign. -/
theorem lineTail_of_line {s t : Source} {r : Record} (h : s.line = .ok (some (r, t))) :
    ∃ b u, s.byte = .ok (some b, u) ∧ b.toNat = '+'.toNat ∧ u.lineTail = .ok (r, t) := by
  unfold line at h
  split at h
  · cases h
  · cases h
  · rename_i b u hb
    split at h
    · cases h
    · split at h
      · cases h
      · rename_i hsign
        obtain ⟨p, htail, hp⟩ := map_eq_ok.1 h
        cases hp
        exact ⟨b, u, hb, Decidable.not_not.1 hsign, htail⟩

/-- Behind a line the text is shorter. -/
theorem left_lt_of_line {s t : Source} {r : Record} (h : s.line = .ok (some (r, t))) :
    t.left < s.left := by
  obtain ⟨_, _, hb, -, htail⟩ := lineTail_of_line h
  exact Nat.lt_trans (left_lt_of_lineTail htail) (left_lt_of_byte hb)

/-! ### All records -/

/-- The records of a text, behind records that were met before. -/
def recordsFrom (met : Array Record) (s : Source) : Walk Record :=
  match _h : s.line with
  | .error e => ⟨met.toList, some e⟩
  | .ok none => ⟨met.toList, none⟩
  | .ok (some (r, t)) => recordsFrom (met.push r) t
termination_by s.left
decreasing_by exact left_lt_of_line _h

/-- The records of a text. -/
def records (s : Source) : Walk Record := recordsFrom #[] s

/-- Records that were met before come first. -/
theorem recordsFrom_eq (met : Array Record) (s : Source) :
    recordsFrom met s = ⟨met.toList ++ s.records.items, s.records.failure⟩ := by
  have h (s : Source) (met others : Array Record) :
      recordsFrom (met ++ others) s =
        ⟨met.toList ++ (recordsFrom others s).items, (recordsFrom others s).failure⟩ := by
    fun_induction recordsFrom others s with
    | case1 others s e hl =>
      rw [recordsFrom]
      split <;> simp_all
    | case2 others s hl =>
      rw [recordsFrom]
      split <;> simp_all
    | case3 others s r t hl ih =>
      rw [recordsFrom]
      split <;> simp_all
  simpa [records] using h s met #[]

/-- The records of a text are that of its first line, and those behind it. -/
theorem records_eq (s : Source) :
    s.records =
      match s.line with
      | .error e => .failed e
      | .ok none => .empty
      | .ok (some (r, t)) => .cons r t.records := by
  rw [records, recordsFrom]
  split
  · simp_all [Walk.failed]
  · simp_all [Walk.empty]
  · simp_all [recordsFrom_eq, Walk.cons]

end Source

/-- The records that an input delivers as text. -/
def RecordText.parse (input : Input) : Walk Record := input.source.records

end ConstDb
