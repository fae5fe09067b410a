import ConstDb.Builder

/-! # Reading record text call by call

`RecordText.parse` reads the text that an input amounts to.  Here the same text is read from the
input itself, call by call.  A call of `read` gives some of the next bytes, in pieces that the input
chooses, or none at the end; or it fails.  After a failure of the kind `interrupted` the reader asks
again.

A byte of a line is asked for on its own.  A field is asked for in parts, whose sizes are up to the
caller (`ask`), until it is complete; behind its last byte nothing is asked any more, and for an
empty field nothing at all.

An intake counts the positions that were asked for, the end among them (`Intake.asked`): a fault at
any other position is never met. -/

namespace ConstDb

namespace Input

/-- What one call of `read` for at most `size` bytes gives, and what the input does from then on.  A
piece without bytes is nothing that a call could give. -/
def read (size : Nat) : EStateM Fault Input ByteArray
  | [] => .ok .empty []
  | .fault f :: rest => .error f rest
  | .bytes piece :: rest =>
    if piece.size = 0 then read size rest
    else if piece.size ≤ size then .ok piece rest
    else .ok (piece.extract 0 size) (.bytes (piece.extract size piece.size) :: rest)

/-- All bytes of an input, whatever faults stand between them. -/
def bytes : Input → ByteArray
  | [] => .empty
  | .fault _ :: rest => bytes rest
  | .bytes piece :: rest => piece ++ bytes rest

/-- A call that fails uses up a fault. -/
theorem length_lt_of_read {size : Nat} {input rest : Input} {f : Fault}
    (h : input.read size = .error f rest) : rest.length < input.length := by
  induction input with
  | nil => cases h
  | cons event events ih =>
    cases event with
    | fault g =>
      cases h
      exact Nat.lt_succ_self _
    | bytes piece =>
      rw [read] at h
      split at h
      · exact Nat.lt_succ_of_lt (ih h)
      · split at h <;> cases h

/-- A fault takes no bytes away. -/
theorem bytes_of_read_error {size : Nat} {input rest : Input} {f : Fault}
    (h : input.read size = .error f rest) : rest.bytes = input.bytes := by
  induction input with
  | nil => cases h
  | cons event events ih =>
    cases event with
    | fault g =>
      cases h
      rfl
    | bytes piece =>
      rw [read] at h
      split at h
      · rename_i hempty
        rw [ih h, bytes, ByteArray.size_eq_zero_iff.1 hempty, ByteArray.empty_append]
      · split at h <;> cases h

/-- The bytes that a call gives are the first of those that the input has. -/
theorem bytes_of_read_ok {size : Nat} {input rest : Input} {piece : ByteArray}
    (h : input.read size = .ok piece rest) : input.bytes = piece ++ rest.bytes := by
  -- A call skips pieces without bytes, so the induction is on what the input still does.
  induction input with
  | nil =>
    cases h
    rfl
  | cons event events ih =>
    cases event with
    | fault g => cases h
    | bytes piece =>
      rw [read] at h
      split at h
      · rename_i hempty
        rw [bytes, ByteArray.size_eq_zero_iff.1 hempty, ByteArray.empty_append, ih h]
      · split at h
        · cases h
          rfl
        · cases h
          rw [bytes, bytes, ← ByteArray.append_assoc,
            ← ByteArray.extract_eq_extract_append_extract size (Nat.zero_le _) (by omega),
            ByteArray.extract_zero_size]

end Input

/-- An input that is being read. -/
structure Intake where
  /-- What the input still does. -/
  events : Input
  /-- How many bytes were taken. -/
  offset : Nat := 0
  /-- How many positions were asked for. -/
  asked : Nat := 0

namespace Intake

/-- How many bytes the input still has. -/
def left (t : Intake) : Nat := t.events.bytes.size

/-- One call.  It asks for the next position, and for those of all bytes that it gives. -/
def read (size : Nat) : EStateM Fault Intake ByteArray := fun t =>
  match t.events.read size with
  | .ok piece events =>
    .ok piece ⟨events, t.offset + piece.size, max t.asked (t.offset + max 1 piece.size)⟩
  | .error f events => .error f ⟨events, t.offset, max t.asked (t.offset + 1)⟩

theorem length_lt_of_read {size : Nat} {t u : Intake} {f : Fault} (h : read size t = .error f u) :
    u.events.length < t.events.length := by
  unfold read at h
  split at h
  · cases h
  · rename_i hread
    cases h
    exact Input.length_lt_of_read hread

/-- The bytes that a call gives are gone from the input. -/
theorem left_of_read {size : Nat} {t u : Intake} {piece : ByteArray}
    (h : read size t = .ok piece u) : t.left = piece.size + u.left := by
  unfold read at h
  split at h
  · rename_i hread
    cases h
    rw [left, Input.bytes_of_read_ok hread, ByteArray.size_append, left]
  · cases h

theorem left_of_read_error {size : Nat} {t u : Intake} {f : Fault}
    (h : read size t = .error f u) : t.left = u.left := by
  unfold read at h
  split at h
  · cases h
  · rename_i hread
    cases h
    rw [left, left, Input.bytes_of_read_error hread]

/-- Calls until a call is not interrupted. -/
def retry (size : Nat) (t : Intake) : EStateM.Result Fault Intake ByteArray :=
  match _h : read size t with
  | .ok piece u => .ok piece u
  | .error f u => if f.kind = .interrupted then retry size u else .error f u
termination_by t.events.length
decreasing_by exact length_lt_of_read _h

theorem left_of_retry {size : Nat} {t u : Intake} {piece : ByteArray}
    (h : retry size t = .ok piece u) : t.left = piece.size + u.left := by
  induction hn : t.events.length using Nat.strongRecOn generalizing t with
  | ind n ih =>
    subst hn
    rw [retry] at h
    split at h
    · rename_i hread
      cases h
      exact left_of_read hread
    · rename_i v hread
      split at h
      · rw [left_of_read_error hread]
        exact ih _ (length_lt_of_read hread) h rfl
      · cases h

/-- Calls until `limit` bytes are there, or until the end.  The bytes are put behind a buffer. -/
def fill (ask : Nat → Nat) (limit : Nat) (buffer : ByteArray) (t : Intake) :
    EStateM.Result Fault Intake ByteArray :=
  if limit = 0 then .ok buffer t
  else
    match retry (min limit (ask t.offset + 1)) t with
    | .error f u => .error f u
    | .ok piece u =>
      if piece.size = 0 then .ok buffer u
      else fill ask (limit - piece.size) (buffer ++ piece) u
termination_by limit
decreasing_by omega

theorem left_le_of_fill {ask : Nat → Nat} {limit : Nat} {buffer bytes : ByteArray} {t u : Intake}
    (h : fill ask limit buffer t = .ok bytes u) : u.left ≤ t.left := by
  induction limit using Nat.strongRecOn generalizing buffer t with
  | ind limit ih =>
    rw [fill] at h
    split at h
    · cases h
      exact Nat.le_refl _
    · split at h
      · cases h
      · rename_i piece v hretry
        rw [left_of_retry hretry]
        split at h
        · cases h
          exact Nat.le_add_left ..
        · exact Nat.le_trans (ih _ (by omega) h) (Nat.le_add_left ..)

/-- What takes a value from an intake. -/
abbrev Taking (α : Type) := EStateM Error Intake α

/-- Takes the next byte; nothing at the end of the text. -/
def byte : Taking (Option UInt8) := fun t =>
  match retry 1 t with
  | .error f u => .error (.stream f) u
  | .ok piece u => .ok piece.data[0]? u

/-- Gives up, and says where. -/
def fail {α : Type} (reason : Reason) : Taking α := fun t =>
  .error (.format t.offset reason) t

/-- Takes the next byte, which has to be `want`. -/
def expect (want : Char) : Taking Unit := do
  match ← byte with
  | none => fail (.endExpectingByte want)
  | some b => if b.toNat = want.toNat then return () else fail (.expectedByte want b)

theorem left_lt_of_byte {t u : Intake} {b : UInt8} (h : byte t = .ok (some b) u) :
    u.left < t.left := by
  unfold byte at h
  split at h
  · cases h
  · rename_i piece v hretry
    simp only [EStateM.Result.ok.injEq] at h
    obtain ⟨hb, rfl⟩ := h
    have hsize : 0 < piece.size := (Array.getElem?_eq_some_iff.1 hb).1
    rw [left_of_retry hretry]
    exact Nat.lt_add_of_pos_left hsize

/-- Takes the digits of a length and the terminator behind them.  The digits before stand for `n`;
`seen` tells whether there were any. -/
def lengthFrom (terminator : Char) (n : Nat) (seen : Bool) : Taking Nat := fun t =>
  match _h : byte t with
  | .error e u => .error e u
  | .ok none u => fail .endInLength u
  | .ok (some b) u =>
    match Source.digit? b with
    | some d =>
      if 0x100000000 ≤ n * 10 + d then fail .lengthOverflow u
      else lengthFrom terminator (n * 10 + d) true u
    | none =>
      if b.toNat = terminator.toNat ∧ seen = true then .ok n u
      else fail (.expectedDigit terminator b) u
termination_by t => t.left
decreasing_by exact left_lt_of_byte _h

/-- Takes a length in decimal, below `2 ^ 32`, and the terminator behind it. -/
def length (terminator : Char) : Taking Nat := lengthFrom terminator 0 false

/-- Takes exactly `n` bytes. -/
def field (ask : Nat → Nat) (n : Nat) : Taking ByteArray := fun t =>
  match fill ask n .empty t with
  | .error f u => .error (.stream f) u
  | .ok bytes u =>
    if bytes.size = n then .ok bytes u else fail (.endInField n bytes.size) u

/-- Takes a record behind the plus sign that starts its line. -/
def lineTail (ask : Nat → Nat) : Taking Record := do
  let keySize ← length ','
  let valueSize ← length ':'
  let key ← field ask keySize
  expect '-'
  expect '>'
  let value ← field ask valueSize
  expect '\n'
  return ⟨key, value⟩

/-- Takes the next line; nothing at the end of the text and at an empty line. -/
def line (ask : Nat → Nat) : Taking (Option Record) := do
  match ← byte with
  | none => return none
  | some b =>
    if b.toNat = '\n'.toNat then return none
    else if b.toNat ≠ '+'.toNat then fail (.expectedRecord b)
    else return some (← lineTail ask)

/-! ### Taking leaves an input with fewer bytes -/

section

variable {α β : Type} {F : Taking α} {G : α → Taking β}

/-- One behind the other take something if both do. -/
theorem bind_eq_ok {t v : Intake} {b : β} :
    (F >>= G) t = .ok b v ↔ ∃ a u, F t = .ok a u ∧ G a u = .ok b v := by
  change EStateM.bind F G t = .ok b v ↔ _
  unfold EStateM.bind
  cases F t with
  | error e u => simp
  | ok a u =>
    refine ⟨fun h => ⟨a, u, rfl, h⟩, ?_⟩
    rintro ⟨_, _, hfirst, hsecond⟩
    cases hfirst
    exact hsecond

/-- Whether an input never has more bytes behind what was taken. -/
def Shrinks (F : Taking α) : Prop := ∀ t u a, F t = .ok a u → u.left ≤ t.left

theorem Shrinks.bind (hF : Shrinks F) (hG : ∀ a, Shrinks (G a)) : Shrinks (F >>= G) := by
  intro t v b h
  obtain ⟨a, u, hfirst, hsecond⟩ := bind_eq_ok.1 h
  exact Nat.le_trans (hG a u v b hsecond) (hF t u a hfirst)

theorem shrinks_pure (a : α) : Shrinks (pure a) := by
  intro t u b h
  cases h
  exact Nat.le_refl _

end

theorem shrinks_byte : Shrinks byte := by
  intro t u b h
  unfold byte at h
  split at h
  · cases h
  · rename_i piece v hretry
    cases h
    rw [left_of_retry hretry]
    exact Nat.le_add_left ..

theorem shrinks_expect (want : Char) : Shrinks (expect want) := by
  refine shrinks_byte.bind fun b => ?_
  cases b with
  | none => exact fun t u a h => by cases h
  | some b =>
    by_cases hwant : b.toNat = want.toNat
    · simp only [hwant, if_true]
      exact shrinks_pure ()
    · simp only [hwant, if_false]
      exact fun t u a h => by cases h

theorem shrinks_length (terminator : Char) : Shrinks (length terminator) := by
  have hfrom {n m : Nat} {seen : Bool} {t u : Intake}
      (h : lengthFrom terminator n seen t = .ok m u) : u.left ≤ t.left := by
    fun_induction lengthFrom terminator n seen t with
    | case1 => cases h
    | case2 => cases h
    | case3 => cases h
    | case4 n seen t b v hbyte d hd hsmall ih =>
      exact Nat.le_trans (ih h) (Nat.le_of_lt (left_lt_of_byte hbyte))
    | case5 n seen t b v hbyte =>
      cases h
      exact Nat.le_of_lt (left_lt_of_byte hbyte)
    | case6 => cases h
  exact fun t u n h => hfrom h

theorem shrinks_field (ask : Nat → Nat) (n : Nat) : Shrinks (field ask n) := by
  intro t u bytes h
  unfold field at h
  split at h
  · cases h
  · rename_i hfill
    split at h
    · cases h
      exact left_le_of_fill hfill
    · cases h

theorem shrinks_lineTail (ask : Nat → Nat) : Shrinks (lineTail ask) := by
  apply (shrinks_length ',').bind
  intro keySize
  apply (shrinks_length ':').bind
  intro valueSize
  apply (shrinks_field ask keySize).bind
  intro key
  apply (shrinks_expect '-').bind
  intro _
  apply (shrinks_expect '>').bind
  intro _
  apply (shrinks_field ask valueSize).bind
  intro value
  apply (shrinks_expect '\n').bind
  intro _
  exact shrinks_pure _

/-- Behind a line an input has fewer bytes. -/
theorem left_lt_of_line {ask : Nat → Nat} {t u : Intake} {r : Record}
    (h : line ask t = .ok (some r) u) : u.left < t.left := by
  obtain ⟨b, v, hbyte, h⟩ := bind_eq_ok.1 h
  cases b with
  | none => cases h
  | some b =>
    simp only at h
    split at h
    · cases h
    · split at h
      · cases h
      · obtain ⟨r', w, hline, hr⟩ := bind_eq_ok.1 h
        cases hr
        exact Nat.lt_of_le_of_lt (shrinks_lineTail ask _ _ _ hline) (left_lt_of_byte hbyte)

/-! ### All records -/

/-- Adds the records of all lines that are left, each as soon as it is read.  The result is their
number, counted on from `count`. -/
def loadFrom (ask : Nat → Nat) (count : Nat) (b : Builder) (t : Intake) :
    Except Error Nat × Builder × Intake :=
  match _h : line ask t with
  | .error e u => (.error e, b, u)
  | .ok none u => (.ok count, b, u)
  | .ok (some r) u =>
    match b.add r with
    | .error e => (.error e, b, u)
    | .ok b => loadFrom ask (count + 1) b u
termination_by t.left
decreasing_by exact left_lt_of_line _h

end Intake

/-- Adds the records that an input delivers, call by call.  The result is their number. -/
def Builder.loadCalls (ask : Nat → Nat) (b : Builder) (input : Input) :
    Except Error Nat × Builder × Intake :=
  Intake.loadFrom ask 0 b ⟨input, 0, 0⟩

end ConstDb
