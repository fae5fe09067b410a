import ConstDb.Error

/-! # Inputs that may fault

An input delivers bytes piece by piece and may report faults in between.  A fault of the kind
`interrupted` means nothing: the reader asks again.  Any other fault ends the reading for good, but
only if the reader gets that far.  What an input amounts to is therefore the text before its first
serious fault, and that fault (`Input.source`).  How the bytes are grouped makes no difference
(`Input.source_ofPieces`). -/

namespace ConstDb

/-- What an input does when it is asked for more. -/
inductive InputEvent where
  | bytes (piece : ByteArray)
  | fault (f : Fault)

/-- What an input does, call by call; behind the last event the input is at its end. -/
abbrev Input := List InputEvent

/-- A text that is being read: all its bytes, how many of them were taken, and the fault that is met
when the bytes run out, if it is not just the end. -/
structure Source where
  bytes : ByteArray
  offset : Nat := 0
  fault : Option Fault := none

/-- The bytes that are left, as a list. -/
def Source.rest (s : Source) : List UInt8 := s.bytes.data.toList.drop s.offset

namespace Input

/-- The input that delivers some bytes without faults. -/
def ofBytes (bytes : ByteArray) : Input := [.bytes bytes]

/-- The input that delivers bytes piece by piece. -/
def ofPieces (pieces : List ByteArray) : Input := pieces.map .bytes

/-- The input that delivers bytes from `start` on and stops for each fault at its position; the
positions ascend. -/
def deliver (bytes : ByteArray) (start : Nat) : List (Nat × Fault) → Input
  | [] => [.bytes (bytes.extract start bytes.size)]
  | (pos, f) :: rest => .bytes (bytes.extract start pos) :: .fault f :: deliver bytes pos rest

/-- The input that delivers bytes and raises each fault once, when the byte at its position is about
to be read; the end has a position too.  Faults at one position are raised in their order. -/
def withFaults (faults : List (Nat × Fault)) (bytes : ByteArray) : Input :=
  let reached := faults.filter fun entry => decide (entry.1 ≤ bytes.size)
  deliver bytes 0 (reached.mergeSort fun a b => decide (a.1 ≤ b.1))

/-- The text up to the first serious fault, behind a text that was there before, and that fault. -/
def gather (before : ByteArray) : Input → ByteArray × Option Fault
  | [] => (before, none)
  | .bytes piece :: rest => gather (before ++ piece) rest
  | .fault f :: rest => if f.kind = .interrupted then gather before rest else (before, some f)

/-- What an input amounts to. -/
def source (input : Input) : Source :=
  let (text, fault) := gather ByteArray.empty input
  ⟨text, 0, fault⟩

/-- What was there before stays in front of the text, and makes no difference to the fault. -/
theorem gather_eq (before : ByteArray) (input : Input) :
    gather before input =
      (before ++ (gather ByteArray.empty input).1, (gather ByteArray.empty input).2) := by
  induction input generalizing before with
  | nil => simp [gather]
  | cons event rest ih =>
    cases event with
    | bytes piece =>
      rw [gather, gather, ih (before ++ piece), ih (ByteArray.empty ++ piece)]
      simp [ByteArray.append_assoc]
    | fault f =>
      simp only [gather]
      split
      · exact ih before
      · simp

@[simp] theorem source_ofBytes (bytes : ByteArray) : (ofBytes bytes).source = ⟨bytes, 0, none⟩ := by
  simp [source, ofBytes, gather]

/-- Pieces amount to the text that they make together. -/
theorem source_ofPieces (pieces : List ByteArray) :
    (ofPieces pieces).source = ⟨pieces.foldl (· ++ ·) ByteArray.empty, 0, none⟩ := by
  have h (before : ByteArray) :
      gather before (ofPieces pieces) = (pieces.foldl (· ++ ·) before, none) := by
    unfold ofPieces
    induction pieces generalizing before with
    | nil => rfl
    | cons piece rest ih => exact ih (before ++ piece)
  simp [source, h]

end Input

end ConstDb
