/-! # Bytes that may be text

Names of files and arguments are bytes, and need not be text.  `Utf8.pieces` takes bytes apart into
characters and junk: a piece of junk is a longest stretch of bytes that could have started a
character, or else a single byte that could not.  `Utf8.show` puts the replacement character in the
place of each piece of junk.

No byte is lost: the pieces, with characters encoded again, are the bytes (`Utf8.Piece.junk` keeps
its own). -/

namespace ConstDb.Text.Utf8

/-- A piece of bytes that may be text. -/
inductive Piece where
  | char (c : Char)
  | junk (bytes : List UInt8)
deriving DecidableEq, Repr

/-- The range of the second byte of a character, and how many bytes follow the first one, by the
first byte.  No row is there for bytes that start no character of several bytes. -/
def leadByte? (b : UInt8) : Option (Nat × Nat × Nat) :=
  let n := b.toNat
  if 0xc2 ≤ n ∧ n ≤ 0xdf then some (0x80, 0xbf, 1)
  else if n = 0xe0 then some (0xa0, 0xbf, 2)
  else if n = 0xed then some (0x80, 0x9f, 2)
  else if 0xe1 ≤ n ∧ n ≤ 0xef then some (0x80, 0xbf, 2)
  else if n = 0xf0 then some (0x90, 0xbf, 3)
  else if 0xf1 ≤ n ∧ n ≤ 0xf3 then some (0x80, 0xbf, 3)
  else if n = 0xf4 then some (0x80, 0x8f, 3)
  else none

/-- Whether a byte lies in a range. -/
def within (b : UInt8) (low high : Nat) : Bool := decide (low ≤ b.toNat ∧ b.toNat ≤ high)

/-- A character that has begun: its bytes so far, the number that they stand for, the range of the
next byte, and how many bytes are to come. -/
structure Begun where
  seen : List UInt8
  number : Nat
  low : Nat
  high : Nat
  missing : Nat

/-- The character that a first byte begins. -/
def begin? (b : UInt8) : Option Begun :=
  (leadByte? b).map fun (low, high, missing) =>
    ⟨[b], b.toNat % (1 <<< (6 - missing)), low, high, missing⟩

/-- The pieces of bytes, behind a character that has begun or not. -/
def piecesFrom (begun : Option Begun) (bytes : List UInt8) : List Piece :=
  match begun, bytes with
  | none, [] => []
  | some c, [] => [.junk c.seen]
  | none, b :: rest =>
    if b.toNat < 0x80 then .char (Char.ofNat b.toNat) :: piecesFrom none rest
    else
      match begin? b with
      | none => .junk [b] :: piecesFrom none rest
      | some c => piecesFrom (some c) rest
  | some c, b :: rest =>
    if within b c.low c.high then
      let number := c.number * 64 + b.toNat % 64
      if c.missing ≤ 1 then .char (Char.ofNat number) :: piecesFrom none rest
      else piecesFrom (some ⟨c.seen ++ [b], number, 0x80, 0xbf, c.missing - 1⟩) rest
    -- The byte that does not fit may start a character of its own.
    else .junk c.seen :: piecesFrom none (b :: rest)
termination_by 2 * bytes.length + (if begun.isSome then 1 else 0)

/-- The pieces of bytes, from left to right. -/
def pieces (bytes : List UInt8) : List Piece := piecesFrom none bytes

/-- The replacement character. -/
def replacement : Char := '\ufffd'

/-- The character that shows a piece. -/
def Piece.shown : Piece → Char
  | char c => c
  | junk _ => replacement

/-- Bytes as text, with the replacement character where they are none. -/
def «show» (bytes : List UInt8) : String := String.ofList ((pieces bytes).map Piece.shown)

end ConstDb.Text.Utf8
