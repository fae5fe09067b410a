import ConstDb.Text.Number
import ConstDb.Text.Shapeless
import ConstDb.Text.Utf8

/-! # Quoted texts

Descriptions show a path between double quotes.  A quote and a backslash get a backslash in front;
line feed, carriage return, tab and the null character have escapes of one letter; other characters
without a shape of their own are shown by their number, and bytes that are no text one by one. -/

namespace ConstDb.Text

/-- A character as it stands in a quoted text. -/
def quoteChar (c : Char) : List Char :=
  if c = '"' then ['\\', '"']
  else if c = '\\' then ['\\', '\\']
  else if c = '\n' then ['\\', 'n']
  else if c = '\r' then ['\\', 'r']
  else if c = '\t' then ['\\', 't']
  else if c = '\x00' then ['\\', '0']
  else if isShapeless c then ['\\', 'u', '\x7b'] ++ Nat.toDigits 16 c.toNat ++ ['\x7d']
  else [c]

/-- A byte that is no text, as it stands in a quoted text. -/
def quoteByte (b : UInt8) : List Char :=
  ['\\', 'x'] ++ (padLeft '0' 2 (String.ofList (Nat.toDigits 16 b.toNat))).toList

/-- A piece as it stands in a quoted text. -/
def quotePiece : Utf8.Piece → List Char
  | .char c => quoteChar c
  | .junk bytes => bytes.flatMap quoteByte

/-- Bytes that may be text, in double quotes. -/
def quote (bytes : List UInt8) : String :=
  String.ofList (['"'] ++ (Utf8.pieces bytes).flatMap quotePiece ++ ['"'])

end ConstDb.Text
