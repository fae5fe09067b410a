import ConstDb.Text.Utf8

/-! # Paths

A path is a string of bytes, which need not be text; a slash separates its names.  Empty names and
single dots count for nothing, except that they show, at the end of a path, that a directory is
meant.

`parent?` and `fileName?` take a path apart by its form alone.  What a path leads to is decided by a
space of files (`FileSpace.resolve`). -/

namespace ConstDb

/-- The path of a file. -/
structure Path where
  bytes : List UInt8
deriving DecidableEq, Repr

namespace Path

/-- A name in a directory, or what stands in the place of one between two slashes. -/
abbrev Part := List UInt8

/-- The path that a text spells out. -/
def ofText (s : String) : Path := ⟨s.toUTF8.data.toList⟩

/-- A path as text, with the replacement character where its bytes are none. -/
def text (p : Path) : String := Text.Utf8.show p.bytes

/-- The byte between two names. -/
def slash : UInt8 := 0x2f

/-- Whether a path starts from the root of all directories, wherever it is used. -/
def isAbsolute (p : Path) : Bool := decide (p.bytes.head? = some slash)

/-- The part that stands for the directory it is in. -/
def dot : Part := [0x2e]

/-- The part that stands for the directory above. -/
def dotDot : Part := [0x2e, 0x2e]

/-- The path of the directory that paths start from. -/
def here : Path := ⟨dot⟩

/-- The path itself, or the directory that paths start from in the place of an empty one. -/
def orHere (p : Path) : Path := if p.bytes = [] then here else p

/-- What is between the slashes. -/
def splitSlashes : List UInt8 → List Part
  | [] => [[]]
  | c :: rest =>
    if c = slash then [] :: splitSlashes rest
    else
      match splitSlashes rest with
      | [] => [[c]]
      | part :: parts => (c :: part) :: parts

/-- The parts of a path, from left to right. -/
def parts (p : Path) : List Part := splitSlashes p.bytes

/-- Whether a part of a path stands for nothing. -/
def isIdle (part : Part) : Bool := decide (part = [] ∨ part = dot)

/-- The names to follow, in order. -/
def names (p : Path) : List Part := p.parts.filter fun part => !isIdle part

/-- Whether the end of a path shows that a directory is meant. -/
def meansDirectory (p : Path) : Bool := p.parts.getLast?.any isIdle

/-- Whether the last part of a path, slashes at the end apart, is a single dot: the path names a
directory by its own name. -/
def endsInDot (p : Path) : Bool :=
  decide ((p.parts.filter fun part => decide (part ≠ [])).getLast? = some dot)

/-- How many bytes a name may have. -/
def maxNameSize : Nat := 255

/-- How many bytes a path may have. -/
def maxSize : Nat := 4095

/-- Drops the idle parts from the front of a reversed path; the first part of the path stays. -/
def dropIdle : List Part → List Part
  | [] => []
  | [first] => [first]
  | part :: rest => if isIdle part then dropIdle rest else part :: rest

/-- Puts a slash between the parts. -/
def join (parts : List Part) : Path := ⟨List.intercalate [slash] parts⟩

/-- The path without its last name; a path of one name has the empty parent, and the top directory
has none. -/
def parent? (p : Path) : Option Path :=
  match dropIdle p.parts.reverse with
  | [] => none
  | [first] => if first = [] then none else some ⟨[]⟩
  | _ :: rest =>
    match dropIdle rest with
    | [[]] => some ⟨[slash]⟩
    | parts => some (join parts.reverse)

/-- The last name of a path, if it is the name of an entry. -/
def fileName? (p : Path) : Option Part :=
  match dropIdle p.parts.reverse with
  | [] => none
  | name :: _ => if name = [] ∨ name = dot ∨ name = dotDot then none else some name

/-- The directory that holds what a path names. -/
def directory (p : Path) : Path :=
  match p.parent? with
  | none => here
  | some parent => parent.orHere

end Path

end ConstDb
