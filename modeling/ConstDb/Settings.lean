import ConstDb.Text.Blank
import ConstDb.Text.Number

/-! # Settings

How databases are built: the permission bits of the file, and whether it is forced to stable storage
before it replaces the old one.  Settings come from two environment variables.  A value that cannot
be read counts as unset, and the two do not affect each other. -/

namespace ConstDb

/-- The permission bits of a new database when nobody asks for others: only its owner may read it.
-/
def defaultMode : Nat := 0o400

/-- How databases are built. -/
structure Settings where
  /-- Permission bits for the file; without them, those of the replaced file or `defaultMode`. -/
  mode : Option Nat := none
  /-- Whether the data is forced to stable storage first. -/
  sync : Bool := true
deriving DecidableEq, Repr

namespace Settings

/-- The variable that holds the permission bits, in octal. -/
def modeVariable : String := "MCDB_MODE"

/-- The variable that holds `true` or `false`. -/
def syncVariable : String := "MCDB_SYNC"

/-- The settings that hold when nothing is set. -/
def default : Settings := {}

/-- A plus sign in front of a number may be left out. -/
def dropPlus : List Char → List Char
  | '+' :: rest => rest
  | cs => cs

/-- The mark `0o` in front of an octal number may be left out. -/
def dropOctalMark : List Char → List Char
  | '0' :: 'o' :: rest => rest
  | cs => cs

/-- Permission bits, written in octal. -/
def parseMode (text : String) : Option Nat :=
  match dropPlus (dropOctalMark (Text.trim text.toList)) with
  | [] => none
  | digits => Text.atMost? 8 0o7777 0 digits

/-- A truth value, written out. -/
def parseFlag (text : String) : Option Bool :=
  let word := String.ofList (Text.trim text.toList)
  if word = "true" then some true
  else if word = "false" then some false
  else none

/-- The settings for given values of the two variables. -/
def ofVariables (mode sync : Option String) : Settings where
  mode := mode.bind parseMode
  sync := (sync.bind parseFlag).getD true

/-- The value of an environment variable; bytes that are no text count as unset. -/
def textOf? (bytes : Option ByteArray) : Option String := bytes.bind String.fromUTF8?

/-- The value of an environment variable, or a default. -/
def variableOr (bytes : Option ByteArray) (default : String) : String :=
  (textOf? bytes).getD default

end Settings

end ConstDb
