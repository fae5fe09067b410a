import ConstDb.Bytes
import ConstDb.FileSpace.Path
import ConstDb.Text.Number

/-! # Arguments

What the command line tool is asked to do.  Arguments are bytes and are read from left to right; the
first one that cannot be right decides.

* The first argument names the command, or is an option: `-V` or `--version`, `-h` or `--help`.
* Behind the command only `-h` and `--help` are options.  Any other argument that starts with a dash
  is refused, except the single dash and all that stands behind a double dash.
* Paths must not be empty.  Keys may be any bytes. -/

namespace ConstDb

/-- Which occurrences `get` prints. -/
inductive Selector where
  | nth (n : Nat)
  | all
deriving DecidableEq, Repr

/-- Which value of a repeated key `uniq` keeps. -/
inductive Keep where
  | first
  | last
deriving DecidableEq, Repr

/-- The commands of the tool. -/
inductive Command where
  /-- Builds a database from record text. -/
  | make (db input : Path)
  /-- Prints values of a key. -/
  | get (db : Path) (key : ByteArray) (which : Selector)
  /-- Prints all records as text. -/
  | dump (db : Path)
  /-- Prints the number of records and their distances from their start slots. -/
  | stats (db : Path)
  /-- Thins out a database so that every key occurs once. -/
  | uniq (db : Path) (keep : Keep)
deriving DecidableEq

/-- What a command line asks for. -/
inductive Invocation where
  | run (command : Command)
  | version
  | help
  /-- The command line makes no sense. -/
  | misused
deriving DecidableEq

namespace Arguments

/-- An argument as the tool looks at it. -/
inductive Shape where
  | doubleDash
  | longOption (name : ByteArray)
  | shortOption (first : UInt8)
  | plain
deriving DecidableEq

/-- The shape of an argument in front of a double dash. -/
def shape (arg : ByteArray) : Shape :=
  match arg.data.toList with
  | 0x2d :: 0x2d :: [] => .doubleDash
  | 0x2d :: 0x2d :: rest => .longOption rest.toByteArray
  | 0x2d :: c :: _ => .shortOption c
  | _ => .plain

/-- Whether an option asks for help. -/
def asksHelp : Shape → Bool
  | .longOption name => decide (name = "help".toUTF8)
  | .shortOption c => decide (c = 0x68)
  | _ => false

/-- Whether an option asks for the version. -/
def asksVersion : Shape → Bool
  | .longOption name => decide (name = "version".toUTF8)
  | .shortOption c => decide (c = 0x56)
  | _ => false

/-- A path. -/
def path? (arg : ByteArray) : Option Path :=
  if arg.size = 0 then none else some ⟨arg.data.toList⟩

/-- A number below `2 ^ 64` in decimal, with or without a plus sign. -/
def number? (cs : List Char) : Option Nat :=
  let digits :=
    match cs with
    | '+' :: rest => rest
    | _ => cs
  if digits = [] then none
  else Text.atMost? 10 0xffffffffffffffff 0 digits

/-- The selector of `get`: a number, or `all` in any case. -/
def selector? (arg : ByteArray) : Option Selector :=
  match String.fromUTF8? arg with
  | none => none
  | some text =>
    if text.toList.map Char.toLower = ['a', 'l', 'l'] then some .all
    else (number? text.toList).map .nth

/-- The choice of `uniq`. -/
def keep? (arg : ByteArray) : Option Keep :=
  if arg = "first".toUTF8 then some .first
  else if arg = "last".toUTF8 then some .last
  else none

/-- The names of the commands. -/
inductive Verb where
  | make
  | get
  | dump
  | stats
  | uniq
deriving DecidableEq

/-- The command with a name. -/
def verb? (name : ByteArray) : Option Verb :=
  if name = "make".toUTF8 then some .make
  else if name = "get".toUTF8 then some .get
  else if name = "dump".toUTF8 then some .dump
  else if name = "stats".toUTF8 then some .stats
  else if name = "uniq".toUTF8 then some .uniq
  else none

/-- What each positional argument of a command has to be: a test for each. -/
def Verb.tests : Verb → List (ByteArray → Bool)
  | make => [isPath, isPath]
  | get => [isPath, fun _ => true, fun arg => (selector? arg).isSome]
  | dump => [isPath]
  | stats => [isPath]
  | uniq => [isPath, fun arg => (keep? arg).isSome]
where
  isPath (arg : ByteArray) : Bool := (path? arg).isSome

/-- The command with its positional arguments. -/
def Verb.command? : Verb → List ByteArray → Option Command
  | make, [db, input] => return .make (← path? db) (← path? input)
  | get, [db, key] => return .get (← path? db) key (.nth 0)
  | get, [db, key, which] => return .get (← path? db) key (← selector? which)
  | dump, [db] => return .dump (← path? db)
  | stats, [db] => return .stats (← path? db)
  | uniq, [db] => return .uniq (← path? db) .first
  | uniq, [db, keep] => return .uniq (← path? db) (← keep? keep)
  | _, _ => none

/-- Reads the arguments behind the name of a command.  `plain` holds behind a double dash; `tests`
are for the arguments to come, and `found` has those that were read, the last one first. -/
def parseRest (verb : Verb) (plain : Bool) :
    (tests : List (ByteArray → Bool)) → (found : List ByteArray) → List ByteArray → Invocation
  | _, found, [] =>
    match verb.command? found.reverse with
    | none => .misused
    | some command => .run command
  | tests, found, arg :: rest =>
    -- Behind a double dash nothing is an option, a second double dash included.
    match if plain then .plain else shape arg with
    | .doubleDash => parseRest verb true tests found rest
    | .plain =>
      match tests with
      | [] => .misused
      | test :: tests =>
        if test arg then parseRest verb plain tests (arg :: found) rest else .misused
    | option => if asksHelp option then .help else .misused

/-- Reads a command line. -/
def parse : List ByteArray → Invocation
  | [] => .misused
  | arg :: rest =>
    match shape arg with
    | .doubleDash => .misused
    | .plain =>
      if arg = "help".toUTF8 then
        match rest with
        | [] => .help
        | [name] => if name = arg ∨ (verb? name).isSome then .help else .misused
        | _ => .misused
      else
        match verb? arg with
        | none => .misused
        | some verb => parseRest verb false verb.tests [] rest
    | option =>
      if asksHelp option then .help
      else if asksVersion option then .version
      else .misused

end Arguments

end ConstDb
