import ConstDb.Builder
import ConstDb.CommandLine.Arguments
import ConstDb.Reader
import ConstDb.Record.Distinct

/-! # Running commands

A command works on a space of files and gives an outcome: the exit status, what it printed, and for
a failure the complaint.

The exit status is 0 for success, 1 for a failure, 2 for a command line that makes no sense and 100
for `get` when there is no such key or occurrence. -/

namespace ConstDb

/-- Why a command failed: what it was about to do, and the error. -/
inductive Complaint where
  /-- An error of the library, with what the command was about to do. -/
  | failed (context : Option String) (error : Error)
  /-- A fault of a file that the command itself wanted to read. -/
  | unreadable (context : String) (fault : Fault)

namespace Complaint

/-- The line that tells the user. -/
def message : Complaint → String
  | failed none error => "mcdbctl: " ++ error.chain
  | failed (some context) error => "mcdbctl: " ++ context ++ ": " ++ error.chain
  | unreadable context fault => "mcdbctl: " ++ context ++ ": " ++ fault.text

/-- Whether the line names a temporary file, whose name no two runs share. -/
def namesTemporary : Complaint → Bool
  | failed _ error => error.namesTemporary
  | unreadable _ fault => fault.quotesTemporary

end Complaint

/-- What a command did. -/
structure Outcome where
  status : Nat
  output : ByteArray := ByteArray.empty
  complaint : Option Complaint := none

namespace Outcome

/-- Success. -/
def success (output : ByteArray) : Outcome := ⟨0, output, none⟩

/-- A failure behind some output. -/
def failure (output : ByteArray) (complaint : Complaint) : Outcome := ⟨1, output, some complaint⟩

/-- No such key or occurrence. -/
def absent : Outcome := ⟨100, ByteArray.empty, none⟩

/-- A command line that makes no sense. -/
def misused : Outcome := ⟨2, ByteArray.empty, none⟩

/-- The outcome of a step that may fail, for a command that prints `output` if it does not. -/
def ofExcept (context : Option String) (output : ByteArray) : Except Error Unit → Outcome
  | .ok () => success output
  | .error e => failure ByteArray.empty (.failed context e)

end Outcome

namespace Command

/-- The name and the version of the tool. -/
def versionLine : String := "mcdbctl 0.1.0\n"

/-- How to call the tool. -/
def usage : String :=
  "Usage: mcdbctl <COMMAND>\n\n"
    ++ "Commands:\n"
    ++ "  make <DB> <INPUT>      build a database from record text; - is standard input\n"
    ++ "  get <DB> <KEY> [WHICH] print an occurrence of a key (0 is the first), or all\n"
    ++ "  dump <DB>              print every record as text\n"
    ++ "  stats <DB>             print the number of records and their probe distances\n"
    ++ "  uniq <DB> [KEEP]       keep the first or the last value of every key\n"

/-- The input of `make`: standard input for a dash, or else a file.  A directory can be opened but
not read. -/
def source (s : FileSpace) (stdin : ByteArray) (input : Path) : Except Complaint Input :=
  if input = Path.ofText "-" then .ok (.ofBytes stdin)
  else
    match s.openNode input with
    | .error fault => .error (.unreadable ("cannot read " ++ input.text) fault)
    | .ok .directory => .ok [.fault .isADirectory]
    | .ok (.file f) => .ok (.ofBytes f.bytes)

/-- Builds a database from record text. -/
def runMake (s : FileSpace) (settings : Settings) (stdin : ByteArray) (db input : Path) :
    Outcome × FileSpace :=
  match source s stdin input with
  | .error complaint => (.failure ByteArray.empty complaint, s)
  | .ok input =>
    let (result, s) := Builder.create s db settings.mode (.load input)
    (.ofExcept (some ("cannot build " ++ db.text)) ByteArray.empty result, s)

/-- Goes on with the database at a path, or complains that it cannot be opened. -/
def withImage (s : FileSpace) (db : Path) (go : Image → Outcome) : Outcome :=
  match Mapping.load s db with
  | .error e => .failure ByteArray.empty (.failed (some ("cannot open " ++ db.text)) e)
  | .ok mapping => go mapping.image

/-- The values of a key that a selector asks for. -/
def select (image : Image) (key : ByteArray) : Selector → Except Error (List ByteArray)
  | .nth n => (image.nth key n).map Option.toList
  | .all => image.findAll key

/-- Prints values, each with a line feed behind it. -/
def runGet (image : Image) (key : ByteArray) (which : Selector) : Outcome :=
  match select image key which with
  | .error e => .failure ByteArray.empty (.failed none e)
  | .ok [] => .absent
  | .ok values =>
    .success (values.foldl (fun out value => out ++ value ++ "\n".toUTF8) ByteArray.empty)

/-- Prints all records; those in front of damage too. -/
def runDump (image : Image) : Outcome :=
  match image.dump {} with
  | (.ok _, sink) => .success sink.taken
  | (.error e, sink) => .failure sink.taken (.failed none e)

/-- Prints the statistics. -/
def runStats (db : Path) (image : Image) : Outcome :=
  match image.stats with
  | .error e => .failure ByteArray.empty (.failed (some (db.text ++ " failed validation")) e)
  | .ok found => .success found.text.toUTF8

/-- One record for each key of a database, in the order of the first ones. -/
def keptRecords (image : Image) (keep : Keep) : Except Error (List Record) :=
  match image.pairs with
  | .error e => .error e
  | .ok rs =>
    match keep with
    | .first => .ok (Record.distinct rs)
    | .last =>
      match image.toMap with
      | .error e => .error e
      | .ok last =>
        .ok ((Record.distinct rs).map fun r => { r with value := last.getD r.key r.value })

/-- The records that are to take the place of a database, if some key occurs twice in it. -/
def shortened (image : Image) (keep : Keep) : Except Error (Option (List Record)) :=
  match image.hasUniqueKeys with
  | .error e => .error e
  | .ok true => .ok none
  | .ok false => (keptRecords image keep).map some

/-- Replaces a database by one of other records, if there are to be any. -/
def rewrite (s : FileSpace) (settings : Settings) (db : Path) :
    Except Error (Option (List Record)) → Outcome × FileSpace
  | .error e => (.failure ByteArray.empty (.failed none e), s)
  | .ok none => (.success ByteArray.empty, s)
  | .ok (some rs) =>
    let (result, s) := Builder.create s db settings.mode (.addAll rs (.done (.ok ())))
    (.ofExcept (some ("cannot rewrite " ++ db.text)) ByteArray.empty result, s)

/-- Replaces a database in which some key occurs twice by one in which none does. -/
def runUniq (s : FileSpace) (settings : Settings) (db : Path) (keep : Keep) :
    Outcome × FileSpace :=
  match Mapping.load s db with
  | .error e => (.failure ByteArray.empty (.failed (some ("cannot open " ++ db.text)) e), s)
  -- The old image stays in memory, so its file may be replaced while it is read.
  | .ok mapping => rewrite s settings db (shortened mapping.image keep)

/-- Runs a command on a space of files. -/
def run (s : FileSpace) (settings : Settings) (stdin : ByteArray) : Command → Outcome × FileSpace
  | make db input => runMake s settings stdin db input
  | get db key which => (withImage s db fun image => runGet image key which, s)
  | dump db => (withImage s db runDump, s)
  | stats db => (withImage s db (runStats db), s)
  | uniq db keep => runUniq s settings db keep

end Command

/-- Runs what a command line asks for. -/
def Invocation.perform (s : FileSpace) (settings : Settings) (stdin : ByteArray) :
    Invocation → Outcome × FileSpace
  | .run command => command.run s settings stdin
  | .version => (.success Command.versionLine.toUTF8, s)
  | .help => (.success Command.usage.toUTF8, s)
  | .misused => (.misused, s)

end ConstDb
