/-! # Advice

How a reader expects to go through a database.  Advice is a hint to the operating system; no answer
depends on it. -/

namespace ConstDb

/-- An expected pattern of access. -/
inductive Advice where
  | normal
  | random
  | sequential
  | willNeed
  | dontNeed
deriving DecidableEq, Repr

namespace Advice

/-- All patterns. -/
def all : List Advice := [normal, random, sequential, willNeed, dontNeed]

/-- The name of a pattern. -/
def name : Advice → String
  | normal => "normal"
  | random => "random"
  | sequential => "sequential"
  | willNeed => "willneed"
  | dontNeed => "dontneed"

/-- The name of a pattern with its words in capitals. -/
def label : Advice → String
  | normal => "Normal"
  | random => "Random"
  | sequential => "Sequential"
  | willNeed => "WillNeed"
  | dontNeed => "DontNeed"

/-- The pattern of most databases. -/
def default : Advice := normal

/-- The pattern with a name; the case of ASCII letters does not matter. -/
def ofName? (s : String) : Option Advice :=
  let lower (t : String) : List Char := t.toList.map Char.toLower
  all.find? fun a => decide (lower a.name = lower s)

/-- The place of a pattern among all. -/
def index (a : Advice) : Nat := all.idxOf a

/-- What to say about a name that is no pattern. -/
def unknownMessage (s : String) : String := "unknown access advice: " ++ s

theorem ofName?_name (a : Advice) : ofName? a.name = some a := by
  cases a <;> decide

end Advice

end ConstDb
