import ConstDb.CommandLine.Arguments

/-! # Command lines that run a command

Behind the name of a command stand its operands.  In front of a double dash none of them may look
like an option; the double dash itself is no operand, and behind it everything is
(`Arguments.Spells`).  A command line runs a command just when its operands are those of the
command.

## Key results

- `Arguments.parse_of_spells`: what a command line without options asks for
- `Arguments.parse_eq_run_iff`: which command lines run a command
-/

namespace ConstDb.Arguments

/-- Whether arguments stand for operands.  `plain` holds behind a double dash. -/
inductive Spells : (plain : Bool) → (args operands : List ByteArray) → Prop
  | nil (plain : Bool) : Spells plain [] []
  | operand {plain : Bool} {arg : ByteArray} {args operands : List ByteArray}
      (hshape : plain = true ∨ shape arg = .plain) (hrest : Spells plain args operands) :
      Spells plain (arg :: args) (arg :: operands)
  | doubleDash {arg : ByteArray} {args operands : List ByteArray}
      (hshape : shape arg = .doubleDash) (hrest : Spells true args operands) :
      Spells false (arg :: args) operands

/-- Operands none of which looks like an option stand for themselves. -/
theorem Spells.of_plain {operands : List ByteArray} (h : ∀ arg ∈ operands, shape arg = .plain) :
    Spells false operands operands := by
  induction operands with
  | nil => exact .nil false
  | cons arg rest ih =>
    obtain ⟨harg, hrest⟩ := List.forall_mem_cons.1 h
    exact .operand (.inr harg) (ih hrest)

/-- Behind a double dash all do. -/
theorem Spells.behind (operands : List ByteArray) : Spells true operands operands := by
  induction operands with
  | nil => exact .nil true
  | cons arg rest ih => exact .operand (.inl rfl) ih

/-- Whether there is a test for each operand, and the operand passes it. -/
def passes : (tests : List (ByteArray → Bool)) → (operands : List ByteArray) → Bool
  | _, [] => true
  | [], _ :: _ => false
  | test :: tests, arg :: args => test arg && passes tests args

/-- The operands of a command pass the tests of its verb. -/
theorem passes_of_command? {verb : Verb} {operands : List ByteArray} {command : Command}
    (h : verb.command? operands = some command) : passes verb.tests operands = true := by
  unfold Verb.command? at h
  split at h <;>
    simp only [bind, pure, Option.bind_eq_some_iff, reduceCtorEq] at h <;>
    simp only [Verb.tests, Verb.tests.isPath, passes, Bool.and_true, Bool.and_eq_true,
      Option.isSome_iff_exists, true_and]
  all_goals grind

variable {verb : Verb} {plain : Bool} {tests : List (ByteArray → Bool)} {found : List ByteArray}
  {arg : ByteArray} {args operands : List ByteArray} {command : Command}

/-- An argument that looks like no option is tested. -/
theorem parseRest_of_plain (h : plain = true ∨ shape arg = .plain) :
    parseRest verb plain tests found (arg :: args) =
      match tests with
      | [] => .misused
      | test :: tests =>
        if test arg then parseRest verb plain tests (arg :: found) args else .misused := by
  have hplain : (if plain then .plain else shape arg) = Shape.plain := by
    rcases h with rfl | h
    · rfl
    · rw [h, ite_self]
  rw [parseRest.eq_def]
  cases tests with
  | nil => simp only [hplain]
  | cons test tests => simp only [hplain]

/-- A double dash is no operand. -/
theorem parseRest_of_doubleDash (h : shape arg = .doubleDash) :
    parseRest verb false tests found (arg :: args) = parseRest verb true tests found args := by
  rw [parseRest.eq_def]
  simp only [Bool.false_eq_true, if_false, h]

/-- What operands ask for. -/
def ask (verb : Verb) (operands : List ByteArray) : Invocation :=
  match verb.command? operands with
  | none => .misused
  | some command => .run command

/-- Operands that pass their tests are those of the command, and others make no sense. -/
theorem parseRest_of_spells (h : Spells plain args operands) (tests : List (ByteArray → Bool))
    (found : List ByteArray) :
    parseRest verb plain tests found args =
      if passes tests operands then ask verb (found.reverse ++ operands) else .misused := by
  induction h generalizing tests found with
  | nil plain =>
    rw [parseRest, passes, List.append_nil]
    rfl
  | operand hshape hrest ih =>
    rw [parseRest_of_plain hshape]
    cases tests with
    | nil => rfl
    | cons test tests =>
      simp only [passes, ih, List.reverse_cons, List.append_assoc, List.singleton_append]
      split <;> simp_all
  | doubleDash hshape hrest ih => rw [parseRest_of_doubleDash hshape, ih]

/-- And if they are those of the command, they pass. -/
theorem exists_spells_of_parseRest
    (h : parseRest verb plain tests found args = .run command) :
    ∃ operands, Spells plain args operands ∧
      verb.command? (found.reverse ++ operands) = some command := by
  induction args generalizing plain tests found with
  | nil =>
    refine ⟨[], .nil plain, ?_⟩
    rw [parseRest] at h
    rw [List.append_nil]
    cases hcommand : verb.command? found.reverse with
    | none =>
      rw [hcommand] at h
      cases h
    | some command' =>
      rw [hcommand] at h
      exact congrArg some (Invocation.run.inj h)
  | cons arg rest ih =>
    by_cases hplain : plain = true ∨ shape arg = .plain
    · rw [parseRest_of_plain hplain] at h
      cases tests with
      | nil => cases h
      | cons test tests =>
        by_cases htest : test arg
        · simp only [htest, if_true] at h
          obtain ⟨operands, hspells, hcommand⟩ := ih h
          rw [List.reverse_cons, List.append_assoc, List.singleton_append] at hcommand
          exact ⟨arg :: operands, .operand hplain hspells, hcommand⟩
        · simp only [htest, Bool.false_eq_true, if_false, reduceCtorEq] at h
    · -- What looks like an option is a double dash, or it ends the reading.
      obtain ⟨hfalse, hshape⟩ := not_or.1 hplain
      obtain rfl := Bool.eq_false_iff.2 hfalse
      cases hoption : shape arg with
      | plain => exact absurd hoption hshape
      | doubleDash =>
        rw [parseRest_of_doubleDash hoption] at h
        obtain ⟨operands, hspells, hcommand⟩ := ih h
        exact ⟨operands, .doubleDash hoption hspells, hcommand⟩
      | longOption name =>
        rw [parseRest.eq_def] at h
        simp only [Bool.false_eq_true, if_false, hoption] at h
        split at h <;> cases h
      | shortOption first =>
        rw [parseRest.eq_def] at h
        simp only [Bool.false_eq_true, if_false, hoption] at h
        split at h <;> cases h

/-! ### Whole command lines -/

/-- The name of a command looks like no option and does not ask for help. -/
theorem shape_of_verb? {name : ByteArray} (h : verb? name = some verb) :
    shape name = .plain ∧ name ≠ "help".toUTF8 := by
  have hname : name = "make".toUTF8 ∨ name = "get".toUTF8 ∨ name = "dump".toUTF8 ∨
      name = "stats".toUTF8 ∨ name = "uniq".toUTF8 := by
    unfold verb? at h
    grind
  rcases hname with rfl | rfl | rfl | rfl | rfl <;> decide

/-- The arguments behind the name of a command are read as its operands. -/
theorem parse_of_verb? {name : ByteArray} (h : verb? name = some verb) (args : List ByteArray) :
    parse (name :: args) = parseRest verb false verb.tests [] args := by
  obtain ⟨hshape, hhelp⟩ := shape_of_verb? h
  rw [parse.eq_def]
  simp only [hshape, if_neg hhelp, h]

/-- A command line without options runs the command that it names with the operands that it has, or
it makes no sense. -/
theorem parse_of_spells {name : ByteArray} (hname : verb? name = some verb)
    (h : Spells false args operands) : parse (name :: args) = ask verb operands := by
  rw [parse_of_verb? hname, parseRest_of_spells h, List.reverse_nil, List.nil_append]
  cases hcommand : verb.command? operands with
  | none => rw [ask, hcommand, ite_self]
  | some command => rw [if_pos (passes_of_command? hcommand)]

/-- Only a name of a verb makes a command line that runs something. -/
private theorem exists_verb_of_parse {name : ByteArray} (h : parse (name :: args) = .run command) :
    ∃ verb, verb? name = some verb := by
  cases hname : verb? name with
  | some verb => exact ⟨verb, rfl⟩
  | none =>
    rw [parse.eq_def] at h
    simp only [hname] at h
    repeat' split at h
    all_goals cases h

/-- A command line runs a command just when it has the name of a verb and the operands of that
command. -/
theorem parse_eq_run_iff {line : List ByteArray} :
    parse line = .run command ↔
      ∃ name args verb operands, line = name :: args ∧ verb? name = some verb ∧
        Spells false args operands ∧ verb.command? operands = some command := by
  constructor
  · intro h
    cases line with
    | nil => cases h
    | cons name args =>
      obtain ⟨verb, hname⟩ := exists_verb_of_parse h
      rw [parse_of_verb? hname] at h
      obtain ⟨operands, hspells, hcommand⟩ := exists_spells_of_parseRest h
      exact ⟨name, args, verb, operands, rfl, hname, hspells, hcommand⟩
  · rintro ⟨name, args, verb, operands, rfl, hname, hspells, hcommand⟩
    rw [parse_of_spells hname hspells, ask, hcommand]

end ConstDb.Arguments
