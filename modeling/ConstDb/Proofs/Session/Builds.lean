import ConstDb.Proofs.Session.Accounts

/-! # Builds side by side

Any number of builders may work in one session, several of them on one target.  None of them sees
the others: a builder that finishes puts its own file at its target, whole, and touches no other
file.  Until then it touches no file at all.

## Key results

- `Session.builds_do_not_interfere`: what finishes, builds in one go and all other steps with
  builders and readers do to the files
- `Session.file?_of_spares`: a file stays until something else is put in its place
-/

namespace ConstDb.Session

variable {s : Session} {path : Path}

/-- Whether a step commits nothing at the location of a path, and is no step that works on files by
other means than a build. -/
def Spares (path : Path) (s : Session) : Step → Prop
  | .builder n .finish =>
    ∀ answer b, (s.step (.builder n .finish)).2 = .ok answer → s.builders.lookup n = some b →
      s.space.locate b.path ≠ s.space.locate path
  | .create target mode rs ending =>
    s.space.locate target ≠ s.space.locate path ∨
      ending.finishes = false ∧ ∃ e, (s.step (.create target mode rs ending)).2 = .error e
  | step => step.isQuiet = true

/-- A step that commits nothing at the location of a path leaves its file alone. -/
theorem file?_of_spares (hs : s.space.Sound) {step : Step} (h : Spares path s step) :
    (s.step step).1.space.file? path = s.space.file? path := by
  have same {space : FileSpace} (hnodes : space.nodes = s.space.nodes) :
      space.file? path = s.space.file? path := by
    rw [FileSpace.file?, FileSpace.file?, FileSpace.stat_of_nodes hnodes]
  -- Only a build in one go and a `finish` can commit; all other steps that spare the path are
  -- quiet.
  cases step with
  | create target mode rs ending =>
    rcases replaces_of_create hs target mode rs ending with ⟨hnodes, -⟩ | ⟨hcommitted, f, hf⟩
    · exact same hnodes
    · rcases h with hother | ⟨hfinishes, e, he⟩
      · exact hf.other path (Ne.symm hother)
      · rcases hcommitted with hcommitted | hcommitted
        · cases hfinishes.symm.trans hcommitted
        · cases he.symm.trans hcommitted
  | builder n step =>
    cases step with
    | finish =>
      cases hreply : (s.step (.builder n .finish)).2 with
      | error e => exact same (nodes_step_finish_of_error hreply)
      | ok answer =>
        obtain ⟨b, t, hlookup, -, hreplace, -⟩ := step_finish_eq_ok hreply
        exact FileSpace.file?_of_replaceBy hreplace (Ne.symm (h answer b hreply hlookup))
    | _ => exact same (s.nodes_step rfl)
  | _ => exact same (s.nodes_step h)

/-- So does a run of such steps. -/
theorem stat_of_spares {f : File} (hs : s.space.Sound) {rest : List Step}
    (hstat : s.space.stat path = .ok (.file f)) (h : s.Along (Spares path) rest) :
    (s.run rest).2.space.stat path = .ok (.file f) := by
  have hkeeps := invariant_run (I := fun s => s.space.Sound ∧ s.space.file? path = some f)
    (fun s step hspares hI => ⟨hI.1.of_changes (s.changes_step step),
      (file?_of_spares hI.1 hspares).trans hI.2⟩)
    ⟨hs, FileSpace.file?_eq_some.2 hstat⟩ h
  exact FileSpace.file?_eq_some.1 hkeeps.2

/-- Builds do not interfere, in whatever order the steps of a session come.

A `finish` that succeeds puts the file that the account of the builder asks for at its target: its
bytes are those that a builder on its own commits when it is given just the records that this one
accepted, and its permission bits are those that were asked for, or else those of the file that was
at the target when the builder was opened, or else the default ones.  The same holds of a build in
one go, which otherwise leaves all files alone.  No other file is touched.  All other steps with
builders and readers touch no file at all.  So the file of a builder stays at its target until
something else is put there. -/
theorem builds_do_not_interfere (clock : Nat → Nat) (steps : List Step) :
    let s := ((start clock).run steps).2
    (∀ n answer, (s.step (.builder n .finish)).2 = .ok answer →
      ∃ a f, account clock n steps = some a ∧
        a.Replaces s.space (s.step (.builder n .finish)).1.space f ∧
        ∀ rest, (s.step (.builder n .finish)).1.Along (Spares a.path) rest →
          ((s.step (.builder n .finish)).1.run rest).2.space.stat a.path = .ok (.file f)) ∧
    (∀ path mode rs ending,
      ((∀ q, (s.step (.create path mode rs ending)).1.space.stat q = s.space.stat q) ∧
        ∃ e, (s.step (.create path mode rs ending)).2 = .error e) ∨
      ∃ f, Account.Replaces { Account.new s.space path mode with records := rs } s.space
          (s.step (.create path mode rs ending)).1.space f ∧
        ∀ rest, (s.step (.create path mode rs ending)).1.Along (Spares path) rest →
          ((s.step (.create path mode rs ending)).1.run rest).2.space.stat path =
            .ok (.file f)) ∧
    ∀ step, step.isQuiet = true → ∀ q, (s.step step).1.space.stat q = s.space.stat q := by
  intro s
  have hs : s.space.Sound := sound_run clock steps
  have hstep (step : Step) : (s.step step).1.space.Sound := hs.of_changes (s.changes_step step)
  refine ⟨?_, ?_, ?_⟩
  · intro n answer hreply
    obtain ⟨a, f, haccount, hf⟩ := replaces_of_finish (tells_account clock n steps) hreply
    exact ⟨a, f, haccount, hf, fun rest hrest => stat_of_spares (hstep _) hf.stat hrest⟩
  · intro path mode rs ending
    rcases replaces_of_create hs path mode rs ending with ⟨hnodes, he⟩ | ⟨-, f, hf⟩
    · exact .inl ⟨fun q => FileSpace.stat_of_nodes hnodes q, he⟩
    · exact .inr ⟨f, hf, fun rest hrest => stat_of_spares (hstep _) hf.stat hrest⟩
  · intro step hquiet q
    exact FileSpace.stat_of_nodes (s.nodes_step hquiet) q

/-! ### Two builders on one target

Both are opened in an empty directory.  One of them finishes without records, and then the other one
with three. -/

namespace Sample

/-- The steps before the second builder finishes. -/
def steps : List Step :=
  [.build 0 ⟨[0x61]⟩ none, .build 1 ⟨[0x61]⟩ none, .builder 0 (.addMany Builder.Sample.records),
    .builder 1 .finish]

/-- The sessions in which one builder and then both are at work. -/
def one : Session := ⟨Builder.Sample.opened, [(0, Builder.Sample.builder)], []⟩

def two : Session :=
  ⟨{ FileSpace.empty 15 with temporaries := [⟨[], "a", 1⟩, ⟨[], "a", 0⟩], serials := 2 },
    [(1, ⟨⟨[0x61]⟩, defaultMode, .building ⟨.here, "a", 1⟩, .empty⟩),
      (0, Builder.Sample.builder)], []⟩

theorem build_first : empty.build 0 ⟨[0x61]⟩ none = (one, .ok .unit) := by
  rw [build_eq, show (empty.dropBuilder 0).space = .empty 15 from rfl, Builder.Sample.open_eq]
  rfl

theorem build_second : one.build 1 ⟨[0x61]⟩ none = (two, .ok .unit) := by
  simp only [build_eq, Builder.open, Builder.Sample.fileName_eq]
  rfl

theorem run_steps : (empty.run steps).2 = (two.run (steps.drop 2)).2 := by
  simp only [steps, Session.run, Session.step, build_first, build_second, List.drop]

theorem finish_reply : ((empty.run steps).2.step (.builder 0 .finish)).2 = .ok .unit := by
  rw [run_steps]
  rfl

theorem account_eq : account id 0 steps = some ⟨⟨[0x61]⟩, none, none, Builder.Sample.records⟩ := by
  have hstart : start id = empty := rfl
  simp only [account, hstart, steps, accountFrom, note, Session.step, build_first, build_second]
  rfl

end Sample

/-- The file of the second one is at the target, and it stays when both builders are let go of. -/
theorem builds_do_not_interfere_of_two :
    let s := ((empty.run Sample.steps).2.step (.builder 0 .finish)).1
    ∃ f, s.space.stat ⟨[0x61]⟩ = .ok (.file f) ∧
      f.bytes = (Draft.ofRecords Builder.Sample.records).image ∧ f.mode = 0o400 ∧
      (s.run [.drop 0, .drop 1]).2.space.stat ⟨[0x61]⟩ = .ok (.file f) := by
  obtain ⟨a, f, haccount, hf, hrest⟩ :=
    (builds_do_not_interfere id Sample.steps).1 0 .unit Sample.finish_reply
  cases haccount.symm.trans Sample.account_eq
  exact ⟨f, hf.stat, hf.bytes, hf.fresh rfl rfl, hrest _ ⟨rfl, rfl, trivial⟩⟩

end ConstDb.Session
