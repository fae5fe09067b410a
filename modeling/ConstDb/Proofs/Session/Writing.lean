import ConstDb.Proofs.FileSpace.Versions
import ConstDb.Proofs.Session.Steps

/-! # Steps that write

Five kinds of steps put new files somewhere: the session itself writes files, also such as it made
from others, builders finish, and databases are built in one go, by a call or by a command.  Each of
these puts one file at one place, or leaves all files alone (`Session.writes_cases`).

So the file that is at a place after a run is the one that was there before, as long as no step
wrote there, or else the one that the last such step put there (`Session.origin_of_run`).

A new file has the time that the clock shows.  Whether it can be told from the files that were there
before by its size and its time, as a reader would do it, depends on the clock
(`Session.Discernible`); it can if the clock shows no time twice.

## Key results

- `Session.writes_cases`: what a step that may write does to the files
- `Session.kept_of_not_writes`: a file stays when nothing is written at its place
- `Session.writes_iff_stamp`: what was written has the time of the next new file
- `Session.origin_of_run`: where the file at a place came from
- `Session.discernible_of_injective`: new files can be told apart if no time is shown twice
-/

namespace ConstDb.Session

variable {s : Session} {n : Nat} {path : Path} {step : Step} {f f' : File}

/-! ### Writing -/

/-- Whether a step puts a new file at the place of a path. -/
def Writes (path : Path) (s : Session) : Step → Prop
  | .write target data =>
    (∃ answer, (s.step (.write target data)).2 = .ok answer) ∧
      s.space.locate target = .ok path.place
  | .patch source target edits resize tail =>
    (∃ answer, (s.step (.patch source target edits resize tail)).2 = .ok answer) ∧
      s.space.locate target = .ok path.place
  | .builder n .finish =>
    (∃ answer, (s.step (.builder n .finish)).2 = .ok answer) ∧
      ∃ b, s.builders.lookup n = some b ∧ s.space.locate b.path = .ok path.place
  | .create target mode rs ending =>
    Builder.Replaces s.space target mode (.addAll rs (finale ending)) ∧
      s.space.locate target = .ok path.place
  | .command args stdin settings =>
    ∃ command db, Arguments.parse args = .run command ∧
      command.Replaces s.space settings stdin db ∧ s.space.locate db = .ok path.place
  | _ => False

/-- Whether a step puts a new file at one place and writes just there. -/
def Installs (s : Session) (step : Step) : Prop :=
  ∃ loc bytes mode, s.space.node? loc ≠ some .directory ∧
    (s.step step).1.space.nodes = (s.space.install loc bytes mode).nodes ∧
    ∀ path, Writes path s step ↔ path.place = loc

/-- Whether a step leaves all files alone and writes nowhere. -/
def Passes (s : Session) (step : Step) : Prop :=
  (s.step step).1.space.nodes = s.space.nodes ∧ ∀ path, ¬Writes path s step

/-- What writes at the location of one path if it goes well puts its file there, or leaves all files
alone. -/
private theorem passes_or_installs {target : Path} {succeeds : Prop}
    (hwrites : ∀ path, Writes path s step ↔ succeeds ∧ s.space.locate target = .ok path.place)
    (h : (¬succeeds ∧ (s.step step).1.space.nodes = s.space.nodes) ∨
      succeeds ∧ ∃ loc bytes mode, s.space.locate target = .ok loc ∧
        s.space.node? loc ≠ some .directory ∧
        (s.step step).1.space.nodes = (s.space.install loc bytes mode).nodes) :
    s.Passes step ∨ s.Installs step := by
  obtain ⟨hnot, hnodes⟩ | ⟨hsucceeds, loc, bytes, mode, hlocate, hfile, hnodes⟩ := h
  · exact .inl ⟨hnodes, fun path hpath => hnot ((hwrites path).1 hpath).1⟩
  · refine .inr ⟨loc, bytes, mode, hfile, hnodes, fun path => ?_⟩
    rw [hwrites, hlocate, Except.ok.injEq]
    exact ⟨fun h => h.2.symm, fun h => ⟨hsucceeds, h.symm⟩⟩

/-- A write of the session puts its file at its path, or fails. -/
private theorem write_cases (s : Session) (target : Path) (bytes : ByteArray) :
    ((s.changed (s.space.write target bytes writtenMode)).2 = .error .absent ∧
        (s.changed (s.space.write target bytes writtenMode)).1.space.nodes = s.space.nodes) ∨
      (s.changed (s.space.write target bytes writtenMode)).2 = .ok .unit ∧
        ∃ loc bytes' mode, s.space.locate target = .ok loc ∧
          s.space.node? loc ≠ some .directory ∧
          (s.changed (s.space.write target bytes writtenMode)).1.space.nodes =
            (s.space.install loc bytes' mode).nodes := by
  cases hwrite : s.space.write target bytes writtenMode with
  | error fault => exact .inl ⟨rfl, rfl⟩
  | ok space =>
    obtain ⟨loc, hlocate, hfile, rfl⟩ := FileSpace.write_eq_ok hwrite
    exact .inr ⟨rfl, loc, bytes, writtenMode, hlocate, hfile, rfl⟩

theorem step_write_of_ok {target : Path} {data : ByteArray} {space : FileSpace}
    (h : s.space.write target data writtenMode = .ok space) :
    s.step (.write target data) = ({ s with space := space }, .ok .unit) := by
  rw [Session.step, h, changed]

/-- A step that may write puts one new file at one place, or leaves all files alone. -/
theorem writes_cases (s : Session) (h : step.writesFile) : s.Passes step ∨ s.Installs step := by
  cases step with
  | write target data =>
    refine passes_or_installs (fun path => Iff.rfl) ?_
    rw [Session.step]
    obtain ⟨hreply, hnodes⟩ | ⟨hreply, hinstalled⟩ := s.write_cases target data
    · exact .inl ⟨by simp [hreply], hnodes⟩
    · exact .inr ⟨⟨_, hreply⟩, hinstalled⟩
  | patch source target edits resize tail =>
    refine passes_or_installs (fun path => Iff.rfl) ?_
    rw [step_patch_fst]
    cases hsource : s.space.readable? source with
    | none => exact .inl ⟨by simp [Session.step, hsource], rfl⟩
    | some f =>
      simp only [Session.step, hsource]
      generalize patched f.bytes edits resize tail = bytes
      have hcases := s.write_cases target bytes
      generalize s.changed (s.space.write target bytes writtenMode) = result at hcases ⊢
      obtain ⟨s', reply⟩ := result
      obtain ⟨rfl, hnodes⟩ | ⟨rfl, hinstalled⟩ := hcases
      · exact .inl ⟨by simp, hnodes⟩
      · exact .inr ⟨⟨_, rfl⟩, hinstalled⟩
  | builder n step =>
    cases step with
    | finish =>
      cases hreply : (s.step (.builder n .finish)).2 with
      | error e =>
        refine .inl ⟨nodes_step_finish_of_error hreply, ?_⟩
        rintro path ⟨⟨answer, hok⟩, -⟩
        cases hreply.symm.trans hok
      | ok answer =>
        obtain ⟨b, t, hlookup, -, hreplace, -⟩ := step_finish_eq_ok hreply
        obtain ⟨loc, u, -, hlocate, hfile, -, -, hspace⟩ := FileSpace.replaceBy_eq_ok.1 hreplace
        refine .inr ⟨loc, b.draft.image, b.mode % 0o10000, hfile, by rw [hspace]; rfl,
          fun path => ?_⟩
        simp only [Writes, hreply, hlookup, hlocate, Except.ok.injEq, exists_eq', true_and,
          Option.some.injEq, exists_eq_left', eq_comm]
    | _ => exact h.elim
  | create target mode rs ending =>
    refine passes_or_installs (fun path => Iff.rfl) ?_
    exact Builder.replaces_cases s.space target mode (.addAll rs (finale ending))
  | command args stdin settings =>
    cases hparse : Arguments.parse args with
    | run command =>
      have hspace : (s.step (.command args stdin settings)).1.space =
          (command.run s.space settings stdin).2 := by
        rw [Session.step, hparse]
        rfl
      rw [Passes, Installs, hspace]
      generalize hrun : command.run s.space settings stdin = result
      obtain ⟨outcome, space⟩ := result
      rcases Command.replaces_cases hrun with
        ⟨hnodes, hnone⟩ | ⟨db, loc, bytes, bits, hone, hlocate, hfile, hnodes⟩
      · refine .inl ⟨hnodes, ?_⟩
        rintro path ⟨command', db, hparse', hreplaces, -⟩
        cases hparse.symm.trans hparse'
        exact hnone db hreplaces
      · refine .inr ⟨loc, bytes, bits, hfile, hnodes, fun path => ?_⟩
        constructor
        · rintro ⟨command', db', hparse', hreplaces, hlocate'⟩
          cases hparse.symm.trans hparse'
          obtain rfl := (hone db').1 hreplaces
          cases hlocate.symm.trans hlocate'
          rfl
        · rintro rfl
          exact ⟨command, db, hparse, (hone db).2 rfl, hlocate⟩
    | _ =>
      refine .inl ⟨by rw [Session.step, hparse]; rfl, ?_⟩
      rintro path ⟨command, db, hparse', -⟩
      cases hparse.symm.trans hparse'
  | _ => exact h.elim

/-- Only steps of these kinds write. -/
theorem Writes.writesFile (h : Writes path s step) : step.writesFile := by
  cases step with
  | builder n step =>
    cases step with
    | finish => trivial
    | _ => exact h.elim
  | write | patch | create | command => trivial
  | _ => exact h.elim

/-- What a step writes has the time that the clock shows. -/
theorem Writes.file (h : Writes path s step) :
    ∃ f, (s.step step).1.space.node? path.place = some (.file f) ∧ f.time = s.space.stamp := by
  obtain ⟨-, hnone⟩ | ⟨loc, bytes, mode, hfile, hnodes, hone⟩ := s.writes_cases h.writesFile
  · exact absurd h (hnone path)
  · rw [FileSpace.node?_of_nodes hnodes, (hone path).1 h,
      FileSpace.node?_install_self (FileSpace.ne_nil_of_not_directory hfile)]
    exact ⟨_, rfl, rfl⟩

/-- Where a step does not write, a file that is there was there before, with the bytes and the time
that it had. -/
theorem kept_of_not_writes (h : ¬Writes path s step) (htime : ¬step.setsTime)
    (hf' : (s.step step).1.space.node? path.place = some (.file f')) :
    ∃ f, s.space.node? path.place = some (.file f) ∧ f.bytes = f'.bytes ∧ f.time = f'.time := by
  by_cases hwrites : step.writesFile
  · obtain ⟨hnodes, -⟩ | ⟨loc, bytes, mode, hfile, hnodes, hone⟩ := s.writes_cases hwrites
    · rw [FileSpace.node?_of_nodes hnodes] at hf'
      exact ⟨f', hf', rfl, rfl⟩
    · have hne : path.place ≠ loc := fun heq => h ((hone path).2 heq)
      rw [FileSpace.node?_of_nodes hnodes, FileSpace.node?_install_of_ne hne] at hf'
      exact ⟨f', hf', rfl, rfl⟩
  · exact FileSpace.kept_of_changes hwrites htime (s.changes_step step) hf'

/-! ### Runs -/

/-- Whether some step of a run writes at a path. -/
def Written (path : Path) (s : Session) (steps : List Step) : Prop :=
  ∃ before step, before ++ [step] <+: steps ∧ Writes path (s.run before).2 step

theorem run_concat (s : Session) (steps : List Step) (step : Step) :
    (s.run (steps ++ [step])).2 = ((s.run steps).2.step step).1 := by
  rw [run_append]
  rfl

theorem written_concat {steps : List Step} :
    Written path s (steps ++ [step]) ↔
      Written path s steps ∨ Writes path (s.run steps).2 step := by
  constructor
  · rintro ⟨before, last, hinit, hwrites⟩
    rcases List.prefix_concat_iff.1 hinit with heq | hinit
    · obtain ⟨rfl, hlast⟩ := List.append_inj' heq rfl
      cases hlast
      exact .inr hwrites
    · exact .inl ⟨before, last, hinit, hwrites⟩
  · rintro (⟨before, last, hinit, hwrites⟩ | hwrites)
    · exact ⟨before, last, hinit.trans (List.prefix_append ..), hwrites⟩
    · exact ⟨steps, step, List.prefix_refl _, hwrites⟩

/-- Where no time is set by hand, a run leads to a later space of files. -/
theorem later_run (s : Session) {rest : List Step} (h : ∀ step ∈ rest, ¬step.setsTime) :
    FileSpace.Later s.space (s.run rest).2.space :=
  invariant_run (I := fun t => FileSpace.Later s.space t.space)
    (fun t step hstep ht => ht.trans (FileSpace.later_of_changes hstep (t.changes_step step)))
    (.refl s.space) (along_of_mem h s)

/-- A file that is at a place after a run was there before and nothing was written there, or the
last step that wrote there put it there. -/
theorem origin_of_run {steps : List Step} (htimes : ∀ step ∈ steps, ¬step.setsTime)
    (hf' : (s.run steps).2.space.node? path.place = some (.file f')) :
    (¬Written path s steps ∧ ∃ f, s.space.node? path.place = some (.file f) ∧
        f.bytes = f'.bytes ∧ f.time = f'.time) ∨
      ∃ before step, before ++ [step] <+: steps ∧ Writes path (s.run before).2 step ∧
        ∃ f, (s.run (before ++ [step])).2.space.node? path.place = some (.file f) ∧
          f.bytes = f'.bytes ∧ f.time = f'.time := by
  -- The last step wrote there, or the file was there before it.
  induction steps using List.reverseRecOn generalizing f' with
  | nil =>
    refine .inl ⟨?_, f', hf', rfl, rfl⟩
    rintro ⟨before, step, hinit, -⟩
    simp at hinit
  | append_singleton steps step ih =>
    obtain ⟨htimes, hlast⟩ := List.forall_mem_append.1 htimes
    by_cases hwrites : Writes path (s.run steps).2 step
    · exact .inr ⟨steps, step, List.prefix_refl _, hwrites, f', hf', rfl, rfl⟩
    · rw [run_concat] at hf'
      obtain ⟨f, hf, hbytes, htime⟩ :=
        kept_of_not_writes hwrites (hlast step (List.mem_singleton_self _)) hf'
      rcases ih htimes hf with ⟨hnot, g, hg, hbytes', htime'⟩ |
        ⟨before, step', hinit, hwrites', g, hg, hbytes', htime'⟩
      · refine .inl ⟨fun hwritten => ?_, g, hg, hbytes'.trans hbytes, htime'.trans htime⟩
        exact (written_concat.1 hwritten).elim hnot hwrites
      · exact .inr ⟨before, step', hinit.trans (List.prefix_append ..), hwrites', g, hg,
          hbytes'.trans hbytes, htime'.trans htime⟩

/-- A session that can come about has stamped files, as long as no time is set by hand. -/
theorem stamped_run (clock : Nat → Nat) {steps : List Step} (h : ∀ step ∈ steps, ¬step.setsTime) :
    ((start clock).run steps).2.space.Stamped :=
  (FileSpace.stamped_start topSize clock).of_later (later_run (start clock) h)

/-- On a clock that shows no time twice, a step writes just where it leaves a file with the time of
the next new one. -/
theorem writes_iff_stamp {clock : Nat → Nat} (hclock : Function.Injective clock)
    {steps : List Step} (htimes : ∀ step ∈ steps, ¬step.setsTime) (htime : ¬step.setsTime) :
    let s := ((start clock).run steps).2
    Writes path s step ↔
      ∃ f, (s.step step).1.space.node? path.place = some (.file f) ∧ f.time = s.space.stamp := by
  intro s
  refine ⟨Writes.file, ?_⟩
  rintro ⟨f', hf', hstamp⟩
  by_contra hnot
  obtain ⟨f, hf, -, hsame⟩ := kept_of_not_writes hnot htime hf'
  have hinjective : Function.Injective s.space.clock := by
    rw [(later_run (start clock) htimes).clock]
    exact hclock
  exact (stamped_run clock htimes).stamp_ne hinjective hf (hsame.trans hstamp)

/-! ### Telling files apart -/

/-- Whether each file that a run writes at a path differs in size or in time from all files that
were there before. -/
def Discernible (path : Path) (s : Session) (steps : List Step) : Prop :=
  ∀ before step, before ++ [step] <+: steps → Writes path (s.run before).2 step →
    ∀ earlier, earlier <+: before → ∀ f g,
      (s.run earlier).2.space.node? path.place = some (.file f) →
      (s.run (before ++ [step])).2.space.node? path.place = some (.file g) →
      f.bytes.size = g.bytes.size → f.time ≠ g.time

/-- On a clock that shows no time twice they all do. -/
theorem discernible_of_injective {steps : List Step} (hs : s.space.Stamped)
    (hclock : Function.Injective s.space.clock) (htimes : ∀ step ∈ steps, ¬step.setsTime) :
    Discernible path s steps := by
  rintro before step hinit hwrites earlier ⟨mid, rfl⟩ f g hf hg - htime
  have hbefore : ∀ step' ∈ earlier ++ mid, ¬step'.setsTime := fun step' hstep' =>
    htimes step' (hinit.subset (List.mem_append_left _ hstep'))
  obtain ⟨hearlier, hmid⟩ := List.forall_mem_append.1 hbefore
  have hfirst := later_run s hearlier
  have hsecond := later_run (s.run earlier).2 hmid
  -- The older file has the time of an installation up to `earlier`, the new one that of the next.
  obtain ⟨k, hk, hstamp⟩ := hs.of_later hfirst path.place f hf
  obtain ⟨g', hg', hnew⟩ := hwrites.file
  rw [run_concat] at hg
  cases hg.symm.trans hg'
  rw [htime, hnew, FileSpace.stamp, run_append, hsecond.clock, hfirst.clock] at hstamp
  have hsame := hclock hstamp
  have hle := hsecond.installs
  omega

end ConstDb.Session
