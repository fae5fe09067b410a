import ConstDb.Proofs.Builder.Create
import ConstDb.Proofs.Session.Steps

/-! # Who owns temporary files

In every session a builder at work holds the handle of a temporary file, and no two builders hold
the same.  A step that ends the life of a builder takes its temporary file away, unless this is
stranded; so as long as none is, every temporary file belongs to a builder at work.

## Key results

- `Session.orderly_run`: builders hold good handles, and no two the same
- `Session.serial_ne_of_ended`: an ended builder leaves no temporary file
- `Session.owned_run`: every temporary file belongs to a builder at work
-/

namespace ConstDb

/-- The builder whose life a step may end. -/
def Step.ended? : Step → Option Nat
  | .build n _ _ => some n
  | .drop n => some n
  | .builder n step => if step.ends then some n else none
  | _ => none

namespace Session

variable {s : Session} {n : Nat} {t : TemporaryHandle}

/-- Whether a builder is at work with a temporary file. -/
def Holds (s : Session) (n : Nat) (t : TemporaryHandle) : Prop :=
  ∃ b, s.builders.lookup n = some b ∧ b.state = .building t

/-! ### Handles that stay and handles that are new -/

/-- Only a builder that was at work is at work after a step with it, which did not end its life. -/
private theorem state_of_stepBuilder {b : Builder} {space : FileSpace} {step : BuilderStep}
    (h : (stepBuilder b space step).1.state = .building t) :
    b.state = .building t ∧ step.ends = false := by
  cases hends : step.ends with
  | false =>
    rw [(stepBuilder_of_not_ends hends b space).1] at h
    exact ⟨h, rfl⟩
  | true =>
    exfalso
    rcases b.temporary_cases with ⟨t', hstate, -⟩ | ⟨hended, -⟩
    · obtain rfl | rfl := BuilderStep.eq_of_ends hends
      · simp only [stepBuilder, Builder.finish_of_building hstate] at h
        split at h <;> cases h
      · simp only [stepBuilder, Builder.cancel_of_building hstate] at h
        cases h
    · rw [(stepBuilder_of_ended hended space step).1] at h
      rw [Builder.isBuilding, h] at hended
      cases hended

/-- A new builder holds a good handle with a new serial number. -/
private theorem knows_of_open {s s' : FileSpace} (hs : s.Sound) {path : Path} {mode : Option Nat}
    {b : Builder} (h : Builder.open s path mode = .ok (b, s')) (hb : b.state = .building t) :
    t.directory = path.directory ∧ s.serials ≤ t.serial ∧ s'.Knows t := by
  obtain ⟨bits, loc, -, hdirectory, rfl, rfl⟩ := Builder.open_cases h
  cases hb
  exact ⟨rfl, Nat.le_refl _, FileSpace.knows_withTemporary hs hdirectory _⟩

/-- A builder that is at work after a step was at work before, and the step did not end its life; or
it was just opened. -/
theorem holds_step {step : Step} (hs : s.space.Sound) (h : Holds (s.step step).1 n t) :
    (Holds s n t ∧ step.ended? ≠ some n) ∨
      (∃ path mode, step = .build n path mode ∧ t.directory = path.directory) ∧
        s.space.serials ≤ t.serial ∧ (s.step step).1.space.Knows t := by
  obtain ⟨b, hlookup, hstate⟩ := h
  -- Of the steps about this builder only opening it gives it a temporary file.
  by_cases habout : step.builder? = some n
  · cases step with
    | build m path mode =>
      cases habout
      have hdrop : FileSpace.Changes ⟨False, False, False⟩ s.space (s.dropBuilder n).space :=
        s.changes_dropBuilder n
      simp only [Session.step, build_eq] at hlookup ⊢
      cases hopen : Builder.open (s.dropBuilder n).space path mode with
      | error e =>
        rw [hopen] at hlookup
        simp only [lookup_builders_dropBuilder, if_true, reduceCtorEq] at hlookup
      | ok opened =>
        obtain ⟨b', space⟩ := opened
        rw [hopen] at hlookup
        simp only [lookup_putAt_self, Option.some.injEq] at hlookup
        subst hlookup
        obtain ⟨hdirectory, hserial, hknows⟩ := knows_of_open (hs.of_changes hdrop) hopen hstate
        exact .inr ⟨⟨path, mode, rfl, hdirectory⟩,
          Nat.le_trans (FileSpace.temporaries_or_serials_le hdrop).1 hserial, hknows⟩
    | drop m =>
      cases habout
      simp only [Session.step, lookup_builders_dropBuilder, if_true, reduceCtorEq] at hlookup
    | builder m step =>
      cases habout
      simp only [Session.step, lookup_builders_workOn, if_true] at hlookup
      obtain ⟨b', hlookup', rfl⟩ := Option.map_eq_some_iff.1 hlookup
      obtain ⟨hstate', hends⟩ := state_of_stepBuilder hstate
      exact .inl ⟨⟨b', hlookup', hstate'⟩, by simp [Step.ended?, hends]⟩
    | _ => cases habout
  · -- The step is about another builder, so it does not end the life of this one.
    rw [lookup_builders_step s habout] at hlookup
    refine .inl ⟨⟨b, hlookup, hstate⟩, fun hended => habout ?_⟩
    cases step with
    | build m path mode => exact hended
    | drop m => exact hended
    | builder m step =>
      rw [Step.ended?] at hended
      split at hended
      · exact hended
      · cases hended
    | _ => cases hended

/-- A builder at work stays at work in a step that does not end its life. -/
theorem Holds.step {step : Step} (h : Holds s n t) (hended : step.ended? ≠ some n) :
    Holds (s.step step).1 n t := by
  obtain ⟨b, hlookup, hstate⟩ := h
  by_cases habout : step.builder? = some n
  · cases step with
    | build m path mode => exact absurd habout hended
    | drop m => exact absurd habout hended
    | builder m step =>
      cases habout
      have hends : step.ends = false := by simpa [Step.ended?] using hended
      refine ⟨(stepBuilder b s.space step).1, ?_, ?_⟩
      · simp only [Session.step, lookup_builders_workOn, if_true, hlookup, Option.map_some]
      · rw [(stepBuilder_of_not_ends hends b s.space).1]
        exact hstate
    | _ => cases habout
  · exact ⟨b, by rw [lookup_builders_step s habout, hlookup], hstate⟩

/-! ### Order among builders -/

/-- What holds of the handles in every session. -/
structure Orderly (s : Session) : Prop where
  sound : s.space.Sound
  /-- Builders hold good handles. -/
  knows : ∀ n t, s.Holds n t → s.space.Knows t
  /-- No two builders hold the same. -/
  apart : ∀ m n t u, s.Holds m t → s.Holds n u → t.serial = u.serial → m = n

theorem Orderly.step (h : s.Orderly) (step : Step) : (s.step step).1.Orderly := by
  have hchanges := s.changes_step step
  refine ⟨h.sound.of_changes hchanges, ?_, ?_⟩
  · intro n t hn
    rcases holds_step h.sound hn with ⟨hold, -⟩ | ⟨-, -, hknows⟩
    · exact (h.knows n t hold).of_changes hchanges
    · exact hknows
  · -- A handle that is new has a number that no older handle can have.
    intro m n t u hm hn hserial
    rcases holds_step h.sound hm with ⟨holdm, -⟩ | ⟨⟨path, mode, hbuildm, -⟩, hnewm, -⟩ <;>
      rcases holds_step h.sound hn with ⟨holdn, -⟩ | ⟨⟨path', mode', hbuildn, -⟩, hnewn, -⟩
    · exact h.apart m n t u holdm holdn hserial
    · have := (h.knows m t holdm).serial
      omega
    · have := (h.knows n u holdn).serial
      omega
    · rw [hbuildm] at hbuildn
      cases hbuildn
      rfl

/-- Every session that can come about is in order. -/
theorem orderly_run (clock : Nat → Nat) (steps : List Step) :
    ((start clock).run steps).2.Orderly := by
  have hstart : (start clock).Orderly := by
    refine ⟨FileSpace.sound_start topSize clock, ?_, ?_⟩
    · rintro n t ⟨b, hlookup, -⟩
      cases hlookup
    · rintro m n t u ⟨b, hlookup, -⟩
      cases hlookup
  exact invariant_run (I := Orderly) (fun s step _ hs => hs.step step) hstart
    (along_of_forall (fun _ _ => trivial) (start clock) steps)

/-! ### The end of a builder -/

/-- A step that ends the life of a builder leaves nothing of its temporary file, unless this is
stranded. -/
theorem serial_ne_of_ended {step : Step} (hs : s.Orderly) (h : s.Holds n t)
    (hended : step.ended? = some n)
    (hfree : ¬s.space.Stranded t) :
    ∀ u ∈ (s.step step).1.space.temporaries, u.serial ≠ t.serial := by
  have hknows := hs.knows n t h
  obtain ⟨b, hlookup, hstate⟩ := h
  have hdiscard := hknows.serial_ne_of_discard hfree
  have hdrop : (s.dropBuilder n).space = s.space.discardTemporary t := by
    simp only [space_dropBuilder, hlookup, Builder.drop_of_building hstate]
  cases step with
  | build m path mode =>
    cases hended
    have hchanges : FileSpace.Changes ⟨False, False, False⟩ s.space (s.dropBuilder n).space :=
      s.changes_dropBuilder n
    simp only [Session.step, build_eq]
    cases hopen : Builder.open (s.dropBuilder n).space path mode with
    | error e =>
      rw [hdrop]
      exact hdiscard
    | ok opened =>
      obtain ⟨b', space⟩ := opened
      -- The new temporary file has a new number, and the old one was discarded first.
      intro u hu
      have hopened : FileSpace.Changes ⟨False, True, False⟩ (s.dropBuilder n).space space :=
        Builder.changes_open trivial hopen
      rcases (FileSpace.temporaries_or_serials_le hopened).2 u hu with hu | hnew
      · rw [hdrop] at hu
        exact hdiscard u hu
      · have hserials := (FileSpace.temporaries_or_serials_le hchanges).1
        have hserial := hknows.serial
        omega
  | drop m =>
    cases hended
    rw [Session.step, hdrop]
    exact hdiscard
  | builder m step =>
    cases step with
    | finish =>
      cases hended
      rw [Session.step, workOn_of_lookup hlookup]
      simp only [stepBuilder, Builder.finish_of_building hstate]
      cases hreplace : s.space.replaceBy t b.path b.draft.image (b.mode % 0o10000) with
      | error fault => exact hdiscard
      | ok space => exact hknows.serial_ne_of_replaceBy hreplace
    | cancel =>
      cases hended
      rw [Session.step, workOn_of_lookup hlookup]
      simp only [stepBuilder, Builder.cancel_of_building hstate]
      exact hdiscard
    | _ => cases hended
  | _ => cases hended

/-- Whether a step ends no builder whose temporary file is stranded. -/
def Tidy (s : Session) (step : Step) : Prop :=
  ∀ n t, step.ended? = some n → s.Holds n t → ¬s.space.Stranded t

/-- Whether every temporary file belongs to a builder at work. -/
def Owned (s : Session) : Prop :=
  ∀ u ∈ s.space.temporaries, ∃ n t, s.Holds n t ∧ t.serial = u.serial

/-- A command leaves no temporary file. -/
theorem temporaries_perform {space : FileSpace} (hs : space.Sound) (settings : Settings)
    (stdin : ByteArray) (invocation : Invocation) :
    (invocation.perform space settings stdin).2.temporaries = space.temporaries := by
  generalize hperform : invocation.perform space settings stdin = performed
  rcases Invocation.perform_cases hperform with hsame | ⟨db, rs, ending, context, -, hbuilt⟩
  · rw [hsame]
  · rw [hbuilt]
    exact Builder.temporaries_create hs ..

/-- Only opening a builder makes a temporary file that stays. -/
theorem mem_temporaries_step {step : Step} (hs : s.space.Sound) {u : TemporaryFile}
    (hu : u ∈ (s.step step).1.space.temporaries) :
    u ∈ s.space.temporaries ∨
      ∃ n t, Holds (s.step step).1 n t ∧ t.serial = u.serial := by
  -- A build in one go opens a builder too, but the file of that one is gone when the step ends.
  by_cases hopens : step.opensBuilder
  · cases step with
    | build n path mode =>
      have hchanges : FileSpace.Changes ⟨False, False, False⟩ s.space (s.dropBuilder n).space :=
        s.changes_dropBuilder n
      have hdropped := FileSpace.temporaries_of_changes id hchanges
      simp only [Session.step, build_eq] at hu ⊢
      cases hopen : Builder.open (s.dropBuilder n).space path mode with
      | error e =>
        rw [hopen] at hu
        exact .inl (hdropped hu)
      | ok opened =>
        obtain ⟨b, space⟩ := opened
        rw [hopen] at hu
        obtain ⟨bits, loc, -, -, rfl, rfl⟩ := Builder.open_cases hopen
        rcases List.mem_cons.1 hu with rfl | hu
        · exact .inr ⟨n, _, ⟨_, lookup_putAt_self .., rfl⟩, rfl⟩
        · exact .inl (hdropped hu)
    | create path mode rs ending =>
      have htemporaries := Builder.temporaries_create hs path mode (.addAll rs (finale ending))
      exact .inl (htemporaries ▸ hu)
    | command args stdin settings =>
      have htemporaries := temporaries_perform hs settings stdin (Arguments.parse args)
      exact .inl (htemporaries ▸ hu)
    | _ => exact hopens.elim
  · exact .inl (FileSpace.temporaries_of_changes hopens (s.changes_step step) hu)

/-- As long as no builder with a stranded file ends, all temporary files belong to builders. -/
theorem Owned.step {step : Step} (h : s.Owned) (hs : s.Orderly) (htidy : s.Tidy step) :
    (s.step step).1.Owned := by
  intro u hu
  rcases mem_temporaries_step hs.sound hu with hold | hnew
  · -- Its owner is still at work: otherwise the file would be gone.
    obtain ⟨n, t, hholds, hserial⟩ := h u hold
    by_cases hended : step.ended? = some n
    · exact absurd hserial.symm (serial_ne_of_ended hs hholds hended (htidy n t hended hholds) u hu)
    · exact ⟨n, t, hholds.step hended, hserial⟩
  · exact hnew

theorem owned_run {clock : Nat → Nat} {steps : List Step} (h : (start clock).Along Tidy steps) :
    ((start clock).run steps).2.Owned := by
  have hstart : (start clock).Orderly ∧ (start clock).Owned :=
    ⟨orderly_run clock [], fun u hu => absurd hu List.not_mem_nil⟩
  exact (invariant_run (I := fun s => s.Orderly ∧ s.Owned)
    (fun s step htidy hI => ⟨hI.1.step step, hI.2.step hI.1 htidy⟩) hstart h).2

/-- Where the directories of all targets are named without going up, no temporary file is ever
stranded. -/
theorem tidy_of_plain {clock : Nat → Nat} {steps : List Step}
    (hplain : ∀ n path mode, Step.build n path mode ∈ steps →
      Path.dotDot ∉ path.directory.names) : (start clock).Along Tidy steps := by
  -- What goes along the run is that no builder at work has a directory that is named so.
  have hrun {s : Session} (hs : s.Orderly)
      (hheld : ∀ n t, s.Holds n t → Path.dotDot ∉ t.directory.names) : s.Along Tidy steps := by
    induction steps generalizing s with
    | nil => trivial
    | cons step rest ih =>
      refine ⟨fun n t _ hholds => (hs.knows n t hholds).not_stranded_of_plain hs.sound
        (hheld n t hholds), ?_⟩
      refine ih (fun n path mode hmem => hplain n path mode (List.mem_cons_of_mem _ hmem))
        (hs.step step) fun n t hholds => ?_
      rcases holds_step hs.sound hholds with ⟨hold, -⟩ | ⟨⟨path, mode, rfl, hdirectory⟩, -⟩
      · exact hheld n t hold
      · rw [hdirectory]
        exact hplain n path mode List.mem_cons_self
  exact hrun (orderly_run clock []) fun n t ⟨b, hlookup, _⟩ => by cases hlookup

end Session

end ConstDb
