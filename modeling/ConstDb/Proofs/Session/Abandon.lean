import ConstDb.Proofs.Session.Agree
import ConstDb.Proofs.Session.Owners

/-! # Abandoned builds

A build that fails or is given up leaves all files as they were, and its builder is over for good.
Its temporary file goes too, as long as the path of the directory that it was made in still leads
there.

## Key results

- `Session.leavesNoTrace_run`: what holds of abandoned and ended builders in every session
- `Session.temporary_stays`: a temporary file that stays, since its directory is named by going up
-/

namespace ConstDb

/-- Whether a step asks a builder for something that only one at work does. -/
def BuilderStep.needsWork : BuilderStep → Prop
  | .add _ => True
  | .addMany rs => rs ≠ []
  | .addZeros _ _ => True
  | .finish => True
  | .cancel => True
  | .status => False
  | .load _ => False

/-- Whether a step adds one record. -/
def BuilderStep.addsOne : BuilderStep → Prop
  | .add _ => True
  | .addZeros _ _ => True
  | _ => False

/-- Whether a step opens or drops a builder. -/
def Step.renews (n : Nat) : Step → Prop
  | .build m _ _ => m = n
  | .drop m => m = n
  | _ => False

namespace Session

variable {s : Session} {n : Nat} {b : Builder} {t : TemporaryHandle}

/-! ### Giving up a builder -/

/-- Whether a step cancels a builder, lets go of it, or fails to finish it. -/
def Abandons (s : Session) (n : Nat) : Step → Prop
  | .drop m => m = n
  | .builder m .cancel => m = n
  | .builder m .finish => m = n ∧ ∃ e, (s.step (.builder m .finish)).2 = .error e
  | _ => False

/-- A builder at work is dropped, or it is canceled and its temporary file discarded. -/
private theorem Abandons.cases {step : Step} (h : s.Abandons n step)
    (hlookup : s.builders.lookup n = some b) (hstate : b.state = .building t) :
    step = .drop n ∨ ∃ step', step = .builder n step' ∧
      (stepBuilder b s.space step').1 = { b with state := .canceled } ∧
      (stepBuilder b s.space step').2.1 = s.space.discardTemporary t := by
  -- A builder at work ends without a commit when it is dropped, canceled, or fails to finish.
  cases step with
  | drop m => exact .inl (congrArg Step.drop h)
  | builder m step =>
    cases step with
    | finish =>
      obtain ⟨rfl, e, he⟩ := h
      rw [Session.step, workOn_of_lookup hlookup] at he
      refine .inr ⟨.finish, rfl, ?_⟩
      simp only [stepBuilder, Builder.finish_of_building hstate] at he ⊢
      split at he
      · cases he
      · exact ⟨rfl, rfl⟩
    | cancel =>
      obtain rfl : m = n := h
      refine .inr ⟨.cancel, rfl, ?_⟩
      simp only [stepBuilder, Builder.cancel_of_building hstate, and_self]
    | _ => exact h.elim
  | _ => exact h.elim

/-- It discards the temporary file of a builder at work, and does nothing else to the files. -/
theorem Abandons.space {step : Step} (h : s.Abandons n step)
    (hlookup : s.builders.lookup n = some b) (hstate : b.state = .building t) :
    (s.step step).1.space = s.space.discardTemporary t := by
  obtain rfl | ⟨step', rfl, -, hspace⟩ := h.cases hlookup hstate
  · simp only [Session.step, space_dropBuilder, hlookup, Builder.drop_of_building hstate]
  · rw [Session.step, workOn_of_lookup hlookup, hspace]

/-- The builder is canceled if it is still there. -/
theorem Abandons.lookup {step : Step} (h : s.Abandons n step)
    (hlookup : s.builders.lookup n = some b) (hstate : b.state = .building t) :
    step = .drop n ∧ (s.step step).1.builders.lookup n = none ∨
      (s.step step).1.builders.lookup n = some { b with state := .canceled } := by
  obtain rfl | ⟨step', rfl, hcanceled, -⟩ := h.cases hlookup hstate
  · exact .inl ⟨rfl, by rw [Session.step, lookup_builders_dropBuilder, if_pos rfl]⟩
  · exact .inr (by rw [Session.step, workOn_of_lookup hlookup, lookup_putAt_self, hcanceled])

/-! ### Builders that are over -/

/-- A builder that is over stays as it is, as long as it is not opened anew or dropped. -/
theorem lookup_run_of_ended (hlookup : s.builders.lookup n = some b)
    (hended : b.isBuilding = false) {rest : List Step} (hrest : ∀ step ∈ rest, ¬step.renews n) :
    (s.run rest).2.builders.lookup n = some b := by
  induction rest generalizing s with
  | nil => exact hlookup
  | cons step rest ih =>
    have hkeeps := hrest step List.mem_cons_self
    have hstep : (s.step step).1.builders.lookup n = some b := by
      by_cases habout : step.builder? = some n
      · cases step with
        | builder m step =>
          cases habout
          rw [Session.step, lookup_builders_workOn, if_pos rfl, hlookup, Option.map_some,
            (stepBuilder_of_ended hended s.space step).1]
        | build m path mode => exact absurd (Option.some.inj habout) hkeeps
        | drop m => exact absurd (Option.some.inj habout) hkeeps
        | _ => cases habout
      · rw [lookup_builders_step s habout, hlookup]
    exact ih hstep fun step hstep => hrest step (List.mem_cons_of_mem _ hstep)

/-- It refuses what only a builder at work does. -/
theorem reply_of_ended (hlookup : s.builders.lookup n = some b) (hended : b.isBuilding = false)
    {step : BuilderStep} (hneeds : step.needsWork) :
    ∃ m, (s.step (.builder n step)).2 = .error (.failed (.misuse m)) := by
  obtain ⟨m, hm⟩ := Builder.temporary_of_ended hended
  have hrefused (keySize valueSize : Nat) :
      b.checkSizes keySize valueSize = .error (.misuse m) := by
    rw [Builder.checkSizes, hm]
  rw [Session.step, workOn_of_lookup hlookup]
  refine ⟨m, ?_⟩
  cases step with
  | add r => simp only [stepBuilder, Builder.addAll, hrefused, replyOf]
  | addMany rs =>
    cases rs with
    | nil => exact absurd rfl hneeds
    | cons r rest => simp only [stepBuilder, Builder.addAll, hrefused, replyOf]
  | addZeros keySize valueSize => simp only [stepBuilder, hrefused]
  | finish => simp only [stepBuilder, Builder.finish, hm, replyOf]
  | cancel => simp only [stepBuilder, Builder.cancel, hm, replyOf]
  | status => exact hneeds.elim
  | load input => exact hneeds.elim

/-- A builder that does not exist or is over finishes no more, as long as it is not opened anew. -/
theorem not_holds_run (hs : s.space.Sound) (hover : ∀ t, ¬s.Holds n t) {rest : List Step}
    (hrest : ∀ path mode, Step.build n path mode ∉ rest) : ∀ t, ¬(s.run rest).2.Holds n t := by
  induction rest generalizing s with
  | nil => exact hover
  | cons step rest ih =>
    refine ih (hs.of_changes (s.changes_step step)) ?_ fun path mode hmem =>
      hrest path mode (List.mem_cons_of_mem _ hmem)
    -- Only opening brings a builder to work.
    intro t hholds
    rcases holds_step hs hholds with ⟨hold, -⟩ | ⟨⟨path, mode, rfl, -⟩, -⟩
    · exact hover t hold
    · exact hrest path mode List.mem_cons_self

/-! ### Refused records -/

/-- A record that is refused leaves the session as it is. -/
theorem agree_of_refused {step : BuilderStep} (hone : step.addsOne) {e : Refusal}
    (hreply : (s.step (.builder n step)).2 = .error e) :
    Agree s (s.step (.builder n step)).1 := by
  rw [Session.step] at hreply ⊢
  cases hlookup : s.builders.lookup n with
  | none =>
    rw [workOn_of_none hlookup]
    exact .refl s
  | some b =>
    rw [workOn_of_lookup hlookup] at hreply ⊢
    -- A record is refused by its sizes, before the builder has changed at all.
    have hsame :
        (stepBuilder b s.space step).1 = b ∧ (stepBuilder b s.space step).2.1 = s.space := by
      cases step with
      | add r =>
        simp only [stepBuilder, Builder.addAll] at hreply ⊢
        cases hcheck : b.checkSizes r.key.size r.value.size with
        | error e => exact ⟨rfl, trivial⟩
        | ok u =>
          rw [hcheck] at hreply
          cases hreply
      | addZeros keySize valueSize =>
        simp only [stepBuilder] at hreply ⊢
        cases hcheck : b.checkSizes keySize valueSize with
        | error e => exact ⟨rfl, rfl⟩
        | ok u =>
          rw [hcheck] at hreply
          cases hreply
      | _ => exact hone.elim
    rw [hsame.1, hsame.2]
    exact ⟨rfl, lookup_putAt_of_lookup hlookup, fun _ => rfl⟩

/-! ### Commands that fail -/

/-- A command that fails leaves all files alone. -/
theorem nodes_command {args : List ByteArray} {stdin : ByteArray} {settings : Settings}
    {o : Outcome} (hreply : (s.step (.command args stdin settings)).2 = .ok (.outcome o))
    (hstatus : o.status ≠ 0) :
    (s.step (.command args stdin settings)).1.space.nodes = s.space.nodes := by
  simp only [Session.step] at hreply ⊢
  generalize hperform : (Arguments.parse args).perform s.space settings stdin = performed
    at hreply ⊢
  obtain ⟨outcome, space⟩ := performed
  simp only [Except.ok.injEq, Answer.outcome.injEq] at hreply
  subst hreply
  exact Invocation.nodes_perform_of_failed hperform hstatus

/-! ### No trace -/

/-- What holds of abandoned builds, and of builders that are over, from some moment of a session on.
-/
structure LeavesNoTrace (s : Session) : Prop where
  /-- Giving up a builder at work cancels it and touches no file.  Its temporary file goes, unless
  it is stranded. -/
  abandoned : ∀ n b t step, s.builders.lookup n = some b → b.state = .building t →
    s.Abandons n step →
      (∀ q, (s.step step).1.space.stat q = s.space.stat q) ∧
      (step = .drop n ∧ (s.step step).1.builders.lookup n = none ∨
        (s.step step).1.builders.lookup n = some { b with state := .canceled }) ∧
      (¬s.space.Stranded t → ∀ u ∈ (s.step step).1.space.temporaries, u.serial ≠ t.serial) ∧
      (s.space.Stranded t → (s.step step).1.space = s.space)
  /-- A build in one go that fails touches no file, unless its fill finished the builder. -/
  failedCreate : ∀ path mode fill e, (Builder.create s.space path mode fill).1 = .error e →
    (∀ b space, Builder.open s.space path mode = .ok (b, space) →
      (fill.run b space).2.1.state ≠ .finished) →
    (∀ q, (Builder.create s.space path mode fill).2.stat q = s.space.stat q) ∧
      (Builder.create s.space path mode fill).2.temporaries = s.space.temporaries
  /-- Neither does a command that fails. -/
  failedCommand : ∀ args stdin settings o,
    (s.step (.command args stdin settings)).2 = .ok (.outcome o) → o.status ≠ 0 →
    (∀ q, (s.step (.command args stdin settings)).1.space.stat q = s.space.stat q) ∧
      (s.step (.command args stdin settings)).1.space.temporaries = s.space.temporaries
  /-- A builder that is over stays as it is and refuses to work. -/
  ended : ∀ n b, s.builders.lookup n = some b → b.isBuilding = false →
    ∀ rest, (∀ step ∈ rest, ¬step.renews n) →
      (s.run rest).2.builders.lookup n = some b ∧
      ∀ step, step.needsWork →
        (∃ m, ((s.run rest).2.step (.builder n step)).2 = .error (.failed (.misuse m))) ∧
        ((s.run rest).2.step (.builder n step)).1.space = (s.run rest).2.space
  /-- A record that is refused might as well not have been added. -/
  refused : ∀ n step e, step.addsOne → (s.step (.builder n step)).2 = .error e → ∀ rest,
    ((s.step (.builder n step)).1.run rest).1 = (s.run rest).1 ∧
      Agree (s.run rest).2 ((s.step (.builder n step)).1.run rest).2
  /-- A builder finishes once. -/
  once : ∀ n answer, (s.step (.builder n .finish)).2 = .ok answer →
    ∀ rest, (∀ path mode, Step.build n path mode ∉ rest) → ∀ again,
      (((s.step (.builder n .finish)).1.run rest).2.step (.builder n .finish)).2 ≠ .ok again

theorem Orderly.leavesNoTrace (hs : s.Orderly) : s.LeavesNoTrace where
  abandoned n b t step hlookup hstate habandons := by
    have hknows := hs.knows n t ⟨b, hlookup, hstate⟩
    have hspace := habandons.space hlookup hstate
    refine ⟨fun q => ?_, habandons.lookup hlookup hstate, fun hfree => ?_, fun hstranded => ?_⟩
    · rw [hspace, FileSpace.stat_of_nodes (FileSpace.nodes_discardTemporary ..)]
    · rw [hspace]
      exact hknows.serial_ne_of_discard hfree
    · rw [hspace, hknows.discardTemporary_of_stranded hstranded]
  failedCreate path mode fill e hcreate hfill :=
    ⟨fun q => FileSpace.stat_of_nodes (Builder.nodes_create_of_error hcreate hfill) q,
      Builder.temporaries_create hs.sound ..⟩
  failedCommand args stdin settings o hreply hstatus :=
    ⟨fun q => FileSpace.stat_of_nodes (nodes_command hreply hstatus) q,
      temporaries_perform hs.sound ..⟩
  ended n b hlookup hended rest hrest := by
    have hstays := lookup_run_of_ended hlookup hended hrest
    refine ⟨hstays, fun step hneeds => ⟨reply_of_ended hstays hended hneeds, ?_⟩⟩
    rw [Session.step, workOn_of_lookup hstays]
    exact (stepBuilder_of_ended hended _ _).2
  refused n step e hone hreply rest := (agree_of_refused hone hreply).run rest
  once n answer hreply rest hrest again hagain := by
    obtain ⟨b, t, -, -, -, hfinished⟩ := step_finish_eq_ok hreply
    obtain ⟨b', t', hlookup', hstate', -⟩ := step_finish_eq_ok hagain
    -- Right behind the first `finish` the builder is finished.
    have hover (u : TemporaryHandle) : ¬(s.step (.builder n .finish)).1.Holds n u := by
      rintro ⟨c, hlookup, hstate⟩
      cases hlookup.symm.trans hfinished
      cases hstate
    exact not_holds_run (hs.sound.of_changes (s.changes_step _)) hover hrest t'
      ⟨b', hlookup', hstate'⟩

/-- Abandoned builds leave no trace, and a builder that is over is over for good, in whatever order
the steps of a session come.

Every temporary file belongs to exactly one builder at work, as long as no builder ends whose
temporary file is stranded; and none is ever stranded where the directories of the targets are named
without going up. -/
theorem leavesNoTrace_run (clock : Nat → Nat) (steps : List Step) :
    let s := ((start clock).run steps).2
    s.LeavesNoTrace ∧
    ((start clock).Along Tidy steps → ∀ u ∈ s.space.temporaries,
      ∃ n t, s.Holds n t ∧ t.serial = u.serial ∧
        ∀ m t', s.Holds m t' → t'.serial = u.serial → m = n) ∧
    ((∀ n path mode, Step.build n path mode ∈ steps → Path.dotDot ∉ path.directory.names) →
      (start clock).Along Tidy steps) := by
  intro s
  have hs : s.Orderly := orderly_run clock steps
  refine ⟨hs.leavesNoTrace, fun htidy u hu => ?_, tidy_of_plain⟩
  obtain ⟨n, t, hholds, hserial⟩ := owned_run htidy u hu
  refine ⟨n, t, hholds, hserial, fun m t' hholds' hserial' => ?_⟩
  exact hs.apart m n t' t hholds' hholds (hserial'.trans hserial.symm)

/-! ### A directory that is named by going up

The target `d/../a` lies in the top directory, where the temporary file is made.  Its path leads
there only as long as there is a directory `d`. -/

namespace Sample

/-- The builder that was opened for the target. -/
def upward : Builder :=
  ⟨⟨[0x64, 0x2f, 0x2e, 0x2e, 0x2f, 0x61]⟩, defaultMode,
    .building ⟨⟨[0x64, 0x2f, 0x2e, 0x2e]⟩, "a", 0⟩, .empty⟩

/-- The session in which it is at work. -/
def working : Session :=
  ⟨{ FileSpace.empty 15 with
      nodes := [([[0x64]], .directory)], temporaries := [⟨[], "a", 0⟩], serials := 1 },
    [(0, upward)], []⟩

/-- The steps up to there. -/
def openUpward : List Step :=
  [.makeDirectory ⟨[0x64]⟩, .build 0 ⟨[0x64, 0x2f, 0x2e, 0x2e, 0x2f, 0x61]⟩ none]

theorem run_openUpward : (empty.run openUpward).2 = working := by
  have hmade : (empty.step (.makeDirectory ⟨[0x64]⟩)).1 =
      ⟨{ FileSpace.empty 15 with nodes := [([[0x64]], .directory)] }, [], []⟩ := rfl
  have hname : (Path.mk [0x64, 0x2f, 0x2e, 0x2e, 0x2f, 0x61]).fileName?.map Text.Utf8.show =
      some "a" := by
    rw [show (Path.mk [0x64, 0x2f, 0x2e, 0x2e, 0x2f, 0x61]).fileName? = some [0x61] from rfl,
      Option.map_some, Builder.Sample.show_name]
  simp only [openUpward, Session.run, hmade]
  simp only [Session.step, build_eq, Builder.open, hname]
  rfl

end Sample

/-- As long as there is a directory `d`, canceling takes the temporary file away. -/
theorem leavesNoTrace_run_of_cancel :
    let s := (empty.run Sample.openUpward).2
    (∀ q, (s.step (.builder 0 .cancel)).1.space.stat q = s.space.stat q) ∧
      (∀ u ∈ (s.step (.builder 0 .cancel)).1.space.temporaries, u.serial ≠ 0) ∧
      (s.step (.builder 0 .cancel)).1.builders.lookup 0 =
        some { Sample.upward with state := .canceled } := by
  have hlookup : (empty.run Sample.openUpward).2.builders.lookup 0 = some Sample.upward := by
    rw [Sample.run_openUpward]
    rfl
  have hfree :
      ¬(empty.run Sample.openUpward).2.space.Stranded ⟨⟨[0x64, 0x2f, 0x2e, 0x2e]⟩, "a", 0⟩ := by
    rw [Sample.run_openUpward]
    rintro ⟨u, hu, -, hleads⟩
    cases List.mem_singleton.1 hu
    exact hleads rfl
  obtain ⟨hstat, hbuilder, htemporaries, -⟩ :=
    (leavesNoTrace_run id Sample.openUpward).1.abandoned 0
    Sample.upward _ (.builder 0 .cancel) hlookup rfl rfl
  rcases hbuilder with ⟨hdrop, -⟩ | hcanceled
  · cases hdrop
  · exact ⟨hstat, htemporaries hfree, hcanceled⟩

/-- When the directory `d` is removed first, the temporary file stays, and no builder is at work. -/
theorem temporary_stays :
    let s := (empty.run (Sample.openUpward ++ [.removeDirectory ⟨[0x64]⟩, .builder 0 .cancel])).2
    s.space.temporaries = [⟨[], "a", 0⟩] ∧ ∀ n t, ¬s.Holds n t := by
  rw [run_append, Sample.run_openUpward]
  refine ⟨rfl, ?_⟩
  rintro n t ⟨b, hlookup, hstate⟩
  have hbuilders : (Sample.working.run [.removeDirectory ⟨[0x64]⟩, .builder 0 .cancel]).2.builders =
      [(0, { Sample.upward with state := .canceled })] := rfl
  rw [hbuilders, List.lookup_cons] at hlookup
  split at hlookup
  · cases hlookup
    cases hstate
  · cases hlookup

end Session

end ConstDb
