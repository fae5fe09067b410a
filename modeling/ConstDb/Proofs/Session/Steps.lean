import ConstDb.Proofs.CommandLine.Built
import ConstDb.Session.Basic

/-! # Steps of a session

What each step does to the builders and to the files of a session, and what follows for runs of
steps.

## Key results

- `Session.lookup_builders_step`: a step with a builder touches no other builder
- `Session.stepBuilder_fst`: a builder gets the records that it accepts, and a new state at most
- `Session.changes_step`: what a step does to the files
- `Session.sound_run`: every session that can come about has a sound space of files
- `Session.nodes_step`: which steps leave all files alone
-/

namespace ConstDb

namespace Session

/-! ### Numbered lists -/

section

variable {α : Type} {entries : List (Nat × α)} {m n : Nat}

theorem lookup_dropAt (entries : List (Nat × α)) (m n : Nat) :
    (dropAt entries n).lookup m = if m = n then none else entries.lookup m := by
  rw [dropAt, lookup_filter fun k => decide (k ≠ n)]
  by_cases hm : m = n <;> simp [hm]

theorem lookup_putAt (entries : List (Nat × α)) (m n : Nat) (a : α) :
    (putAt entries n a).lookup m = if m = n then some a else entries.lookup m := by
  by_cases hm : m = n
  · simp [hm]
  · have hne : (m == n) = false := by simp [hm]
    have hdrop := lookup_dropAt entries m n
    rw [dropAt, if_neg hm] at hdrop
    rw [putAt, List.lookup_cons, hne, if_neg hm]
    exact hdrop

/-- Putting an entry where it is already makes no difference. -/
theorem lookup_putAt_of_lookup {a : α} (h : entries.lookup n = some a) (m : Nat) :
    (putAt entries n a).lookup m = entries.lookup m := by
  rw [lookup_putAt]
  split
  · rename_i hm
    rw [hm, h]
  · rfl

end

end Session

/-! ### What a step does to a builder -/

/-- The records of a step that a builder accepts. -/
def Builder.taken (b : Builder) : BuilderStep → List Record
  | .add r => b.accepted [r]
  | .addMany rs => b.accepted rs
  | .addZeros keySize valueSize =>
    b.accepted [⟨.replicate keySize 0, .replicate valueSize 0⟩]
  | .load input => b.accepted (RecordText.parse input).items
  | .finish => []
  | .cancel => []
  | .status => []

/-- Whether a step may end the life of a builder. -/
def BuilderStep.ends : BuilderStep → Bool
  | .finish => true
  | .cancel => true
  | _ => false

theorem BuilderStep.eq_of_ends {step : BuilderStep} (h : step.ends = true) :
    step = .finish ∨ step = .cancel := by
  cases step with
  | finish => exact .inl rfl
  | cancel => exact .inr rfl
  | _ => cases h

/-- Loading adds the records of the text, up to the first that is refused. -/
theorem Builder.load_snd (b : Builder) (input : Input) :
    (b.load input).2 = (b.addAll (RecordText.parse input).items).2 := by
  simp only [load]
  split
  · rename_i heq
    rw [heq]
  · rename_i heq
    rw [heq]
    split <;> rfl

namespace Session

variable {b : Builder} {space : FileSpace}

/-- A builder takes the records that it accepts.  Only `finish` and `cancel` do anything else to it
and to the files. -/
theorem stepBuilder_of_not_ends {step : BuilderStep} (h : step.ends = false) (b : Builder)
    (space : FileSpace) :
    (stepBuilder b space step).1 =
        { b with draft := (b.taken step).foldl Draft.append b.draft } ∧
      (stepBuilder b space step).2.1 = space := by
  cases step with
  | add r => exact ⟨b.addAll_snd [r], rfl⟩
  | addMany rs => exact ⟨b.addAll_snd rs, rfl⟩
  | addZeros keySize valueSize =>
    have hadd := b.add_eq_map_append ⟨.replicate keySize 0, .replicate valueSize 0⟩
    simp only [ByteArray.size_replicate] at hadd
    simp only [stepBuilder, Builder.taken, Builder.accepted, hadd]
    cases b.checkSizes keySize valueSize <;> exact ⟨rfl, rfl⟩
  | finish => cases h
  | cancel => cases h
  | status => exact ⟨rfl, rfl⟩
  | load input => exact ⟨(b.load_snd input).trans (b.addAll_snd _), rfl⟩

/-- Ending the life of a builder leaves its records and its target as they are. -/
theorem stepBuilder_of_ends {step : BuilderStep} (h : step.ends = true) (b : Builder)
    (space : FileSpace) :
    (stepBuilder b space step).1 = { b with state := (stepBuilder b space step).1.state } := by
  obtain rfl | rfl := BuilderStep.eq_of_ends h <;>
    rcases b.temporary_cases with ⟨t, hstate, -⟩ | ⟨hended, -⟩
  · simp only [stepBuilder, Builder.finish_of_building hstate]
    split <;> rfl
  · obtain ⟨m, hm⟩ := Builder.finish_of_ended hended space
    simp only [stepBuilder, hm]
  · simp only [stepBuilder, Builder.cancel_of_building hstate]
  · obtain ⟨m, hm⟩ := Builder.cancel_of_ended hended space
    simp only [stepBuilder, hm]

/-- A builder gets the records that it accepts, and a new state at most. -/
theorem stepBuilder_fst (b : Builder) (space : FileSpace) (step : BuilderStep) :
    (stepBuilder b space step).1 =
      { b with
        state := (stepBuilder b space step).1.state
        draft := (b.taken step).foldl Draft.append b.draft } := by
  cases hends : step.ends with
  | false =>
    rw [(stepBuilder_of_not_ends hends b space).1]
  | true =>
    have htaken : b.taken step = [] := by
      obtain rfl | rfl := BuilderStep.eq_of_ends hends <;> rfl
    rw [htaken]
    exact stepBuilder_of_ends hends b space

/-- A builder that is not at work any more stays as it is, and touches no file. -/
theorem stepBuilder_of_ended (h : b.isBuilding = false) (space : FileSpace) (step : BuilderStep) :
    (stepBuilder b space step).1 = b ∧ (stepBuilder b space step).2.1 = space := by
  cases hends : step.ends with
  | false =>
    -- All that the step could do is add records, and none is accepted.
    have hrefused (rs : List Record) : b.accepted rs = [] := by
      cases rs with
      | nil => rfl
      | cons r rest =>
        rw [Builder.accepted]
        cases hadd : b.add r with
        | error e => rfl
        | ok b' =>
          obtain ⟨hbuilding, -⟩ := Builder.add_eq_ok.1 hadd
          cases h.symm.trans hbuilding
    have htaken : b.taken step = [] := by
      cases step <;> first | exact hrefused _ | rfl
    obtain ⟨hfst, hspace⟩ := stepBuilder_of_not_ends hends b space
    exact ⟨by rw [hfst, htaken]; rfl, hspace⟩
  | true =>
    obtain rfl | rfl := BuilderStep.eq_of_ends hends
    · obtain ⟨m, hm⟩ := Builder.finish_of_ended h space
      simp only [stepBuilder, hm, and_self]
    · obtain ⟨m, hm⟩ := Builder.cancel_of_ended h space
      simp only [stepBuilder, hm, and_self]

/-! ### What a step does to a session -/

variable {s : Session} {m n : Nat}

theorem workOn_of_lookup (h : s.builders.lookup n = some b) (step : BuilderStep) :
    s.workOn n step =
      (⟨(stepBuilder b s.space step).2.1, putAt s.builders n (stepBuilder b s.space step).1,
        s.readers⟩, (stepBuilder b s.space step).2.2) := by
  simp only [workOn, h]
  rfl

theorem workOn_of_none (h : s.builders.lookup n = none) (step : BuilderStep) :
    s.workOn n step = (s, .error .noBuilder) := by
  simp only [workOn, h]

/-- A step with a builder does to it what the step says, and nothing to the others. -/
theorem lookup_builders_workOn (s : Session) (m n : Nat) (step : BuilderStep) :
    (s.workOn n step).1.builders.lookup m =
      if m = n then (s.builders.lookup n).map fun b => (stepBuilder b s.space step).1
      else s.builders.lookup m := by
  cases h : s.builders.lookup n with
  | none =>
    rw [workOn_of_none h]
    split
    · rename_i hm
      rw [hm, h]
      rfl
    · rfl
  | some b => rw [workOn_of_lookup h, lookup_putAt, Option.map_some]

theorem lookup_builders_dropBuilder (s : Session) (m n : Nat) :
    (s.dropBuilder n).builders.lookup m = if m = n then none else s.builders.lookup m := by
  cases h : s.builders.lookup n with
  | none =>
    simp only [dropBuilder, h]
    split
    · rename_i hm
      rw [hm, h]
    · rfl
  | some b =>
    simp only [dropBuilder, h]
    exact lookup_dropAt s.builders m n

/-- Letting go of a builder drops it. -/
theorem space_dropBuilder (s : Session) (n : Nat) :
    (s.dropBuilder n).space =
      match s.builders.lookup n with
      | none => s.space
      | some b => b.drop s.space := by
  unfold dropBuilder
  cases s.builders.lookup n <;> rfl

/-- Starting a new builder in the place of an old one. -/
theorem build_eq (s : Session) (n : Nat) (path : Path) (mode : Option Nat) :
    s.build n path mode =
      match Builder.open (s.dropBuilder n).space path mode with
      | .error e => (s.dropBuilder n, .error (.failed e))
      | .ok (b, space) =>
        (⟨space, putAt (s.dropBuilder n).builders n b, (s.dropBuilder n).readers⟩, .ok .unit) :=
  rfl

theorem builders_changed (s : Session) (result : Except Fault FileSpace) :
    (s.changed result).1.builders = s.builders := by
  cases result <;> rfl

/-- What a patch does to a session is what writing does. -/
theorem step_patch_fst (s : Session) (source path : Path) (edits : List (Nat × ByteArray))
    (resize : Option Nat) (tail : ByteArray) :
    (s.step (.patch source path edits resize tail)).1 =
      match s.space.readable? source with
      | none => s
      | some f =>
        (s.changed (s.space.write path (patched f.bytes edits resize tail) writtenMode)).1 := by
  simp only [step]
  cases s.space.readable? source with
  | none => rfl
  | some f =>
    simp only
    split <;> rename_i heq <;> rw [heq]

end Session

/-- The builder that a step is about. -/
def Step.builder? : Step → Option Nat
  | .build n _ _ => some n
  | .drop n => some n
  | .builder n _ => some n
  | _ => none

namespace Session

variable {s : Session} {n : Nat}

/-- A step that is about no builder leaves the builders alone. -/
theorem builders_step (s : Session) {step : Step} (h : step.builder? = none) :
    (s.step step).1.builders = s.builders := by
  -- Steps with files go through `changed`, which keeps the builders; the others read or have a
  -- builder of their own.
  cases step with
  | write path data => exact s.builders_changed _
  | patch source path edits resize tail =>
    rw [step_patch_fst]
    split
    · rfl
    · exact s.builders_changed _
  | read path start stop =>
    simp only [Session.step]
    split <;> rfl
  | remove path => exact s.builders_changed _
  | makeDirectory path => exact s.builders_changed _
  | removeDirectory path => exact s.builders_changed _
  | mode path =>
    simp only [Session.step]
    split <;> rfl
  | setMode path mode => exact s.builders_changed _
  | setTime path time => rfl
  | list path =>
    simp only [Session.step]
    split <;> rfl
  | create path mode rs ending => simp only [Session.step]
  | «open» n path =>
    simp only [Session.step]
    split <;> rfl
  | reader n step =>
    simp only [Session.step]
    split <;> rfl
  | command args stdin settings => simp only [Session.step]
  | _ => cases h

/-- A step touches no builder but the one that it is about. -/
theorem lookup_builders_step (s : Session) {step : Step} (h : step.builder? ≠ some n) :
    (s.step step).1.builders.lookup n = s.builders.lookup n := by
  -- Only these three steps change the list, each at the number of its own builder.
  cases step with
  | build m path mode =>
    have hne : n ≠ m := by
      rintro rfl
      exact h rfl
    have hdrop := s.lookup_builders_dropBuilder n m
    rw [if_neg hne] at hdrop
    simp only [Session.step, build_eq]
    split
    · exact hdrop
    · rw [lookup_putAt, if_neg hne, hdrop]
  | drop m =>
    have hne : n ≠ m := by
      rintro rfl
      exact h rfl
    have hdrop := s.lookup_builders_dropBuilder n m
    rwa [if_neg hne] at hdrop
  | builder m step =>
    have hne : n ≠ m := by
      rintro rfl
      exact h rfl
    have hwork := s.lookup_builders_workOn n m step
    rwa [if_neg hne] at hwork
  | _ => rw [s.builders_step rfl]

/-! ### What a step does to the files -/

theorem changes_changed {p : FileSpace.Powers} (s : Session) {result : Except Fault FileSpace}
    (h : ∀ space, result = .ok space → FileSpace.Change p s.space space) :
    FileSpace.Changes p s.space (s.changed result).1.space := by
  cases result with
  | error fault => exact .refl
  | ok space => exact .single (h space rfl)

theorem changes_dropBuilder {p : FileSpace.Powers} (s : Session) (n : Nat) :
    FileSpace.Changes p s.space (s.dropBuilder n).space := by
  rw [space_dropBuilder]
  split
  · exact .refl
  · exact Builder.changes_drop _ _

theorem changes_stepBuilder {p : FileSpace.Powers} (b : Builder) (space : FileSpace)
    {step : BuilderStep} (hp : step = .finish → p.writing) :
    FileSpace.Changes p space (stepBuilder b space step).2.1 := by
  cases hends : step.ends with
  | false =>
    rw [(stepBuilder_of_not_ends hends b space).2]
  | true =>
    obtain rfl | rfl := BuilderStep.eq_of_ends hends
    · exact Builder.changes_finish (hp rfl) b space
    · exact Builder.changes_cancel b space

theorem changes_workOn {p : FileSpace.Powers} (s : Session) (n : Nat) {step : BuilderStep}
    (hp : step = .finish → p.writing) :
    FileSpace.Changes p s.space (s.workOn n step).1.space := by
  cases h : s.builders.lookup n with
  | none =>
    rw [workOn_of_none h]
  | some b =>
    rw [workOn_of_lookup h]
    exact changes_stepBuilder b s.space hp

/-- A command changes files only where it builds a database in one go. -/
theorem changes_perform {p : FileSpace.Powers} (hwriting : p.writing) (hmaking : p.making)
    (space : FileSpace) (settings : Settings)
    (stdin : ByteArray) (invocation : Invocation) :
    FileSpace.Changes p space (invocation.perform space settings stdin).2 := by
  generalize hperform : invocation.perform space settings stdin = performed
  rcases Invocation.perform_cases hperform with hsame | ⟨db, rs, ending, context, -, hbuilt⟩
  · rw [hsame]
  · rw [hbuilt]
    exact Builder.changes_create hwriting hmaking ..

end Session

/-- Whether a step sets the time of a file by hand. -/
def Step.setsTime : Step → Prop
  | .setTime _ _ => True
  | _ => False

/-- Whether a step may open a builder. -/
def Step.opensBuilder : Step → Prop
  | .build _ _ _ => True
  | .create _ _ _ _ => True
  | .command _ _ _ => True
  | _ => False

/-- Whether a step may put a new file somewhere. -/
def Step.writesFile : Step → Prop
  | .write _ _ => True
  | .patch _ _ _ _ _ => True
  | .builder _ .finish => True
  | .create _ _ _ _ => True
  | .command _ _ _ => True
  | _ => False

/-- What a step may do to files. -/
def Step.powers (step : Step) : FileSpace.Powers :=
  ⟨step.writesFile, step.opensBuilder, step.setsTime⟩

namespace Session

/-- What a step does to the files is a number of changes. -/
theorem changes_step (s : Session) (step : Step) :
    FileSpace.Changes step.powers s.space (s.step step).1.space := by
  have hmode : writtenMode < 0o10000 := by decide
  -- Steps that write files of their own amount to one change, those with builders to several.
  cases step with
  | write path data => exact s.changes_changed fun _ => FileSpace.change_write trivial hmode
  | patch source path edits resize tail =>
    rw [step_patch_fst]
    split
    · exact .refl
    · exact s.changes_changed fun _ => FileSpace.change_write trivial hmode
  | read path start stop =>
    simp only [Session.step]
    split <;> exact .refl
  | remove path => exact s.changes_changed fun _ => FileSpace.change_remove
  | makeDirectory path => exact s.changes_changed fun _ => FileSpace.change_makeDirectory
  | removeDirectory path => exact s.changes_changed fun _ => FileSpace.change_removeDirectory
  | mode path =>
    simp only [Session.step]
    split <;> exact .refl
  | setMode path mode =>
    exact s.changes_changed fun _ => FileSpace.change_modifyFile (fun _ => rfl)
      (fun _ => .inr (Nat.mod_lt _ (by decide))) (fun _ => .inl rfl)
  | setTime path time =>
    simp only [Session.step, stamped]
    split
    · rename_i space hmodify
      have hchange : FileSpace.Change ⟨False, False, True⟩ s.space space := by
        refine FileSpace.change_modifyFile ?_ ?_ ?_ hmodify
        · exact fun _ => rfl
        · exact fun _ => .inl rfl
        · exact fun _ => .inr trivial
      exact .single hchange
    · exact .refl
  | list path =>
    simp only [Session.step]
    split <;> exact .refl
  | build n path mode =>
    simp only [Session.step, build_eq]
    split
    · exact s.changes_dropBuilder n
    · rename_i hopen
      exact (s.changes_dropBuilder n).trans (Builder.changes_open trivial hopen)
  | drop n => exact s.changes_dropBuilder n
  | builder n step =>
    refine s.changes_workOn n ?_
    rintro rfl
    trivial
  | create path mode rs ending => exact Builder.changes_create trivial trivial ..
  | «open» n path =>
    simp only [Session.step]
    split <;> exact .refl
  | reader n step =>
    simp only [Session.step]
    split <;> exact .refl
  | command args stdin settings => exact changes_perform trivial trivial ..

/-! ### Steps that leave all files alone -/

end Session

/-- Whether a step is one that only looks at files, or works on a reader, or on a builder without
finishing it. -/
def Step.isQuiet : Step → Bool
  | .read .. => true
  | .mode .. => true
  | .list .. => true
  | .build .. => true
  | .drop .. => true
  | .builder _ .finish => false
  | .builder .. => true
  | .open .. => true
  | .reader .. => true
  | _ => false

namespace Session

theorem nodes_dropBuilder (s : Session) (n : Nat) :
    (s.dropBuilder n).space.nodes = s.space.nodes := by
  rw [space_dropBuilder]
  split
  · rfl
  · exact Builder.nodes_drop _ _

/-- Quiet steps leave all files alone, whatever they come to. -/
theorem nodes_step (s : Session) {step : Step} (h : step.isQuiet = true) :
    (s.step step).1.space.nodes = s.space.nodes := by
  -- Opening, canceling and dropping a builder touch temporary files only.
  cases step with
  | read path start stop =>
    simp only [Session.step]
    split <;> rfl
  | mode path =>
    simp only [Session.step]
    split <;> rfl
  | list path =>
    simp only [Session.step]
    split <;> rfl
  | build n path mode =>
    simp only [Session.step, build_eq]
    split
    · exact s.nodes_dropBuilder n
    · rename_i hopen
      exact (Builder.nodes_open hopen).trans (s.nodes_dropBuilder n)
  | drop n => exact s.nodes_dropBuilder n
  | builder n step =>
    cases hlookup : s.builders.lookup n with
    | none => rw [Session.step, workOn_of_none hlookup]
    | some b =>
      rw [Session.step, workOn_of_lookup hlookup]
      cases step with
      | finish => cases h
      | cancel => exact b.nodes_cancel s.space
      | _ => rw [(stepBuilder_of_not_ends rfl b s.space).2]
  | «open» n path =>
    simp only [Session.step]
    split <;> rfl
  | reader n step =>
    simp only [Session.step]
    split <;> rfl
  | _ => cases h

/-! ### Finishing -/

variable {s : Session} {n : Nat}

/-- A `finish` that succeeds replaces the target of the builder. -/
theorem step_finish_eq_ok {answer : Answer} (h : (s.step (.builder n .finish)).2 = .ok answer) :
    ∃ b t, s.builders.lookup n = some b ∧ b.state = .building t ∧
      s.space.replaceBy t b.path b.draft.image (b.mode % 0o10000) =
        .ok (s.step (.builder n .finish)).1.space ∧
      (s.step (.builder n .finish)).1.builders.lookup n = some { b with state := .finished } := by
  rw [Session.step] at h ⊢
  cases hlookup : s.builders.lookup n with
  | none =>
    rw [workOn_of_none hlookup] at h
    cases h
  | some b =>
    rw [workOn_of_lookup hlookup] at h ⊢
    simp only [stepBuilder, lookup_putAt_self] at h ⊢
    -- The reply is the result of the builder, which is therefore not an error.
    generalize hfinish : b.finish s.space = finished at h ⊢
    obtain ⟨result, b', space⟩ := finished
    cases result with
    | error e => cases h
    | ok u =>
      obtain ⟨t, hstate, hb', hreplace⟩ := Builder.finish_eq_ok.1 hfinish
      exact ⟨b, t, rfl, hstate, hreplace, congrArg some hb'⟩

/-- A `finish` that fails leaves all files alone. -/
theorem nodes_step_finish_of_error {e : Refusal}
    (h : (s.step (.builder n .finish)).2 = .error e) :
    (s.step (.builder n .finish)).1.space.nodes = s.space.nodes := by
  rw [Session.step] at h ⊢
  cases hlookup : s.builders.lookup n with
  | none => rw [workOn_of_none hlookup]
  | some b =>
    rw [workOn_of_lookup hlookup] at h ⊢
    simp only [stepBuilder] at h ⊢
    cases hfinish : (b.finish s.space).1 with
    | ok u =>
      rw [hfinish] at h
      cases h
    | error e => exact Builder.nodes_finish_of_error hfinish

/-! ### Runs -/

theorem run_nil (s : Session) : (s.run []).2 = s := rfl

theorem run_cons (s : Session) (step : Step) (rest : List Step) :
    (s.run (step :: rest)).2 = ((s.step step).1.run rest).2 := rfl

theorem run_append (s : Session) (steps more : List Step) :
    (s.run (steps ++ more)).2 = ((s.run steps).2.run more).2 := by
  induction steps generalizing s with
  | nil => rfl
  | cons step rest ih => exact ih (s.step step).1

/-- Whether each step of a run is one of some kind in the session that it meets. -/
def Along (kind : Session → Step → Prop) : Session → List Step → Prop
  | _, [] => True
  | s, step :: rest => kind s step ∧ Along kind (s.step step).1 rest

/-- What each step of some kind preserves holds at the end of a run of such steps. -/
theorem invariant_run {kind : Session → Step → Prop} {I : Session → Prop}
    (hstep : ∀ s step, kind s step → I s → I (s.step step).1) {s : Session} {steps : List Step}
    (hs : I s) (h : s.Along kind steps) : I (s.run steps).2 := by
  induction steps generalizing s with
  | nil => exact hs
  | cons step rest ih => exact ih (hstep s step h.1 hs) h.2

theorem along_of_mem {kind : Step → Prop} {steps : List Step} (h : ∀ step ∈ steps, kind step)
    (s : Session) : s.Along (fun _ => kind) steps := by
  induction steps generalizing s with
  | nil => trivial
  | cons step rest ih =>
    exact ⟨h step List.mem_cons_self,
      ih (fun step hstep => h step (List.mem_cons_of_mem _ hstep)) _⟩

theorem along_of_forall {kind : Session → Step → Prop} (h : ∀ s step, kind s step) (s : Session)
    (steps : List Step) : s.Along kind steps := by
  induction steps generalizing s with
  | nil => trivial
  | cons step rest ih => exact ⟨h s step, ih _⟩

/-- A session that can come about has a sound space of files. -/
theorem sound_run (clock : Nat → Nat) (steps : List Step) :
    ((start clock).run steps).2.space.Sound :=
  invariant_run (I := fun s => s.space.Sound)
    (fun s step _ hs => hs.of_changes (s.changes_step step)) (FileSpace.sound_start topSize clock)
    (along_of_forall (fun _ _ => trivial) (start clock) steps)

end Session

end ConstDb
