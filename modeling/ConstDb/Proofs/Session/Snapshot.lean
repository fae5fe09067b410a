import ConstDb.Proofs.Session.Builds
import ConstDb.Proofs.Session.Readers
import ConstDb.Proofs.Session.Writing

/-! # Snapshots

A reader answers from the file that it mapped, as this was at that moment, and `refresh` tells
whether there is a new one.  It knows files by their sizes and times only.  So it is right as long
as no time is set by hand and each file that is written at its path differs in size or time from
those before: then it takes the file at the path just when this was written after the reader mapped
it, and else the file is the one that the reader has.  On a clock that stands still between two
writes it may miss the second one (`Session.stale_of_agrees`).

## Key results

- `Session.source_of_run`: what a reader maps was at its path at some moment
- `Session.refresh_of_run`, `Session.flag_eq_true_iff`: what `refresh` comes to, and what it tells
- `Session.snapshots_run`: what holds of readers in every session
- `Session.refresh_differs`: a `refresh` that keeps its cursor, and one that misses a new file
-/

namespace ConstDb

namespace Session

variable {s : Session} {n : Nat} {r : Reader} {path : Path} {m : Mapping}

/-! ### Mapping a file -/

/-- Whether a step lets a reader map the file at a path. -/
def Maps (n : Nat) (path : Path) (s : Session) (step : Step) : Prop :=
  step = .open n path ∧ (s.step step).2 = .ok .unit ∨
    step = .reader n .refresh ∧ (s.step step).2 = .ok (.flag true) ∧
      ∃ r, s.readers.lookup n = some r ∧ r.path = path

/-- Whether a reader is as good as new, with the file that a path leads to. -/
def Fresh (space : FileSpace) (path : Path) (r : Reader) : Prop :=
  ∃ m f, r = ⟨path, some m, none⟩ ∧ space.stat path = .ok (.file f) ∧ m.image.bytes = f.bytes ∧
    m.time = f.time

theorem fresh_of_open {space : FileSpace} (h : Reader.open space path = .ok r) :
    Fresh space path r := by
  obtain ⟨m, hload, rfl⟩ := Reader.open_eq_ok.1 h
  obtain ⟨f, hstat, -, himage, htime⟩ := Mapping.load_eq_ok hload
  exact ⟨m, f, rfl, hstat, (Image.ofBytes_eq_ok himage).1, htime⟩

/-- A reader that maps a file is as good as new. -/
theorem Maps.fresh {step : Step} (h : Maps n path s step) :
    ∃ r, (s.step step).1.readers.lookup n = some r ∧ Fresh s.space path r ∧
      (s.step step).1.space = s.space := by
  obtain ⟨rfl, hreply⟩ | ⟨rfl, hreply, r, hlookup, rfl⟩ := h
  · simp only [Session.step] at hreply ⊢
    cases hopen : Reader.open s.space path with
    | error e =>
      rw [hopen] at hreply
      cases hreply
    | ok r => exact ⟨r, lookup_putAt_self .., fresh_of_open hopen, rfl⟩
  · rw [step_reader_of_lookup hlookup] at hreply ⊢
    rcases stepReader_refresh_cases r s.space with ⟨-, hkept, -⟩ | ⟨m', fresh, htaken, -, hopen, -⟩
    · exact absurd hreply hkept
    · rw [htaken]
      exact ⟨fresh, lookup_putAt_self .., fresh_of_open hopen, rfl⟩

/-- Whether a reader is what became of another one that got no new image.  It may be closed. -/
def Descends (r r₀ : Reader) : Prop :=
  r.path = r₀.path ∧ (r.mapping = r₀.mapping ∨ r.mapping = none)

/-- A reader that is there after a step which maps nothing was there before. -/
theorem descends_of_not_maps {step : Step} (h : ∀ path, ¬Maps n path s step)
    (hlookup : (s.step step).1.readers.lookup n = some r) :
    ∃ r₀, s.readers.lookup n = some r₀ ∧ Descends r r₀ := by
  -- A reader comes by a mapping only when it is opened or takes a new file; other steps hand it on.
  by_cases habout : step.reader? = some n
  · cases step with
    | «open» m path =>
      cases habout
      cases hopen : Reader.open s.space path with
      | error e => simp [Session.step, hopen, lookup_dropAt] at hlookup
      | ok r' => exact absurd (.inl ⟨rfl, by simp only [Session.step, hopen]⟩) (h path)
    | reader m step =>
      cases habout
      cases hold : s.readers.lookup n with
      | none =>
        rw [step_reader_of_none hold, hold] at hlookup
        cases hlookup
      | some r₀ =>
        refine ⟨r₀, rfl, ?_⟩
        cases hquestion : step.isQuestion with
        | false =>
          cases step with
          | refresh =>
            have hkept := agree_of_kept fun htaken =>
              h r₀.path (.inr ⟨rfl, htaken, r₀, hold, rfl⟩)
            rw [hkept.readers n, hold] at hlookup
            cases hlookup
            exact ⟨rfl, .inl rfl⟩
          | _ => cases hquestion
        | true =>
          rw [step_reader_of_lookup hold, lookup_putAt_self] at hlookup
          cases hlookup
          exact mapping_stepReader hquestion r₀ s.space
    | _ => cases habout
  · exact ⟨r, (lookup_readers_step habout).symm.trans hlookup, rfl, .inl rfl⟩

/-- A step that lets a reader keep its image maps nothing for it. -/
theorem Keeps.not_maps {step : Step} (h : Keeps n s step) (path : Path) :
    ¬Maps n path s step := by
  rintro (⟨rfl, -⟩ | ⟨rfl, hreply, -⟩)
  · exact h rfl
  · exact h rfl hreply

/-- A reader that is there after a run in which it keeps its image was there before. -/
theorem descends_of_keeps {rest : List Step} (h : s.Along (Keeps n) rest)
    (hlookup : (s.run rest).2.readers.lookup n = some r) :
    ∃ r₀, s.readers.lookup n = some r₀ ∧ Descends r r₀ := by
  induction rest generalizing s with
  | nil => exact ⟨r, hlookup, rfl, .inl rfl⟩
  | cons step rest ih =>
    obtain ⟨r₁, hlookup₁, hpath, hmapping⟩ := ih h.2 hlookup
    obtain ⟨r₀, hlookup₀, hpath', hmapping'⟩ := descends_of_not_maps h.1.not_maps hlookup₁
    refine ⟨r₀, hlookup₀, hpath.trans hpath', ?_⟩
    rcases hmapping with hmapping | hmapping
    · rwa [hmapping]
    · exact .inr hmapping

/-! ### What `refresh` tells -/

/-- What a reader of a session maps is a file that was at its path at some moment. -/
theorem source_of_run {clock : Nat → Nat} {steps : List Step}
    (hlookup : ((start clock).run steps).2.readers.lookup n = some r) (hm : r.mapping = some m) :
    ∃ earlier f, earlier <+: steps ∧
      ((start clock).run earlier).2.space.node? r.path.place = some (.file f) ∧
      m.image.bytes = f.bytes ∧ m.time = f.time := by
  -- The last step mapped the file, or the reader had its mapping before.
  induction steps using List.reverseRecOn generalizing r with
  | nil => cases hlookup
  | append_singleton steps step ih =>
    rw [run_concat] at hlookup
    by_cases hmaps : ∃ path, Maps n path ((start clock).run steps).2 step
    · obtain ⟨path, hmaps⟩ := hmaps
      obtain ⟨r', hlookup', ⟨m', f, rfl, hstat, hbytes, htime⟩, -⟩ := hmaps.fresh
      cases hlookup.symm.trans hlookup'
      cases hm
      exact ⟨steps, f, List.prefix_append .., FileSpace.node?_place_of_stat hstat, hbytes, htime⟩
    · rw [not_exists] at hmaps
      obtain ⟨r₀, hlookup₀, hpath, hmapping⟩ := descends_of_not_maps hmaps hlookup
      rcases hmapping with hmapping | hmapping
      · obtain ⟨earlier, f, hinit, hf⟩ := ih hlookup₀ (hmapping ▸ hm)
        exact ⟨earlier, f, hinit.trans (List.prefix_append ..), hpath ▸ hf⟩
      · cases hmapping.symm.trans hm

/-- Of files that can be told apart, one that has the size and the time of an earlier one is that
one, and nothing was written in between. -/
theorem same_of_agrees {steps : List Step} (htimes : ∀ step ∈ steps, ¬step.setsTime)
    (happart : Discernible path s steps) {f f' : File}
    (hf : s.space.node? path.place = some (.file f))
    (hf' : (s.run steps).2.space.node? path.place = some (.file f'))
    (hsize : f'.bytes.size = f.bytes.size) (htime : f'.time = f.time) :
    f'.bytes = f.bytes ∧ ¬Written path s steps := by
  rcases origin_of_run htimes hf' with
    ⟨hnot, g, hg, hbytes, -⟩ | ⟨before, step, hinit, hwrites, g, hg, hbytes, htime'⟩
  · cases hf.symm.trans hg
    exact ⟨hbytes.symm, hnot⟩
  · -- What was written last would be told from the earlier file.
    refine absurd ?_ (happart before step hinit hwrites [] (List.nil_prefix) f g hf hg ?_)
    · rw [htime', htime]
    · rw [hbytes, hsize]

/-- The same holds from any moment of a run on. -/
theorem Discernible.of_append {earlier later : List Step}
    (h : Discernible path s (earlier ++ later)) : Discernible path (s.run earlier).2 later := by
  intro before step hinit hwrites earlier' hearlier f g hf hg
  rw [← run_append] at hwrites hf hg
  refine h (earlier ++ before) step ?_ hwrites (earlier ++ earlier') ?_ f g hf ?_
  · rw [List.append_assoc, List.prefix_append_right_inj]
    exact hinit
  · rwa [List.prefix_append_right_inj]
  · rwa [List.append_assoc]

/-- A `refresh` that succeeds leaves a reader with the mapping that a new reader has. -/
theorem refresh_of_run {clock : Nat → Nat} {steps : List Step}
    (htimes : ∀ step ∈ steps, ¬step.setsTime)
    (happart : Discernible r.path (start clock) steps) {flag : Bool}
    (hlookup : ((start clock).run steps).2.readers.lookup n = some r)
    (hreply : (((start clock).run steps).2.step (.reader n .refresh)).2 = .ok (.flag flag)) :
    ∃ m cursor f, (((start clock).run steps).2.step (.reader n .refresh)).1.readers.lookup n =
        some ⟨r.path, some m, cursor⟩ ∧
      ((start clock).run steps).2.space.stat r.path = .ok (.file f) ∧
      m.image.bytes = f.bytes ∧ m.time = f.time := by
  rw [step_reader_of_lookup hlookup] at hreply ⊢
  rcases stepReader_refresh_cases r ((start clock).run steps).2.space with
    ⟨hsame, hkept, hunchanged⟩ | ⟨m', fresh, htaken, -, hopen, -⟩
  · cases flag with
    | true => exact absurd hreply hkept
    | false =>
      -- The file that was mapped at an earlier moment is still there.
      obtain ⟨m, f', hmapping, hstat, hsize, htime⟩ := hunchanged hreply
      obtain ⟨earlier, f, ⟨later, rfl⟩, hf, hbytes, htime'⟩ := source_of_run hlookup hmapping
      obtain ⟨-, hlater⟩ := List.forall_mem_append.1 htimes
      have hf' := FileSpace.node?_place_of_stat hstat
      rw [run_append] at hf'
      obtain ⟨hcontent, -⟩ := same_of_agrees hlater happart.of_append hf hf'
        (by rw [hsize, hbytes]) (htime.trans htime')
      rw [hsame, lookup_putAt_self]
      exact ⟨m, r.cursor, f', by rw [← hmapping], hstat, hbytes.trans hcontent.symm, htime.symm⟩
  · obtain ⟨m, f, rfl, hstat, hbytes, htime⟩ := fresh_of_open hopen
    rw [htaken]
    exact ⟨m, none, f, lookup_putAt_self .., hstat, hbytes, htime⟩

/-- A `refresh` that succeeds tells whether the file was written since the reader mapped it. -/
theorem flag_eq_true_iff (hlookup : s.readers.lookup n = some r) (hfresh : Fresh s.space path r)
    {rest : List Step} (hkeeps : s.Along (Keeps n) rest)
    (htimes : ∀ step ∈ rest, ¬step.setsTime) (happart : Discernible path s rest) {flag : Bool}
    (hreply : ((s.run rest).2.step (.reader n .refresh)).2 = .ok (.flag flag)) :
    flag = true ↔ Written path s rest := by
  obtain ⟨m, f, rfl, hstat, hbytes, htime⟩ := hfresh
  have hnode := FileSpace.node?_place_of_stat hstat
  cases hlookup' : (s.run rest).2.readers.lookup n with
  | none =>
    rw [step_reader_of_none hlookup'] at hreply
    cases hreply
  | some r' =>
    obtain ⟨r₀, hlookup₀, hpath, hmapping⟩ := descends_of_keeps hkeeps hlookup'
    cases hlookup.symm.trans hlookup₀
    rw [step_reader_of_lookup hlookup'] at hreply
    -- The reader compares with the mapping that it had at the beginning of the run.
    have hold {m' : Mapping} (hm' : r'.mapping = some m') : m' = m := by
      rw [hm'] at hmapping
      simpa using hmapping
    have hplace {f' : File} (hstat' : (s.run rest).2.space.stat r'.path = .ok (.file f')) :
        (s.run rest).2.space.node? path.place = some (.file f') := by
      rw [hpath] at hstat'
      exact FileSpace.node?_place_of_stat hstat'
    rcases stepReader_refresh_cases r' (s.run rest).2.space with
      ⟨-, hkept, hunchanged⟩ | ⟨m', fresh, htaken, hm', hopen, hchanged⟩
    · cases flag with
      | true => exact absurd hreply hkept
      | false =>
        obtain ⟨m', f', hm', hstat', hsize, htime'⟩ := hunchanged hreply
        cases hold hm'
        refine iff_of_false Bool.false_ne_true ?_
        exact (same_of_agrees htimes happart hnode (hplace hstat') (by rw [hsize, hbytes])
          (htime'.trans htime)).2
    · rw [htaken] at hreply
      cases hreply
      cases hold hm'
      obtain ⟨-, f', -, hstat', -⟩ := fresh_of_open hopen
      refine iff_of_true rfl ?_
      rcases origin_of_run htimes (hplace hstat') with
        ⟨-, g, hg, hsame, hsametime⟩ | ⟨before, step, hinit, hwrites, -⟩
      · -- An old file at the place would be the one that was mapped, and count as unchanged.
        cases hnode.symm.trans hg
        refine absurd ⟨?_, ?_⟩ (hchanged f' hstat')
        · rw [hbytes, hsame]
        · rw [htime, hsametime]
      · exact ⟨before, step, hinit, hwrites⟩

/-! ### Snapshots -/

/-- What holds of the readers of a session from some moment on. -/
structure Snapshots (s : Session) : Prop where
  /-- A reader answers from itself alone. -/
  answers : ∀ n r, s.readers.lookup n = some r → ∀ rest, s.Along (Keeps n) rest →
    answersOf n s rest = r.answers (rest.filterMap (Step.question? n))
  /-- A reader that maps a file has the whole of it, and nothing else answers. -/
  mapped : ∀ n path step, Maps n path s step → ∃ r, (s.step step).1.readers.lookup n = some r ∧
    Fresh s.space path r ∧ ∀ rest, (s.step step).1.Along (Keeps n) rest →
      answersOf n (s.step step).1 rest = r.answers (rest.filterMap (Step.question? n))
  /-- A `refresh` that fails or finds nothing new might as well not have been called. -/
  kept : ∀ n, (s.step (.reader n .refresh)).2 ≠ .ok (.flag true) → ∀ rest,
    ((s.step (.reader n .refresh)).1.run rest).1 = (s.run rest).1 ∧
      Agree (s.run rest).2 ((s.step (.reader n .refresh)).1.run rest).2
  /-- One that takes a new file does the same as opening the reader anew. -/
  taken : ∀ n r, s.readers.lookup n = some r →
    (s.step (.reader n .refresh)).2 = .ok (.flag true) →
    (s.step (.open n r.path)).2 = .ok .unit ∧ ∀ rest,
      ((s.step (.reader n .refresh)).1.run rest).1 = ((s.step (.open n r.path)).1.run rest).1 ∧
        Agree ((s.step (.open n r.path)).1.run rest).2
          ((s.step (.reader n .refresh)).1.run rest).2

theorem snapshots (s : Session) : s.Snapshots where
  answers n r hlookup rest hrest := answersOf_eq hlookup hrest
  mapped n path step hmaps := by
    obtain ⟨r, hlookup, hfresh, -⟩ := hmaps.fresh
    exact ⟨r, hlookup, hfresh, fun rest hrest => answersOf_eq hlookup hrest⟩
  kept n hkept rest := (agree_of_kept hkept).run rest
  taken n r hlookup htaken := by
    obtain ⟨hreply, hagree⟩ := agree_of_taken hlookup htaken
    exact ⟨hreply, hagree.run⟩

/-- Readers read snapshots, in whatever order the steps of a session come: a reader answers from the
one file that it mapped when it was opened or last took a new one, and a `refresh` that takes none
changes nothing.

Where no time is set by hand and each file that was written at the path differs in size or time from
those before, a reader has after each `refresh` that succeeds the mapping which a new reader has, if
the file can be opened, so both give the same answers, until `findNext` is asked of a cursor that
was there before.  And the `refresh` takes a new file just when one was written since the reader
mapped its own. -/
theorem snapshots_run (clock : Nat → Nat) (steps : List Step) :
    let s := ((start clock).run steps).2
    s.Snapshots ∧
    ((∀ step ∈ steps, ¬step.setsTime) → ∀ n r flag, s.readers.lookup n = some r →
      Discernible r.path (start clock) steps →
      (s.step (.reader n .refresh)).2 = .ok (.flag flag) →
      ∃ m cursor f,
        (s.step (.reader n .refresh)).1.readers.lookup n = some ⟨r.path, some m, cursor⟩ ∧
        s.space.stat r.path = .ok (.file f) ∧ m.image.bytes = f.bytes ∧ m.time = f.time ∧
        ∀ fresh, Reader.open s.space r.path = .ok fresh → fresh = ⟨r.path, some m, none⟩ ∧
          ∀ questions, Reader.FindsFirst questions →
            (∀ question ∈ questions, question.isQuestion = true) →
            Reader.answers ⟨r.path, some m, cursor⟩ questions = fresh.answers questions) ∧
    ∀ n path step rest, Maps n path s step → (s.step step).1.Along (Keeps n) rest →
      (∀ step' ∈ rest, ¬step'.setsTime) → Discernible path (s.step step).1 rest → ∀ flag,
      (((s.step step).1.run rest).2.step (.reader n .refresh)).2 = .ok (.flag flag) →
        (flag = true ↔ Written path (s.step step).1 rest) := by
  intro s
  refine ⟨s.snapshots, ?_, ?_⟩
  · intro htimes n r flag hlookup happart hreply
    obtain ⟨m, cursor, f, hnext, hstat, hbytes, htime⟩ :=
      refresh_of_run htimes happart hlookup hreply
    refine ⟨m, cursor, f, hnext, hstat, hbytes, htime, fun fresh hopen => ?_⟩
    obtain ⟨m', f', rfl, hstat', hbytes', htime'⟩ := fresh_of_open hopen
    cases hstat.symm.trans hstat'
    cases Mapping.eq_of_bytes_eq (hbytes'.trans hbytes.symm) (htime'.trans htime.symm)
    exact ⟨rfl, fun questions hfirst hquestions =>
      Reader.answers_forget r.path (some m) cursor hfirst hquestions⟩
  · intro n path step rest hmaps hkeeps htimes happart flag hreply
    obtain ⟨r, hlookup, hfresh, hspace⟩ := hmaps.fresh
    rw [← hspace] at hfresh
    exact flag_eq_true_iff hlookup hfresh hkeeps htimes happart hreply

/-- A `refresh` that finds the file unchanged keeps the cursor, so the reader goes on with a search
that a new reader knows nothing of. -/
theorem findNext_of_unchanged {c : Cursor} {k : Nat}
    (hlookup : s.readers.lookup n = some ⟨path, some m, some c⟩)
    (hopen : Reader.open s.space path = .ok ⟨path, some m, none⟩) :
    let t := (s.step (.reader n .refresh)).1
    (s.step (.reader n .refresh)).2 = .ok (.flag false) ∧
      (t.step (.reader n .findNext)).2 =
        replyOf .bytes? (Reader.findNext ⟨path, some m, some c⟩).1 ∧
      (t.step (.open k path)).2 = .ok .unit ∧
      ((t.step (.open k path)).1.step (.reader k .findNext)).2 = .ok (.bytes? none) := by
  obtain ⟨m', f, hm', hstat, hbytes, htime⟩ := fresh_of_open hopen
  cases hm'
  -- The file has the size and the time that the reader remembers, so nothing is taken.
  have hsame : Reader.refresh ⟨path, some m, some c⟩ s.space =
      .ok (false, ⟨path, some m, some c⟩) :=
    Reader.refresh_of_same rfl hstat ⟨by rw [hbytes], htime.symm⟩
  have hreply : (s.step (.reader n .refresh)).2 = .ok (.flag false) := by
    rw [step_refresh_of_ok hlookup hsame]
  have hagree : Agree s (s.step (.reader n .refresh)).1 := agree_of_kept (by simp [hreply])
  have hopen' : Reader.open (s.step (.reader n .refresh)).1.space path =
      .ok ⟨path, some m, none⟩ := by
    rw [hagree.space, hopen]
  have hnone : Reader.findNext ⟨path, some m, none⟩ = (.ok none, ⟨path, some m, none⟩) :=
    Reader.findNext_eq_none rfl rfl
  intro t
  refine ⟨hreply, ?_, ?_, ?_⟩
  · rw [step_reader_of_lookup ((hagree.readers n).trans hlookup)]
    rfl
  · rw [step_open_of_ok hopen']
  · rw [step_open_of_ok hopen', step_reader_of_lookup (lookup_putAt_self ..)]
    simp only [stepReader, hnone, replyOf]

/-- A `refresh` takes a file that has the size and the time of the one that was mapped for that one.
So the reader goes on with the old records, and a new reader has the new ones. -/
theorem stale_of_agrees {cursor : Option Cursor} {k : Nat} {rs rs' : List Record} {f : File}
    (hlookup : s.readers.lookup n = some ⟨path, some m, cursor⟩) (hrs : Draft.Storable rs)
    (hbytes : m.image.bytes = (Draft.ofRecords rs).image)
    (hstat : s.space.stat path = .ok (.file f)) (hreadable : f.isReadable)
    (hrs' : Draft.Storable rs') (hbytes' : f.bytes = (Draft.ofRecords rs').image)
    (hagrees : f.bytes.size = m.image.bytes.size ∧ f.time = m.time) (key : ByteArray) (i : Nat) :
    let t := (s.step (.reader n .refresh)).1
    (s.step (.reader n .refresh)).2 = .ok (.flag false) ∧
      (t.step (.reader n (.nth key i))).2 = .ok (.bytes? (Record.valuesOf key rs)[i]?) ∧
      (t.step (.open k path)).2 = .ok .unit ∧
      ((t.step (.open k path)).1.step (.reader k (.nth key i))).2 =
        .ok (.bytes? (Record.valuesOf key rs')[i]?) := by
  have hreply : (s.step (.reader n .refresh)).2 = .ok (.flag false) := by
    rw [step_refresh_of_ok hlookup (Reader.refresh_of_same rfl hstat hagrees)]
  have hagree : Agree s (s.step (.reader n .refresh)).1 := agree_of_kept (by simp [hreply])
  obtain ⟨image, himage, hopen⟩ :=
    Reader.open_of_stat hstat hreadable (hbytes' ▸ hrs'.addressable.parse_image)
  rw [← hagree.space] at hopen
  intro t
  refine ⟨hreply, ?_, ?_, ?_⟩
  · rw [step_reader_of_lookup ((hagree.readers n).trans hlookup)]
    simp only [stepReader, Reader.ask_of_mapping (r := ⟨path, some m, cursor⟩) rfl,
      Image.nth_eq_getElem? (hrs.occurrences_image hbytes key), replyOf]
  · rw [step_open_of_ok hopen]
  · rw [step_open_of_ok hopen, step_reader_of_lookup (lookup_putAt_self ..)]
    simp only [stepReader, Reader.ask_of_mapping (r := ⟨path, some ⟨image, f.time⟩, none⟩) rfl,
      Image.nth_eq_getElem? (hrs'.occurrences_image (himage.trans hbytes') key), replyOf]

/-! ### A database with two values for a key -/

namespace Sample

/-- The steps that build it. -/
def building : List Step :=
  [.build 0 ⟨[0x61]⟩ none, .builder 0 (.addMany Builder.Sample.records), .builder 0 .finish]

/-- The session after that. -/
def built : Session :=
  ⟨Builder.Sample.finished, [(0, { Builder.Sample.filled with state := .finished })], []⟩

theorem run_building : (empty.run building).2 = built := by
  simp only [building, Session.run, Session.step, build_first]
  rfl

/-- A new reader of it. -/
theorem exists_reader : ∃ image time,
    Reader.open Builder.Sample.finished ⟨[0x61]⟩ = .ok ⟨⟨[0x61]⟩, some ⟨image, time⟩, none⟩ ∧
      image.bytes = (Draft.ofRecords Builder.Sample.records).image := by
  obtain ⟨r, hopen⟩ := Builder.exists_reader_of_finish Builder.Sample.open_eq
    Builder.Sample.addAll_eq Builder.Sample.finish_eq (by decide)
  obtain ⟨⟨image, time⟩, hmapping, hbytes⟩ := Builder.image_of_finish Builder.Sample.open_eq
    Builder.Sample.addAll_eq Builder.Sample.finish_eq hopen
  obtain ⟨m, -, rfl⟩ := Reader.open_eq_ok.1 hopen
  cases hmapping
  exact ⟨image, time, hopen, hbytes⟩

/-- The steps up to where a reader has found the first value. -/
def positioned : List Step :=
  building ++ [.open 0 ⟨[0x61]⟩, .reader 0 (.findKey ⟨#[0x6b]⟩)]

/-- The reader goes on to the second one. -/
theorem run_positioned : ∃ m c,
    Reader.open Builder.Sample.finished ⟨[0x61]⟩ = .ok ⟨⟨[0x61]⟩, some m, none⟩ ∧
    (empty.run positioned).2 = { built with readers := [(0, ⟨⟨[0x61]⟩, some m, some c⟩)] } ∧
    (Reader.findNext ⟨⟨[0x61]⟩, some m, some c⟩).1 = .ok (some ⟨#[3]⟩) := by
  obtain ⟨image, time, hopen, hbytes⟩ := exists_reader
  have hstorable := (Builder.addAll_of_open Builder.Sample.open_eq Builder.Sample.addAll_eq).2
  have hvalues : Record.valuesOf ⟨#[0x6b]⟩ Builder.Sample.records = [⟨#[1]⟩, ⟨#[3]⟩] := by decide
  have hoccurrences := hstorable.occurrences_image hbytes ⟨#[0x6b]⟩
  rw [hvalues] at hoccurrences
  obtain ⟨c, hfind, hnext⟩ := Reader.findNext_of_findKey
    (r := ⟨⟨[0x61]⟩, some ⟨image, time⟩, none⟩) rfl hoccurrences
  refine ⟨_, c, hopen, ?_, hnext⟩
  have hopened : built.step (.open 0 ⟨[0x61]⟩) =
      ({ built with readers := [(0, ⟨⟨[0x61]⟩, some ⟨image, time⟩, none⟩)] }, .ok .unit) :=
    step_open_of_ok hopen
  rw [positioned, run_append, run_building, run_cons, hopened, run_cons,
    step_reader_of_lookup rfl]
  simp only [stepReader, hfind]
  rfl

end Sample

/-! ### Two databases of one size

They are written at one path, one after the other, and a reader is opened in between. -/

namespace Sample

/-- The records of the first one. -/
def former : List Record := [⟨⟨#[0x6b]⟩, ⟨#[1]⟩⟩]

/-- The records of the second one. -/
def latter : List Record := [⟨⟨#[0x6b]⟩, ⟨#[2]⟩⟩]

theorem storable_former : Draft.Storable former :=
  ⟨by decide, by rintro r hr; cases List.mem_singleton.1 hr; exact ⟨by decide, by decide⟩⟩

theorem storable_latter : Draft.Storable latter :=
  ⟨by decide, by rintro r hr; cases List.mem_singleton.1 hr; exact ⟨by decide, by decide⟩⟩

theorem size_latter :
    (Draft.ofRecords latter).image.size = (Draft.ofRecords former).image.size := by
  have hend : (Draft.ofRecords latter).recordEnd = (Draft.ofRecords former).recordEnd := by decide
  rw [Draft.size_image, Draft.size_image, Draft.tablesSize_eq, Draft.tablesSize_eq, Draft.width,
    Draft.width, hend]
  rfl

variable (clock : Nat → Nat)

/-- The files when the first one was written. -/
def earlier : FileSpace :=
  (FileSpace.start topSize clock).install [[0x61]] (Draft.ofRecords former).image writtenMode

/-- The files when the second one was put in its place. -/
def later : FileSpace :=
  (earlier clock).install [[0x61]] (Draft.ofRecords latter).image writtenMode

theorem stat_earlier : (earlier clock).stat ⟨[0x61]⟩ =
    .ok (.file ⟨(Draft.ofRecords former).image, writtenMode, clock 1⟩) := rfl

theorem stat_later : (later clock).stat ⟨[0x61]⟩ =
    .ok (.file ⟨(Draft.ofRecords latter).image, writtenMode, clock 2⟩) := rfl

theorem isReadable_written (bytes : ByteArray) (time : Nat) :
    (⟨bytes, writtenMode, time⟩ : File).isReadable = true := by
  change writtenMode.testBit 8 = true
  decide

/-- The step that writes the first one. -/
def writing : List Step := [.write ⟨[0x61]⟩ (Draft.ofRecords former).image]

/-- The reader is opened after that. -/
def reading : List Step := writing ++ [.open 0 ⟨[0x61]⟩]

/-- The step that writes the second one. -/
def overwriting : List Step := [.write ⟨[0x61]⟩ (Draft.ofRecords latter).image]

/-- A session with a reader of the first one. -/
def holding (space : FileSpace) (image : Image) : Session :=
  ⟨space, [], [(0, ⟨⟨[0x61]⟩, some ⟨image, clock 1⟩, none⟩)]⟩

theorem run_writing : ((start clock).run writing).2 = ⟨earlier clock, [], []⟩ := by
  have hwrite : (start clock).space.write ⟨[0x61]⟩ (Draft.ofRecords former).image writtenMode =
      .ok (earlier clock) := rfl
  have hwritten : (start clock).step (.write ⟨[0x61]⟩ (Draft.ofRecords former).image) =
      (⟨earlier clock, [], []⟩, .ok .unit) := step_write_of_ok hwrite
  rw [writing, run_cons, hwritten]
  rfl

/-- The reader maps the first one. -/
theorem run_reading : ∃ image : Image, image.bytes = (Draft.ofRecords former).image ∧
    (((start clock).run writing).2.step (.open 0 ⟨[0x61]⟩)).2 = .ok .unit ∧
    ((start clock).run reading).2 = holding clock (earlier clock) image := by
  obtain ⟨image, himage, hopen⟩ := Reader.open_of_stat (stat_earlier clock)
    (isReadable_written ..) storable_former.addressable.parse_image
  have hopened : (⟨earlier clock, [], []⟩ : Session).step (.open 0 ⟨[0x61]⟩) =
      (holding clock (earlier clock) image, .ok .unit) := step_open_of_ok hopen
  exact ⟨image, himage, by rw [run_writing, hopened],
    by rw [reading, run_concat, run_writing, hopened]⟩

/-- It still has it when the second one was written. -/
theorem run_overwriting (image : Image) :
    ((holding clock (earlier clock) image).run overwriting).2 =
        holding clock (later clock) image ∧
      Written ⟨[0x61]⟩ (holding clock (earlier clock) image) overwriting := by
  have hwrite : (earlier clock).write ⟨[0x61]⟩ (Draft.ofRecords latter).image writtenMode =
      .ok (later clock) := rfl
  have hwritten : (holding clock (earlier clock) image).step
      (.write ⟨[0x61]⟩ (Draft.ofRecords latter).image) =
        (holding clock (later clock) image, .ok .unit) := step_write_of_ok hwrite
  constructor
  · rw [overwriting, run_cons, hwritten]
    rfl
  · exact ⟨[], _, List.prefix_refl _, ⟨_, congrArg Prod.snd hwritten⟩, rfl⟩

/-- If the clock went on in between, the reader finds out. -/
theorem refresh_later (image : Image) (h : clock 2 ≠ clock 1) : ∃ image' : Image,
    Reader.refresh ⟨⟨[0x61]⟩, some ⟨image, clock 1⟩, none⟩ (later clock) =
      .ok (true, ⟨⟨[0x61]⟩, some ⟨image', clock 2⟩, none⟩) := by
  obtain ⟨image', -, hopen⟩ := Reader.open_of_stat (stat_later clock)
    (isReadable_written ..) storable_latter.addressable.parse_image
  have hchanged : ∀ f, Node.file ⟨(Draft.ofRecords latter).image, writtenMode, clock 2⟩ = .file f →
      ¬(f.bytes.size = image.bytes.size ∧ f.time = clock 1) := by
    rintro f hf ⟨-, htime⟩
    rw [← Node.file.inj hf] at htime
    exact h htime
  exact ⟨image', by rw [Reader.refresh_of_changed rfl (stat_later clock) hchanged, hopen,
    Except.map]⟩

theorem not_setsTime : ∀ step ∈ reading ++ overwriting, ¬step.setsTime := by
  simp [reading, writing, overwriting, Step.setsTime]

end Sample

/-- On a clock that counts, the reader takes the second database. -/
theorem snapshots_run_of_written :
    let s := ((start id).run Sample.reading).2
    let t := (s.run Sample.overwriting).2
    (t.step (.reader 0 .refresh)).2 = .ok (.flag true) ∧ Written ⟨[0x61]⟩ s Sample.overwriting ∧
      ∃ m cursor, (t.step (.reader 0 .refresh)).1.readers.lookup 0 =
          some ⟨⟨[0x61]⟩, some m, cursor⟩ ∧
        m.image.bytes = (Draft.ofRecords Sample.latter).image := by
  obtain ⟨image, -, hopened, hreading⟩ := Sample.run_reading id
  have hoverwriting := (Sample.run_overwriting id image).1
  obtain ⟨image', hrefresh⟩ := Sample.refresh_later id image (by decide)
  have hlookup : (Sample.holding id (Sample.later id) image).readers.lookup 0 =
      some ⟨⟨[0x61]⟩, some ⟨image, id 1⟩, none⟩ := rfl
  have hreply : ((Sample.holding id (Sample.later id) image).step (.reader 0 .refresh)).2 =
      .ok (.flag true) := congrArg Prod.snd (step_refresh_of_ok hlookup hrefresh)
  have hstat : (Sample.holding id (Sample.later id) image).space.stat ⟨[0x61]⟩ =
      .ok (.file ⟨(Draft.ofRecords Sample.latter).image, writtenMode, id 2⟩) := Sample.stat_later id
  -- The clock shows no time twice, so the two databases can be told apart.
  have happart : Discernible ⟨[0x61]⟩ (start id) (Sample.reading ++ Sample.overwriting) :=
    discernible_of_injective (FileSpace.stamped_start topSize id) Function.injective_id
      Sample.not_setsTime
  rw [← hoverwriting, ← hreading] at hlookup hreply hstat
  -- The reader has then what is at the path.
  have hmapped := (snapshots_run id (Sample.reading ++ Sample.overwriting)).2.1 Sample.not_setsTime
    0 ⟨⟨[0x61]⟩, some ⟨image, id 1⟩, none⟩ true
  rw [run_append] at hmapped
  obtain ⟨m, cursor, f, hnext, hfile, hbytes, -⟩ := hmapped hlookup happart hreply
  rw [← Node.file.inj (Except.ok.inj (hstat.symm.trans hfile))] at hbytes
  -- And it was written since the reader mapped the former one.
  have hmaps : Maps 0 ⟨[0x61]⟩ ((start id).run Sample.writing).2 (.open 0 ⟨[0x61]⟩) :=
    .inl ⟨rfl, hopened⟩
  obtain ⟨-, hlater⟩ := List.forall_mem_append.1 Sample.not_setsTime
  have hwritten := (snapshots_run id Sample.writing).2.2 0 ⟨[0x61]⟩ (.open 0 ⟨[0x61]⟩)
    Sample.overwriting hmaps ⟨trivial, trivial⟩ hlater
  have hsplit : Sample.writing ++ [.open 0 ⟨[0x61]⟩] = Sample.reading := rfl
  rw [← run_concat, hsplit] at hwritten
  have hflag := hwritten happart.of_append true hreply
  exact ⟨hreply, hflag.1 rfl, m, cursor, hnext, hbytes⟩

/-- A reader that was refreshed need not answer like a new one.  The `refresh` keeps the cursor, and
on a clock that stands still it does not find out that a database of the same size was written. -/
theorem refresh_differs :
    let s := ((empty.run Sample.positioned).2.step (.reader 0 .refresh)).1
    let t := (((start fun _ => 0).run Sample.reading).2.run Sample.overwriting).2
    let u := (t.step (.reader 0 .refresh)).1
    (((empty.run Sample.positioned).2.step (.reader 0 .refresh)).2 = .ok (.flag false) ∧
      (s.step (.reader 0 .findNext)).2 = .ok (.bytes? (some ⟨#[3]⟩)) ∧
      (s.step (.open 1 ⟨[0x61]⟩)).2 = .ok .unit ∧
      ((s.step (.open 1 ⟨[0x61]⟩)).1.step (.reader 1 .findNext)).2 = .ok (.bytes? none)) ∧
    Written ⟨[0x61]⟩ ((start fun _ => 0).run Sample.reading).2 Sample.overwriting ∧
      (t.step (.reader 0 .refresh)).2 = .ok (.flag false) ∧
      (u.step (.reader 0 (.nth ⟨#[0x6b]⟩ 0))).2 = .ok (.bytes? (some ⟨#[1]⟩)) ∧
      (u.step (.open 1 ⟨[0x61]⟩)).2 = .ok .unit ∧
      ((u.step (.open 1 ⟨[0x61]⟩)).1.step (.reader 1 (.nth ⟨#[0x6b]⟩ 0))).2 =
        .ok (.bytes? (some ⟨#[2]⟩)) := by
  intro s t u
  constructor
  · obtain ⟨m, c, hopen, hrun, hnext⟩ := Sample.run_positioned
    have hlookup : (empty.run Sample.positioned).2.readers.lookup 0 =
        some ⟨⟨[0x61]⟩, some m, some c⟩ := by
      rw [hrun]
      rfl
    have hspace : (empty.run Sample.positioned).2.space = Builder.Sample.finished := by
      rw [hrun]
      rfl
    have hkept := findNext_of_unchanged (k := 1) hlookup (hspace.symm ▸ hopen)
    rwa [hnext] at hkept
  · obtain ⟨image, himage, -, hreading⟩ := Sample.run_reading fun _ => 0
    obtain ⟨hoverwriting, hwritten⟩ := Sample.run_overwriting (fun _ => 0) image
    have hformer : Record.valuesOf ⟨#[0x6b]⟩ Sample.former = [⟨#[1]⟩] := by decide
    have hlatter : Record.valuesOf ⟨#[0x6b]⟩ Sample.latter = [⟨#[2]⟩] := by decide
    have hsize : (Draft.ofRecords Sample.latter).image.size = image.bytes.size := by
      rw [himage, Sample.size_latter]
    have hlookup : (Sample.holding (fun _ => 0) (Sample.later fun _ => 0) image).readers.lookup 0 =
        some ⟨⟨[0x61]⟩, some ⟨image, 0⟩, none⟩ := rfl
    have hstale := stale_of_agrees (k := 1) hlookup Sample.storable_former himage
      (Sample.stat_later fun _ => 0) (Sample.isReadable_written ..) Sample.storable_latter rfl
      ⟨hsize, rfl⟩ ⟨#[0x6b]⟩ 0
    rw [hformer, hlatter, ← hoverwriting, ← hreading] at hstale
    rw [← hreading] at hwritten
    exact ⟨hwritten, hstale⟩

end Session

end ConstDb
