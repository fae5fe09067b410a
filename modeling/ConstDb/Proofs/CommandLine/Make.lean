import ConstDb.CommandLine.Run
import ConstDb.Proofs.Builder.Target
import ConstDb.Proofs.Bytes.Pieces
import ConstDb.Proofs.CommandLine.Arguments
import ConstDb.Proofs.RecordText.Reload

/-! # From text to a database and back

`make` turns a text of records into a database, and `dump` and `get` print what is in it.  Texts
have many spellings, but what is printed depends on the records alone: the text that `dump` prints
is the one that `RecordText.print` gives, `make` turns it into the same bytes again, and `get`
prints the values that the records have.

## Key results

- `Command.serves_of_stat`: what is printed of a database
- `Command.make_of_parse`: `make` builds a database of the records of its text
- `Command.serves_of_make`: the round trip
- `Command.answers_of_make_line`, `Command.print_of_make_line`: the same for command lines
-/

namespace ConstDb.Command

variable {s s' : FileSpace} {settings : Settings} {stdin : ByteArray} {db : Path}
  {rs : List Record} {o : Outcome}

/-- Values as they are printed, each with a line feed behind it. -/
def lined (values : List ByteArray) : ByteArray :=
  ByteArray.join (values.map fun value => value ++ "\n".toUTF8)

/-- Whether the commands that print take the file at a path for a database of some records. -/
structure Serves (s : FileSpace) (db : Path) (rs : List Record) : Prop where
  dump_eq : ∀ settings stdin,
    run s settings stdin (.dump db) = (.success (RecordText.print rs), s)
  nth_eq : ∀ settings stdin key n, run s settings stdin (.get db key (.nth n)) =
    match (Record.valuesOf key rs)[n]? with
    | some value => (.success (value ++ "\n".toUTF8), s)
    | none => (.absent, s)
  all_eq : ∀ settings stdin key, run s settings stdin (.get db key .all) =
    if Record.valuesOf key rs = [] then (.absent, s)
    else (.success (lined (Record.valuesOf key rs)), s)

/-! ### Printing -/

/-- The values that a selector asks for are printed, unless there are none. -/
theorem runGet_of_select {image : Image} {key : ByteArray} {which : Selector}
    {values : List ByteArray} (h : select image key which = .ok values) :
    runGet image key which = if values = [] then .absent else .success (lined values) := by
  have hlined (before : ByteArray) :
      values.foldl (fun out value => out ++ value ++ "\n".toUTF8) before =
        before ++ lined values := by
    rw [lined, ← ByteArray.foldl_append_eq, List.foldl_map]
    simp only [ByteArray.append_assoc]
  rw [runGet, h]
  cases values with
  | nil => rfl
  | cons value rest =>
    simp only [hlined]
    rw [if_neg (by simp), ByteArray.empty_append]

/-- A file of records that may be read is taken for a database of these records. -/
theorem serves_of_stat {f : File} (hstat : s.stat db = .ok (.file f)) (hreadable : f.isReadable)
    (hrs : Draft.Storable rs) (hbytes : f.bytes = (Draft.ofRecords rs).image) :
    Serves s db rs := by
  obtain ⟨image, himage, hbytes'⟩ := hrs.ofBytes_image
  rw [← hbytes] at himage
  have hwith (go : Image → Outcome) : withImage s db go = go image := by
    rw [withImage, Mapping.load_of_stat hstat hreadable himage]
  have hoccurrences := hrs.occurrences_image hbytes'
  refine ⟨fun _ _ => ?_, fun _ _ key n => ?_, fun _ _ key => ?_⟩
  · rw [run, hwith, runDump, Image.dump_eq, hrs.records_image hbytes']
  · have hselect : select image key (.nth n) = .ok (Record.valuesOf key rs)[n]?.toList := by
      rw [select, Image.nth_eq_getElem? (hoccurrences key), Except.map]
    rw [run, hwith, runGet_of_select hselect]
    cases (Record.valuesOf key rs)[n]? with
    | none => rfl
    | some value =>
      simp [lined]
  · have hselect : select image key .all = .ok (Record.valuesOf key rs) := by
      rw [select, Image.findAll_of_occurrences (hoccurrences key)]
    rw [run, hwith, runGet_of_select hselect]
    split <;> rfl

/-! ### Building -/

/-- A text of records is built in one go. -/
theorem make_of_parse (h : RecordText.parse (.ofBytes stdin) = ⟨rs, none⟩) (s : FileSpace)
    (settings : Settings) (db : Path) :
    run s settings stdin (.make db (Path.ofText "-")) =
      (.ofExcept (some ("cannot build " ++ db.text)) ByteArray.empty
          (Builder.create s db settings.mode (.addAll rs (.done (.ok ())))).1,
        (Builder.create s db settings.mode (.addAll rs (.done (.ok ())))).2) := by
  rw [run, runMake, source, if_pos rfl]
  simp only [Builder.Fill.load, h]

/-- A run that succeeds leaves the file of the records. -/
theorem stat_of_make (h : RecordText.parse (.ofBytes stdin) = ⟨rs, none⟩)
    (hrun : run s settings stdin (.make db (Path.ofText "-")) = (o, s')) (hstatus : o.status = 0) :
    Draft.Storable rs ∧ s'.Admits db ∧
      ∃ f, s'.stat db = .ok (.file f) ∧ f.bytes = (Draft.ofRecords rs).image := by
  rw [make_of_parse h] at hrun
  cases hcreate : Builder.create s db settings.mode (.addAll rs (.done (.ok ()))) with
  | mk result s₁ =>
    rw [hcreate] at hrun
    cases hrun
    cases result with
    | error e => cases hstatus
    | ok u =>
      obtain ⟨-, hrs, -⟩ := Builder.create_addAll_eq_ok.1 (congrArg Prod.fst hcreate)
      obtain ⟨time, hstat⟩ := Builder.stat_of_create hcreate
      exact ⟨hrs, (Builder.admits_of_create hcreate).2, _, hstat, rfl⟩

/-- A text of the grammar has the records that it is a text of. -/
theorem parse_of_accepts (h : RecordText.Accepts rs stdin.data.toList) :
    RecordText.parse (.ofBytes stdin) = ⟨rs, none⟩ := by
  rw [RecordText.parse, Input.source_ofBytes]
  exact Source.records_of_accepts rfl h

/-- So has the text that is printed of records. -/
theorem parse_print (hrs : Draft.Storable rs) :
    RecordText.parse (.ofBytes (RecordText.print rs)) = ⟨rs, none⟩ := by
  have hsource : (Input.ofBytes (RecordText.print rs)).source.bytes =
      RecordText.print rs ++ ByteArray.empty := by
    rw [Input.source_ofBytes, ByteArray.append_empty]
  exact RecordText.parse_print hrs.fits hsource

/-- The text that is printed of records can be made into a database of them. -/
theorem status_make_print (hrs : Draft.Storable rs) (hadmits : s.Admits db) (settings : Settings) :
    (run s settings (RecordText.print rs) (.make db (Path.ofText "-"))).1.status = 0 := by
  rw [make_of_parse (parse_print hrs), Builder.create_addAll_eq_ok.2 ⟨hadmits, hrs, rfl⟩]
  rfl

/-- The round trip.  When a database was made of a text, what is printed of it depends on nothing
but the records of the text, and not on how they were spelled or on what stands behind them.  The
text that `dump` prints can be made into a database again at the same path, and wherever it is made
into one, this has the same bytes and prints the same. -/
theorem serves_of_make (haccepts : RecordText.Accepts rs stdin.data.toList)
    (h : run s settings stdin (.make db (Path.ofText "-")) = (o, s')) (hstatus : o.status = 0) :
    ∃ f, s'.stat db = .ok (.file f) ∧ (f.isReadable → Serves s' db rs) ∧
      (∀ settings, (run s' settings (RecordText.print rs) (.make db (Path.ofText "-"))).1.status =
        0) ∧
      ∀ t t' settings db' o',
        run t settings (RecordText.print rs) (.make db' (Path.ofText "-")) = (o', t') →
        o'.status = 0 →
        ∃ f', t'.stat db' = .ok (.file f') ∧ f'.bytes = f.bytes ∧
          (f'.isReadable → Serves t' db' rs) := by
  obtain ⟨hrs, hadmits, f, hstat, hbytes⟩ := stat_of_make (parse_of_accepts haccepts) h hstatus
  refine ⟨f, hstat, fun hreadable => serves_of_stat hstat hreadable hrs hbytes,
    status_make_print hrs hadmits, fun t t' settings db' o' h' hstatus' => ?_⟩
  obtain ⟨-, -, f', hstat', hbytes'⟩ := stat_of_make (parse_print hrs) h' hstatus'
  exact ⟨f', hstat', hbytes'.trans hbytes.symm,
    fun hreadable => serves_of_stat hstat' hreadable hrs hbytes'⟩

/-- The records of the sample with leading zeros in two lengths, and a plus sign behind the empty
line. -/
def sampleText : ByteArray :=
  ⟨#[0x2b, 0x30, 0x31, 0x2c, 0x31, 0x3a, 0x6b, 0x2d, 0x3e, 1, 0x0a,
    0x2b, 0x30, 0x2c, 0x31, 0x3a, 0x2d, 0x3e, 0xff, 0x0a,
    0x2b, 0x31, 0x2c, 0x30, 0x31, 0x3a, 0x6b, 0x2d, 0x3e, 3, 0x0a, 0x0a, 0x2b]⟩

/-- The zeros and the plus sign are not printed. -/
theorem serves_of_make_zeros :
    run (.empty 15) .default sampleText (.make ⟨[0x61]⟩ (Path.ofText "-")) =
        (.success ByteArray.empty, Builder.Sample.finished) ∧
      Serves Builder.Sample.finished ⟨[0x61]⟩ Builder.Sample.records := by
  have hone : RecordText.IsLength 1 [0x31] := by decide
  have hzero : RecordText.IsLength 0 [0x30] := by decide
  have hpadded : RecordText.IsLength 1 [0x30, 0x31] := by decide
  have haccepts : RecordText.Accepts Builder.Sample.records sampleText.data.toList :=
    ⟨_, .cons (.intro hpadded hone) (.cons (.intro hzero hone) (.cons (.intro hone hpadded) .nil)),
      .inr ⟨[0x2b], by decide⟩⟩
  have hrun := make_of_parse (parse_of_accepts haccepts) (.empty 15) .default ⟨[0x61]⟩
  have hcreate : Builder.create (.empty 15) ⟨[0x61]⟩ Settings.default.mode
      (.addAll Builder.Sample.records (.done (.ok ()))) = _ := Builder.Sample.create_eq
  rw [hcreate] at hrun
  refine ⟨hrun, ?_⟩
  obtain ⟨f, hstat, hserves, -⟩ := serves_of_make haccepts hrun rfl
  obtain ⟨f', hstat', hreadable, -⟩ := Builder.Sample.exists_file
  cases hstat.symm.trans hstat'
  exact hserves hreadable

end ConstDb.Command

/-! ### Command lines -/

namespace ConstDb

open Arguments

/-- Which of the values of a key a selector asks for. -/
def Selector.pick : Selector → List ByteArray → List ByteArray
  | .nth n, values => values[n]?.toList
  | .all, values => values

/-- Values that are printed, or none. -/
def Outcome.printed (values : List ByteArray) : Outcome :=
  if values = [] then .absent else .success (Command.lined values)

namespace Command

variable {s s' : FileSpace} {settings : Settings} {stdin db : ByteArray} {args : List ByteArray}
  {path : Path} {rs : List Record} {o : Outcome}

/-- Whether the tool takes the file at a path for a database of some records. -/
structure Answers (s : FileSpace) (db : ByteArray) (rs : List Record) : Prop where
  dump_eq : ∀ settings stdin args, Spells false args [db] →
    (parse ("dump".toUTF8 :: args)).perform s settings stdin = (.success (RecordText.print rs), s)
  get_eq : ∀ settings stdin args key which selector, Spells false args [db, key, which] →
    selector? which = some selector →
    (parse ("get".toUTF8 :: args)).perform s settings stdin =
      (.printed (selector.pick (Record.valuesOf key rs)), s)
  first_eq : ∀ settings stdin args key, Spells false args [db, key] →
    (parse ("get".toUTF8 :: args)).perform s settings stdin =
      (.printed (Record.valuesOf key rs)[0]?.toList, s)

/-- What a selector asks for is printed. -/
theorem Serves.get_eq (h : Serves s path rs) (settings : Settings) (stdin key : ByteArray)
    (which : Selector) :
    run s settings stdin (.get path key which) =
      (.printed (which.pick (Record.valuesOf key rs)), s) := by
  cases which with
  | nth n =>
    rw [h.nth_eq, Selector.pick]
    cases (Record.valuesOf key rs)[n]? with
    | none => rfl
    | some value => simp [Outcome.printed, lined]
  | all =>
    rw [h.all_eq, Selector.pick, Outcome.printed]
    split <;> rfl

/-- The tool answers as its commands do. -/
theorem Serves.answers (h : Serves s path rs) (hdb : path? db = some path) : Answers s db rs where
  dump_eq settings stdin args hargs := by
    rw [parse_of_spells rfl hargs]
    simp only [ask, Verb.command?, hdb]
    exact h.dump_eq settings stdin
  get_eq settings stdin args key which selector hargs hwhich := by
    rw [parse_of_spells rfl hargs]
    simp only [ask, Verb.command?, hdb, hwhich]
    exact h.get_eq settings stdin key selector
  first_eq settings stdin args key hargs := by
    rw [parse_of_spells rfl hargs]
    simp only [ask, Verb.command?, hdb]
    exact h.get_eq settings stdin key (.nth 0)

/-- The line that makes a database of the standard input, which needs a path. -/
theorem perform_make (hargs : Spells false args [db, "-".toUTF8]) :
    (parse ("make".toUTF8 :: args)).perform s settings stdin =
      match path? db with
      | none => (.misused, s)
      | some path => run s settings stdin (.make path (Path.ofText "-")) := by
  have hdash : path? "-".toUTF8 = some (Path.ofText "-") := rfl
  rw [parse_of_spells rfl hargs]
  simp only [ask, Verb.command?, hdash]
  cases path? db <;> rfl

/-- A line that makes a database has a path if it succeeds. -/
theorem run_of_perform_make (hargs : Spells false args [db, "-".toUTF8])
    (h : (parse ("make".toUTF8 :: args)).perform s settings stdin = (o, s'))
    (hstatus : o.status = 0) :
    ∃ path, path? db = some path ∧
      run s settings stdin (.make path (Path.ofText "-")) = (o, s') := by
  rw [perform_make hargs] at h
  cases hdb : path? db with
  | none =>
    rw [hdb] at h
    cases h
    cases hstatus
  | some path =>
    rw [hdb] at h
    exact ⟨path, rfl, h⟩

/-- The round trip of command lines.  When `make db -` has succeeded, `dump db` prints the records
of the text, `get db key which` prints the values that the records have, and `make` can be run again
on what `dump` prints, with the same bytes for result. -/
theorem answers_of_make_line (haccepts : RecordText.Accepts rs stdin.data.toList)
    (hargs : Spells false args [db, "-".toUTF8])
    (h : (parse ("make".toUTF8 :: args)).perform s settings stdin = (o, s'))
    (hstatus : o.status = 0) :
    ∃ path f, path? db = some path ∧ s'.stat path = .ok (.file f) ∧
      (f.isReadable → Answers s' db rs) ∧
      (∀ settings, ((parse ("make".toUTF8 :: args)).perform s' settings
        (RecordText.print rs)).1.status = 0) ∧
      ∀ t t' settings db' args' o', Spells false args' [db', "-".toUTF8] →
        (parse ("make".toUTF8 :: args')).perform t settings (RecordText.print rs) = (o', t') →
        o'.status = 0 →
        ∃ path' f', path? db' = some path' ∧ t'.stat path' = .ok (.file f') ∧ f'.bytes = f.bytes ∧
          (f'.isReadable → Answers t' db' rs) := by
  obtain ⟨path, hdb, hrun⟩ := run_of_perform_make hargs h hstatus
  obtain ⟨hrs, hadmits, f, hstat, hbytes⟩ := stat_of_make (parse_of_accepts haccepts) hrun hstatus
  refine ⟨path, f, hdb, hstat,
    fun hreadable => (serves_of_stat hstat hreadable hrs hbytes).answers hdb,
    fun settings => ?_, ?_⟩
  · rw [perform_make hargs, hdb]
    exact status_make_print hrs hadmits settings
  · intro t t' settings db' args' o' hargs' h' hstatus'
    obtain ⟨path', hdb', hrun'⟩ := run_of_perform_make hargs' h' hstatus'
    obtain ⟨-, -, f', hstat', hbytes'⟩ := stat_of_make (parse_print hrs) hrun' hstatus'
    exact ⟨path', f', hdb', hstat', hbytes'.trans hbytes.symm,
      fun hreadable => (serves_of_stat hstat' hreadable hrs hbytes').answers hdb'⟩

/-- So it is for the lines that have nothing but their operands, as long as none looks like an
option.  A key that does can be put behind a double dash. -/
theorem print_of_make_line (haccepts : RecordText.Accepts rs stdin.data.toList)
    (hdb : shape db = .plain)
    (h : (parse ["make".toUTF8, db, "-".toUTF8]).perform s settings stdin = (o, s'))
    (hstatus : o.status = 0) :
    ∃ path f, path? db = some path ∧ s'.stat path = .ok (.file f) ∧ (f.isReadable →
      ∀ settings stdin,
        (parse ["dump".toUTF8, db]).perform s' settings stdin =
          (.success (RecordText.print rs), s') ∧
        ∀ key which selector, selector? which = some selector →
          (shape key = .plain → shape which = .plain →
            (parse ["get".toUTF8, db, key, which]).perform s' settings stdin =
              (.printed (selector.pick (Record.valuesOf key rs)), s')) ∧
          (parse ["get".toUTF8, "--".toUTF8, db, key, which]).perform s' settings stdin =
            (.printed (selector.pick (Record.valuesOf key rs)), s')) := by
  have hdash : shape "-".toUTF8 = .plain := by decide
  have hdouble : shape "--".toUTF8 = .doubleDash := by decide
  have hmake : Spells false [db, "-".toUTF8] [db, "-".toUTF8] :=
    .of_plain (List.forall_mem_cons.2 ⟨hdb, List.forall_mem_singleton.2 hdash⟩)
  obtain ⟨path, f, hpath, hstat, hanswers, -⟩ := answers_of_make_line haccepts hmake h hstatus
  refine ⟨path, f, hpath, hstat, fun hreadable settings stdin => ⟨?_, ?_⟩⟩
  · exact (hanswers hreadable).dump_eq settings stdin [db] (.of_plain (by simp [hdb]))
  · intro key which selector hwhich
    have hget := fun args => (hanswers hreadable).get_eq settings stdin args key which selector
    refine ⟨fun hkey hplain => ?_, ?_⟩
    · exact hget _ (.of_plain (by simp [hdb, hkey, hplain])) hwhich
    · exact hget _ (.doubleDash hdouble (.behind _)) hwhich

end Command

end ConstDb
