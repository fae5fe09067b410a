import ConstDb.Proofs.Builder.Target
import ConstDb.Proofs.CommandLine.Built
import ConstDb.Proofs.Draft.Audit
import ConstDb.Proofs.Reader.Mapping
import ConstDb.Proofs.Record.Distinct

/-! # Thinning out a database

`uniq` asks the index whether the keys of a database differ, and only if they do not it takes the
records of the scan and builds another database of one record for each key.  In a damaged database
the index and the scan may disagree.  Then too a success leaves a database that the scan of the old
one determines, and in which the index leads from each key to its record.

A second run finds nothing to do, if it may open the file.  It may not when the first one was told
to leave the file without permission to be read.

## Key results

- `Command.uniq_cases`: what a run does
- `Command.thins_of_uniq`: what a run leaves
- `Command.uniq_of_storable`: a sound database can be thinned out wherever one can be built
-/

namespace ConstDb

/-- The value of a key that is kept, of all its values. -/
def Keep.pick : Keep → List ByteArray → Option ByteArray
  | .first => List.head?
  | .last => List.getLast?

namespace Keep

/-- Of one value this one is kept. -/
theorem pick_singleton (keep : Keep) (value : ByteArray) : keep.pick [value] = some value := by
  cases keep <;> rfl

theorem mem_of_pick (keep : Keep) {values : List ByteArray} {value : ByteArray}
    (h : keep.pick values = some value) : value ∈ values := by
  cases keep with
  | first => exact List.mem_of_head? h
  | last => exact List.mem_of_getLast? h

end Keep

/-- Whether `kept` are the records `rs` of an image with one record for each key, and another image
has these and its index leads to them. -/
structure Image.ThinsTo (keep : Keep) (image thinned : Image) (rs kept : List Record) : Prop where
  pairs_eq : image.pairs = .ok rs
  pairs_thinned_eq : thinned.pairs = .ok kept
  /-- The keys stand in the order of their first records, each with the value that is kept. -/
  thins : Record.Thins keep.pick rs kept
  nodup : (kept.map Record.key).Nodup
  first_eq : ∀ r ∈ kept, thinned.first r.key = .ok (some r.value)
  /-- The map from the keys to their last values stays what it was. -/
  toMap_eq : keep = .last →
    thinned.toMap.map Std.TreeMap.toList = image.toMap.map Std.TreeMap.toList

namespace Image

variable {image thinned : Image} {keep : Keep} {rs kept : List Record}

/-- An image whose index leads to each of its records is thinned out. -/
theorem thinsTo_self (h : image.hasUniqueKeys = .ok true) (keep : Keep) :
    image.ThinsTo keep image image.records.items image.records.items := by
  obtain ⟨hfailure, hleads⟩ := hasUniqueKeys_eq_true.1 h
  have hpairs : image.pairs = .ok image.records.items := by
    rw [pairs, Walk.toExcept_eq_ok, records, Walk.failure_map]
    exact ⟨rfl, hfailure⟩
  have hnodup := nodup_keys_of_leadsTo hleads
  exact {
    pairs_eq := hpairs
    pairs_thinned_eq := hpairs
    thins := Record.thins_self keep.pick_singleton hnodup
    nodup := hnodup
    first_eq := fun r hr => first_of_leadsTo hleads hr
    toMap_eq := fun _ => rfl }

/-- The file of the records that are kept is thinned out. -/
theorem thinsTo_of_thins (hpairs : image.pairs = .ok rs) (hthins : Record.Thins keep.pick rs kept)
    (hkept : Draft.Storable kept) (hbytes : thinned.bytes = (Draft.ofRecords kept).image) :
    image.ThinsTo keep thinned rs kept := by
  have hpairs' := hkept.pairs_image hbytes
  refine ⟨hpairs, hpairs', hthins, hthins.nodup, fun r hr => ?_, ?_⟩
  · rw [first, nth_eq_getElem? (hkept.occurrences_image hbytes r.key),
      Record.valuesOf_of_nodup hthins.nodup hr]
    rfl
  · rintro rfl
    rw [toMap_of_pairs hpairs, toMap_of_pairs hpairs', Except.map, Except.map,
      Record.toList_lastValues_of_thins hthins]

end Image

namespace Command

variable {s s' : FileSpace} {settings : Settings} {stdin : ByteArray} {db : Path} {keep : Keep}
  {image : Image} {o : Outcome}

/-! ### The records that are kept -/

/-- The records that are kept. -/
theorem keptRecords_eq_ok {rs : List Record} (h : image.pairs = .ok rs) (keep : Keep) :
    ∃ kept, keptRecords image keep = .ok kept ∧ Record.Thins keep.pick rs kept := by
  cases keep with
  | first =>
    refine ⟨Record.keepFirst rs, ?_, Record.thins_keepFirst rs⟩
    rw [keptRecords, h, ← Record.distinct_eq]
  | last =>
    refine ⟨_, ?_, Record.thins_keepLast rs⟩
    rw [keptRecords, h, Image.toMap_of_pairs h, ← Record.distinct_eq]

theorem shortened_eq_some {kept : List Record} (h : shortened image keep = .ok (some kept)) :
    image.hasUniqueKeys = .ok false ∧
      ∃ rs, image.pairs = .ok rs ∧ Record.Thins keep.pick rs kept := by
  have hunique := hasUniqueKeys_of_shortened h
  refine ⟨hunique, ?_⟩
  rw [shortened, hunique] at h
  cases hpairs : image.pairs with
  | error e =>
    rw [keptRecords, hpairs] at h
    cases h
  | ok rs =>
    obtain ⟨kept', hkept, hthins⟩ := keptRecords_eq_ok hpairs keep
    rw [hkept] at h
    cases h
    exact ⟨rs, rfl, hthins⟩

/-! ### Runs -/

/-- A run fails, or finds nothing to do, or replaces the database by one of the records that are
kept. -/
theorem uniq_cases (h : run s settings stdin (.uniq db keep) = (o, s')) :
    o.status = 1 ∨ o = .success ByteArray.empty ∧
      ∃ f image, s.stat db = .ok (.file f) ∧ f.isReadable ∧ Image.ofBytes f.bytes = .ok image ∧
        ((image.hasUniqueKeys = .ok true ∧ s' = s) ∨
          ∃ rs kept, image.hasUniqueKeys = .ok false ∧ image.pairs = .ok rs ∧
            Record.Thins keep.pick rs kept ∧
            Builder.create s db settings.mode (.addAll kept (.done (.ok ()))) = (.ok (), s')) := by
  -- A run goes on only as long as nothing fails, and each failure exits with status 1.
  simp only [run, runUniq] at h
  cases hload : Mapping.load s db with
  | error e =>
    rw [hload] at h
    cases h
    exact .inl rfl
  | ok mapping =>
    obtain ⟨f, hstat, hreadable, himage, -⟩ := Mapping.load_eq_ok hload
    rw [hload] at h
    simp only at h
    cases hkept : shortened mapping.image keep with
    | error e =>
      rw [hkept] at h
      cases h
      exact .inl rfl
    | ok kept? =>
      rw [hkept] at h
      cases kept? with
      | none =>
        cases h
        exact .inr ⟨rfl, f, _, hstat, hreadable, himage, .inl ⟨shortened_eq_none.1 hkept, rfl⟩⟩
      | some kept =>
        obtain ⟨hunique, rs, hpairs, hthins⟩ := shortened_eq_some hkept
        simp only [rewrite] at h
        cases hcreate : Builder.create s db settings.mode (.addAll kept (.done (.ok ()))) with
        | mk result s₁ =>
          rw [hcreate] at h
          cases h
          cases result with
          | error e => exact .inl rfl
          | ok u =>
            exact .inr ⟨rfl, f, _, hstat, hreadable, himage,
              .inr ⟨rs, kept, hunique, hpairs, hthins, hcreate⟩⟩

/-- A database whose index leads to each record is left alone. -/
theorem uniq_of_unique {f : File} (hstat : s.stat db = .ok (.file f)) (hreadable : f.isReadable)
    (himage : Image.ofBytes f.bytes = .ok image) (hunique : image.hasUniqueKeys = .ok true) :
    run s settings stdin (.uniq db keep) = (.success ByteArray.empty, s) := by
  rw [run, runUniq, Mapping.load_of_stat hstat hreadable himage]
  simp only
  rw [shortened_eq_none.2 hunique, rewrite]

/-- So is one that may not be read. -/
theorem uniq_of_unreadable {f : File} (hstat : s.stat db = .ok (.file f))
    (hunreadable : ¬f.isReadable) :
    (run s settings stdin (.uniq db keep)).1.status = 1 ∧
      (run s settings stdin (.uniq db keep)).2 = s := by
  simp only [run, runUniq, Mapping.load_of_unreadable hstat hunreadable, Outcome.failure, and_self]

/-- A sound database can be thinned out wherever a database can be built. -/
theorem uniq_of_storable {f : File} {rs : List Record} (hstat : s.stat db = .ok (.file f))
    (hreadable : f.isReadable) (hrs : Draft.Storable rs)
    (hbytes : f.bytes = (Draft.ofRecords rs).image) (hadmits : s.Admits db) :
    (run s settings stdin (.uniq db keep)).1 = .success ByteArray.empty := by
  obtain ⟨image, himage, hbytes'⟩ := hrs.ofBytes_image
  rw [← hbytes] at himage
  have hunique := hrs.hasUniqueKeys_image hbytes'
  by_cases hnodup : (rs.map Record.key).Nodup
  · rw [decide_eq_true hnodup] at hunique
    rw [uniq_of_unique hstat hreadable himage hunique]
  · rw [decide_eq_false hnodup] at hunique
    obtain ⟨kept, hkept, hthins⟩ := keptRecords_eq_ok (hrs.pairs_image hbytes') keep
    have hcreate : (Builder.create s db settings.mode (.addAll kept (.done (.ok ())))).1 = .ok () :=
      Builder.create_addAll_eq_ok.2
        ⟨hadmits, hthins.storable (fun _ _ => keep.mem_of_pick) hrs, rfl⟩
    have hshortened : shortened image keep = .ok (some kept) := by
      rw [shortened, hunique, hkept]
      rfl
    rw [run, runUniq, Mapping.load_of_stat hstat hreadable himage]
    simp only
    rw [hshortened, rewrite]
    simp only [hcreate, Outcome.ofExcept]

/-- What a run leaves.  If it fails, all files are what they were.  If it succeeds, the database has
the former records with one record for each key, in which the index leads from each key to its
record; the files are what they were if the index did so before.  A second run has nothing to do,
unless the first one was told to leave a file that its owner may not read. -/
theorem thins_of_uniq (h : run s settings stdin (.uniq db keep) = (o, s')) :
    (o.status = 0 ∨ o.status = 1) ∧
    (o.status = 1 → ∀ path, s'.stat path = s.stat path) ∧
    (o.status = 0 → ∃ f f' image thinned rs kept,
      s.stat db = .ok (.file f) ∧ Image.ofBytes f.bytes = .ok image ∧
      s'.stat db = .ok (.file f') ∧ Image.ofBytes f'.bytes = .ok thinned ∧
      image.ThinsTo keep thinned rs kept ∧
      ((∀ t ∈ image.scan.items, image.LeadsTo t) → s' = s) ∧
      (f'.isReadable → ∀ settings stdin keep,
        run s' settings stdin (.uniq db keep) = (.success ByteArray.empty, s')) ∧
      (¬f'.isReadable →
        (∃ bits, settings.mode = some bits ∧ bits.testBit 8 = false) ∧
        ∀ settings stdin keep, (run s' settings stdin (.uniq db keep)).1.status = 1 ∧
          (run s' settings stdin (.uniq db keep)).2 = s')) := by
  have hperform : (Invocation.run (.uniq db keep)).perform s settings stdin = (o, s') := h
  have hfailed (hone : o.status = 1) (path : Path) : s'.stat path = s.stat path :=
    FileSpace.stat_of_nodes
      (Invocation.nodes_perform_of_failed hperform (by rw [hone]; decide)) path
  obtain hone | ⟨rfl, f, image, hstat, hreadable, himage, hdone⟩ := uniq_cases h
  · exact ⟨.inr hone, hfailed, fun hzero => absurd (hone.symm.trans hzero) (by decide)⟩
  refine ⟨.inl rfl, hfailed, fun _ => ?_⟩
  obtain ⟨hunique, rfl⟩ | ⟨rs, kept, hunique, hpairs, hthins, hcreate⟩ := hdone
  · exact ⟨f, f, image, image, _, _, hstat, himage, hstat, himage,
      image.thinsTo_self hunique keep, fun _ => rfl,
      fun _ _ _ _ => uniq_of_unique hstat hreadable himage hunique,
      fun hunreadable => absurd hreadable hunreadable⟩
  -- The keys of the new file differ, so the next run leaves it alone.
  obtain ⟨-, hkept, -⟩ := Builder.create_addAll_eq_ok.1 (congrArg Prod.fst hcreate)
  obtain ⟨time, hstat'⟩ := Builder.stat_of_create hcreate
  obtain ⟨thinned, hthinned, hbytes⟩ := hkept.ofBytes_image
  have hunique' := hkept.hasUniqueKeys_image hbytes
  rw [decide_eq_true hthins.nodup] at hunique'
  refine ⟨f, _, image, thinned, rs, kept, hstat, himage, hstat', hthinned,
    Image.thinsTo_of_thins hpairs hthins hkept hbytes, fun hleads => ?_,
    fun hreadable' _ _ _ => uniq_of_unique hstat' hreadable' hthinned hunique',
    fun hunreadable => ⟨?_, fun _ _ _ => uniq_of_unreadable hstat' hunreadable⟩⟩
  · have hfailure : image.scan.failure = none := by
      rw [← Walk.failure_map fun s : Stored => s.record image.bytes, ← Image.records]
      exact (Walk.toExcept_eq_ok.1 hpairs).2
    cases hunique.symm.trans (Image.hasUniqueKeys_eq_true.2 ⟨hfailure, hleads⟩)
  · by_contra hasked
    refine hunreadable (Builder.isReadable_of_create hcreate hstat hstat' hreadable ?_)
    intro bits hbits
    by_contra hbit
    exact hasked ⟨bits, hbits, by simpa using hbit⟩

/-- The last values of a database in which one key occurs twice. -/
theorem thins_of_uniq_repeated :
    ∃ s' f thinned, run Builder.Sample.finished .default ByteArray.empty (.uniq ⟨[0x61]⟩ .last) =
        (.success ByteArray.empty, s') ∧
      s'.stat ⟨[0x61]⟩ = .ok (.file f) ∧ Image.ofBytes f.bytes = .ok thinned ∧
      thinned.pairs = .ok [⟨⟨#[0x6b]⟩, ⟨#[3]⟩⟩, ⟨⟨#[]⟩, ⟨#[0xff]⟩⟩] := by
  obtain ⟨f, hstat, hreadable, hbytes, hrs, hadmits⟩ := Builder.Sample.exists_file
  generalize Builder.Sample.finished = s at hstat hadmits ⊢
  have hstatus : (run s .default ByteArray.empty (.uniq ⟨[0x61]⟩ .last)).1 = _ :=
    uniq_of_storable hstat hreadable hrs hbytes hadmits
  generalize hrun : run s .default ByteArray.empty (.uniq ⟨[0x61]⟩ .last) = result at hstatus
  obtain ⟨o, s'⟩ := result
  cases hstatus
  obtain ⟨f₀, f', image, thinned, rs, kept, hstat₀, himage, hstat', hthinned, hthins, -⟩ :=
    (thins_of_uniq hrun).2.2 rfl
  refine ⟨s', f', thinned, rfl, hstat', hthinned, ?_⟩
  cases hstat.symm.trans hstat₀
  have hrecords := hthins.pairs_eq.symm.trans
    (hrs.pairs_image ((Image.ofBytes_eq_ok himage).1.trans hbytes))
  cases hrecords
  rw [hthins.pairs_thinned_eq, hthins.thins.eq_map]
  decide

/-- A run that is told to leave a file that nobody may read is followed by one that fails. -/
theorem uniq_locked_out :
    ∃ s', run Builder.Sample.finished { mode := some 0 } ByteArray.empty (.uniq ⟨[0x61]⟩ .first) =
        (.success ByteArray.empty, s') ∧
      (run s' { mode := some 0 } ByteArray.empty (.uniq ⟨[0x61]⟩ .first)).1.status = 1 := by
  obtain ⟨f, hstat, hreadable, hbytes, hrs, hadmits⟩ := Builder.Sample.exists_file
  generalize Builder.Sample.finished = s at hstat hadmits ⊢
  have hstatus : (run s { mode := some 0 } ByteArray.empty (.uniq ⟨[0x61]⟩ .first)).1 = _ :=
    uniq_of_storable hstat hreadable hrs hbytes hadmits
  generalize hrun : run s { mode := some 0 } ByteArray.empty (.uniq ⟨[0x61]⟩ .first) = result
    at hstatus
  obtain ⟨o, s'⟩ := result
  cases hstatus
  refine ⟨s', rfl, ?_⟩
  obtain hone | ⟨-, f₀, image, hstat₀, -, himage, hdone⟩ := uniq_cases hrun
  · cases hone
  obtain ⟨hunique, -⟩ | ⟨_, kept, -, -, -, hcreate⟩ := hdone
  · -- One key of the sample occurs twice, so it was rewritten.
    cases hstat.symm.trans hstat₀
    have hfalse := hrs.hasUniqueKeys_image ((Image.ofBytes_eq_ok himage).1.trans hbytes)
    rw [hunique, Except.ok.injEq] at hfalse
    exact absurd (of_decide_eq_true hfalse.symm) (by decide)
  · obtain ⟨time, hstat'⟩ := Builder.stat_of_create hcreate
    refine (uniq_of_unreadable hstat' ?_).1
    rw [File.isReadable_mod]
    exact (by decide : ¬Nat.testBit 0 8 = true)

end Command

end ConstDb
