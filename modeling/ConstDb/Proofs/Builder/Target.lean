import ConstDb.Proofs.Builder.Create

/-! # Where databases can be built

A build in one go of some records succeeds just when the records can be stored together and the
space admits a database at the path: its directory takes a temporary file, and the path leads to a
file, or to nothing where one could be.  A path at which a database was built admits another one.

## Key results

- `Builder.create_addAll_eq_ok`: when such a build succeeds
- `Builder.stat_of_create`, `Builder.isReadable_of_create`: what it leaves at its path
- `Builder.admits_of_create`: the path admits another database then
-/

namespace ConstDb

/-- Whether a space admits a database at a path. -/
structure FileSpace.Admits (s : FileSpace) (path : Path) : Prop where
  /-- The directory takes a temporary file for it. -/
  temporary : ∃ p, s.createTemporary path.directory
    ((path.fileName?.map Text.Utf8.show).getD "mcdb") = .ok p
  /-- A file can lie at the path. -/
  location : ∃ loc, s.locate path = .ok loc ∧ s.node? loc ≠ some .directory
  meansDirectory_eq : path.meansDirectory = false
  endsInDot_eq : path.endsInDot = false

/-- A new file at a path that admitted a database leaves it so. -/
theorem FileSpace.Admits.install {s₀ s : FileSpace} {path : Path} (h : s₀.Admits path)
    (hnodes : s.nodes = s₀.nodes) (htop : s.topSize = s₀.topSize) {loc : Location}
    (hlocate : s.locate path = .ok loc) (hfile : s.node? loc ≠ some .directory)
    (bytes : ByteArray) (mode : Nat) : (s.install loc bytes mode).Admits path := by
  obtain ⟨⟨t, s₁⟩, htemporary⟩ := h.temporary
  obtain ⟨dir, hdirectory, -, -⟩ := createTemporary_eq_ok htemporary
  have hstat : (s.install loc bytes mode).stat path = _ :=
    stat_install hlocate hfile h.meansDirectory_eq
  obtain ⟨loc', hlocate', hnode', -⟩ := stat_eq_ok_file.1 hstat
  rw [← resolveDirectory_of_nodes hnodes] at hdirectory
  exact {
    temporary :=
      ⟨_, createTemporary_of_kept h.temporary htop (resolveDirectory_install hfile hdirectory)⟩
    location := ⟨loc', hlocate', by simp [hnode']⟩
    meansDirectory_eq := h.meansDirectory_eq
    endsInDot_eq := h.endsInDot_eq }

namespace Builder

variable {s s' : FileSpace} {path : Path} {mode : Option Nat} {rs : List Record}
  {ending : Except Error Unit}

/-! ### Opening -/

/-- A path that admits a database has permission bits for it. -/
private theorem chooseMode_of_admits (h : s.Admits path) (mode : Option Nat) :
    ∃ bits, chooseMode s path mode = .ok bits := by
  obtain ⟨loc, hlocate, hfile⟩ := h.location
  unfold chooseMode FileSpace.stat FileSpace.resolve
  simp only [hlocate]
  cases hnode : s.node? loc with
  | none =>
    simp only [hnode]
    exact ⟨_, if_pos rfl⟩
  | some node =>
    cases node with
    | directory => exact absurd hnode hfile
    | file f =>
      simp only [h.meansDirectory_eq, Bool.false_eq_true, if_false, hnode]
      exact ⟨_, rfl⟩

private theorem open_of_admits (h : s.Admits path) (mode : Option Nat) :
    ∃ b s₁, Builder.open s path mode = .ok (b, s₁) := by
  obtain ⟨bits, hmode⟩ := chooseMode_of_admits h mode
  obtain ⟨⟨t, s₁⟩, htemporary⟩ := h.temporary
  exact ⟨_, s₁, open_eq_ok_iff.2 ⟨bits, t, hmode, htemporary, rfl⟩⟩

/-! ### What a successful build does -/

/-- A build of given records that succeeds puts their file in the place of its temporary file. -/
private theorem replaceBy_of_create
    (h : create s path mode (.addAll rs (.done ending)) = (.ok (), s')) :
    ∃ b s₁, Builder.open s path mode = .ok (b, s₁) ∧
      s₁.replaceBy (handleFor s path) path (Draft.ofRecords rs).image (b.mode % 0o10000) =
        .ok s' ∧ ending = .ok () ∧ Draft.Storable rs := by
  obtain ⟨e, hcreate⟩ | ⟨b, s₁, hopen, hdone⟩ :=
    create_cases s path mode (.addAll rs (.done ending))
  · cases hcreate.symm.trans h
  obtain ⟨e, -, hcreate⟩ | ⟨result, s'', hreplace, hcreate, hended⟩ := hdone
  · cases hcreate.symm.trans h
  cases hcreate.symm.trans h
  obtain ⟨-, -, t, hstate⟩ := open_eq_ok hopen
  -- Adding records leaves the builder at work, so it was finished because all of them were added.
  obtain hfinished | ⟨hok, -⟩ := hended
  · rw [Fill.state_addAll_done, hstate] at hfinished
    cases hfinished
  rw [Fill.run_addAll] at hok hreplace
  cases hadd : b.addAll rs with
  | mk added b₁ =>
    rw [hadd] at hok hreplace
    cases added with
    | error e => cases hok
    | ok u =>
      obtain ⟨rfl, hstorable⟩ := addAll_of_open hopen hadd
      exact ⟨b, s₁, hopen, hreplace, hok, hstorable⟩

/-- After a build the path leads to the file of the records, with the permission bits that were
asked for, or else those of the file that was there, or else the default ones. -/
theorem stat_of_create (h : create s path mode (.addAll rs (.done ending)) = (.ok (), s')) :
    ∃ time, s'.stat path = .ok (.file ⟨(Draft.ofRecords rs).image,
      mode.getD (((s.file? path).map File.mode).getD defaultMode) % 0o10000, time⟩) := by
  obtain ⟨b, s₁, hopen, hreplace, -, -⟩ := replaceBy_of_create h
  obtain ⟨bits, loc, hmode, -, rfl, -⟩ := open_cases hopen
  rw [← chooseMode_eq_ok hmode]
  exact FileSpace.stat_of_replaceBy hreplace

/-- A build in the place of a file that its owner may read leaves such a file, unless it was asked
for other permission bits. -/
theorem isReadable_of_create (h : create s path mode (.addAll rs (.done ending)) = (.ok (), s'))
    {f f' : File} (hf : s.stat path = .ok (.file f)) (hf' : s'.stat path = .ok (.file f'))
    (hreadable : f.isReadable) (hmode : ∀ bits, mode = some bits → bits.testBit 8) :
    f'.isReadable := by
  obtain ⟨time, hstat⟩ := stat_of_create h
  have hfile := Node.file.inj (Except.ok.inj (hf'.symm.trans hstat))
  rw [hfile, File.isReadable_mod, FileSpace.file?_eq_some.2 hf]
  cases mode with
  | none => exact hreadable
  | some bits => exact hmode bits rfl

/-- A path at which a database was built admits one, before and after. -/
theorem admits_of_create (h : create s path mode (.addAll rs (.done ending)) = (.ok (), s')) :
    s.Admits path ∧ s'.Admits path := by
  obtain ⟨b, s₁, hopen, hreplace, -, -⟩ := replaceBy_of_create h
  obtain ⟨-, t, -, htemporary, -⟩ := open_eq_ok_iff.1 hopen
  obtain ⟨bits, dir, -, -, -, rfl⟩ := open_cases hopen
  obtain ⟨loc, u, -, hlocate, hfile, hplain, hdot, rfl⟩ := FileSpace.replaceBy_eq_ok.1 hreplace
  -- Neither the new temporary file nor its removal makes a difference to what lies where.
  have hbefore : s.locate path = .ok loc := by
    rwa [FileSpace.locate_of_nodes (FileSpace.nodes_withTemporary ..)] at hlocate
  have hcleared : ((s.withTemporary dir (handleFor s path).target).without u).locate path =
      .ok loc := by
    rwa [FileSpace.locate_of_nodes (FileSpace.nodes_without ..)]
  have hadmits : s.Admits path :=
    ⟨⟨_, htemporary⟩, ⟨loc, hbefore, hfile⟩, hplain, hdot⟩
  exact ⟨hadmits, hadmits.install
    (s := (s.withTemporary dir (handleFor s path).target).without u) rfl rfl hcleared hfile _ _⟩

/-- A build of given records succeeds just when they can be stored together and the space admits a
database at the path. -/
theorem create_addAll_eq_ok :
    (create s path mode (.addAll rs (.done ending))).1 = .ok () ↔
      s.Admits path ∧ Draft.Storable rs ∧ ending = .ok () := by
  constructor
  · intro h
    obtain ⟨-, -, -, -, hending, hstorable⟩ := replaceBy_of_create (Prod.ext h rfl)
    exact ⟨(admits_of_create (Prod.ext h rfl)).1, hstorable, hending⟩
  · rintro ⟨hadmits, hstorable, rfl⟩
    obtain ⟨b, s₁, hopen⟩ := open_of_admits hadmits mode
    obtain ⟨u, hfound⟩ := findTemporary_of_open hopen
    obtain ⟨loc, hlocate, hfile⟩ := hadmits.location
    have hrun : (Fill.addAll rs (.done (.ok ()))).run b s₁ =
        (.ok (), { b with draft := .ofRecords rs }, s₁) := by
      rw [Fill.run_addAll, addAll_of_storable hopen hstorable]
      rfl
    obtain ⟨bits, dir, -, -, rfl, rfl⟩ := open_cases hopen
    have hlocated : (s.withTemporary dir (handleFor s path).target).locate path = .ok loc := by
      rwa [FileSpace.locate_of_nodes (FileSpace.nodes_withTemporary ..)]
    -- Making the temporary file changed no other file, so the path leads where it did.
    have hreplace (bytes : ByteArray) (permissions : Nat) :
        (s.withTemporary dir (handleFor s path).target).replaceBy (handleFor s path) path bytes
          permissions = .ok _ :=
      FileSpace.replaceBy_eq_ok.2 ⟨loc, u, hfound, hlocated, hfile, hadmits.meansDirectory_eq,
        hadmits.endsInDot_eq, rfl⟩
    simp only [create, hopen, hrun, finish, temporary, hreplace]

namespace Sample

/-- The sample as a build in one go. -/
theorem create_eq :
    create (.empty 15) ⟨[0x61]⟩ none (.addAll records (.done (.ok ()))) = (.ok (), finished) := by
  have hrun : (Fill.addAll records (.done (.ok ()))).run builder opened =
      (.ok (), filled, opened) := by
    rw [Fill.run_addAll, addAll_eq]
    rfl
  simp only [create, open_eq, hrun, finish_eq, drop]

/-- The file of the sample may be read, and another one can be built in its place. -/
theorem exists_file :
    ∃ f, finished.stat ⟨[0x61]⟩ = .ok (.file f) ∧ f.isReadable ∧
      f.bytes = (Draft.ofRecords records).image ∧ Draft.Storable records ∧
      finished.Admits ⟨[0x61]⟩ := by
  obtain ⟨hrs, -, time, hstat⟩ := file_of_finish open_eq addAll_eq finish_eq
  exact ⟨_, hstat, (File.isReadable_mod ..).trans rfl, rfl, hrs, (admits_of_create create_eq).2⟩

end Sample

end Builder

end ConstDb
