import ConstDb.Builder
import ConstDb.Proofs.Draft.Index
import ConstDb.Proofs.FileSpace.Replace
import ConstDb.Reader

/-! # Building a database

A builder that was opened, that accepted all of a list of records and that finished has put the file
of those records in the place of its target, and a reader that is opened there has that file.

## Key results

- `Builder.open_eq_ok_iff`, `Builder.add_eq_ok`: when a builder is opened, and when it accepts a
  record
- `Builder.finish_of_building`, `Builder.finish_of_ended`, `Builder.finish_eq_ok`: what comes of an
  attempt to finish
- `Builder.addAll_eq_ok`: records that were all accepted are within the limits and in the draft
- `Builder.stat_of_finish`: what lies at the target of a builder that finished
- `Mapping.load_eq_ok`, `Mapping.load_of_stat`: when a file is mapped, and what its mapping has
- `Reader.bytes_of_open`: a reader has the bytes of the file that its path leads to
- `Builder.exists_reader_of_finish`, `Builder.open_of_finish_locked`: whether a finished database
  can be opened
- `Builder.image_of_finish`: what a reader of it has
-/

namespace ConstDb

namespace Builder

/-- A builder is opened just when there are permission bits and a temporary file for it. -/
theorem open_eq_ok_iff {s s' : FileSpace} {path : Path} {mode : Option Nat} {b : Builder} :
    Builder.open s path mode = .ok (b, s') ↔
      ∃ bits t, chooseMode s path mode = .ok bits ∧
        s.createTemporary path.directory ((path.fileName?.map Text.Utf8.show).getD "mcdb") =
          .ok (t, s') ∧ b = ⟨path, bits, .building t, .empty⟩ := by
  constructor
  · intro h
    unfold Builder.open at h
    split at h
    · cases h
    rename_i bits hmode
    simp only at h
    split at h
    · cases h
    rename_i t s'' htemporary
    cases h
    exact ⟨bits, t, hmode, htemporary, rfl⟩
  · rintro ⟨bits, t, hmode, htemporary, rfl⟩
    simp only [Builder.open, hmode, htemporary]

/-- A builder that was just opened is at work and has no records. -/
theorem open_eq_ok {s s' : FileSpace} {path : Path} {mode : Option Nat} {b : Builder}
    (h : Builder.open s path mode = .ok (b, s')) :
    b.path = path ∧ b.draft = .empty ∧ ∃ t, b.state = .building t := by
  obtain ⟨bits, t, -, -, rfl⟩ := open_eq_ok_iff.1 h
  exact ⟨rfl, rfl, t, rfl⟩

section

variable {b b' : Builder} {s s' : FileSpace} {t : TemporaryHandle}

/-- A builder is at work with a temporary file, or it accepts nothing more. -/
theorem temporary_cases (b : Builder) :
    (∃ t, b.state = .building t ∧ b.temporary = .ok t) ∨
      (b.isBuilding = false ∧ ∃ m, b.temporary = .error (.misuse m)) := by
  unfold temporary isBuilding
  cases b.state with
  | building t => exact .inl ⟨t, rfl, rfl⟩
  | finished => exact .inr ⟨rfl, _, rfl⟩
  | canceled => exact .inr ⟨rfl, _, rfl⟩

theorem temporary_of_building (h : b.state = .building t) : b.temporary = .ok t := by
  rw [temporary, h]

/-- A builder that is not at work any more accepts no call. -/
theorem temporary_of_ended (h : b.isBuilding = false) :
    ∃ m, b.temporary = .error (.misuse m) := by
  rcases b.temporary_cases with ⟨t, hstate, -⟩ | ⟨-, hmisuse⟩
  · rw [isBuilding, hstate] at h
    cases h
  · exact hmisuse

/-- Finishing replaces the target, or cancels the builder and discards its temporary file. -/
theorem finish_of_building (h : b.state = .building t) (s : FileSpace) :
    b.finish s =
      match s.replaceBy t b.path b.draft.image (b.mode % 0o10000) with
      | .ok s' => (.ok (), { b with state := .finished }, s')
      | .error fault =>
        (.error (.file (.path b.path) fault), { b with state := .canceled },
          s.discardTemporary t) := by
  cases hreplace : s.replaceBy t b.path b.draft.image (b.mode % 0o10000) <;>
    simp only [finish, temporary_of_building h, hreplace]

theorem finish_of_ended (h : b.isBuilding = false) (s : FileSpace) :
    ∃ m, b.finish s = (.error (.misuse m), b, s) := by
  obtain ⟨m, hm⟩ := temporary_of_ended h
  exact ⟨m, by rw [finish, hm]⟩

/-- A builder that finishes replaces its target by the file of its draft. -/
theorem finish_eq_ok :
    b.finish s = (.ok (), b', s') ↔
      ∃ t, b.state = .building t ∧ b' = { b with state := .finished } ∧
        s.replaceBy t b.path b.draft.image (b.mode % 0o10000) = .ok s' := by
  rcases b.temporary_cases with ⟨t, hstate, -⟩ | ⟨hended, -⟩
  · rw [finish_of_building hstate]
    constructor
    · intro h
      cases hreplace : s.replaceBy t b.path b.draft.image (b.mode % 0o10000) with
      | error fault => simp [hreplace] at h
      | ok space =>
        simp only [hreplace, Prod.mk.injEq, true_and] at h
        exact ⟨t, hstate, h.1.symm, by rw [hreplace, h.2]⟩
    · rintro ⟨t', hstate', rfl, hreplace⟩
      cases hstate.symm.trans hstate'
      simp only [hreplace]
  · obtain ⟨m, hm⟩ := finish_of_ended hended s
    rw [hm]
    simp only [Prod.mk.injEq, reduceCtorEq, false_and, false_iff]
    rintro ⟨t, hstate, -⟩
    rw [isBuilding, hstate] at hended
    cases hended

/-- A builder at work accepts a record just when it is within the limits and there is room. -/
theorem add_eq_ok {r : Record} :
    b.add r = .ok b' ↔
      b.isBuilding = true ∧ Draft.Fits r ∧ b.size < Layout.maxRecords ∧ b' = b.append r := by
  rw [add_eq_map_append, checkSizes]
  rcases b.temporary_cases with ⟨t, hstate, htemporary⟩ | ⟨hended, m, hmisuse⟩
  · rw [htemporary, isBuilding, hstate]
    simp only [true_and]
    cases hcheck : b.draft.checkSizes r.key.size r.value.size with
    | error e =>
      -- The check fails just when the record is too large or there is no room.
      have hrefused : ¬(Draft.Fits r ∧ b.draft.size < Layout.maxRecords) := by
        rw [← Draft.checkSizes_eq_ok, hcheck]
        simp
      simp only [Except.map, reduceCtorEq, false_iff]
      exact fun h => hrefused ⟨h.1, h.2.1⟩
    | ok u =>
      obtain ⟨hfits, hroom⟩ := Draft.checkSizes_eq_ok.1 hcheck
      simp only [Except.map, Except.ok.injEq]
      exact ⟨fun h => ⟨hfits, hroom, h.symm⟩, fun h => h.2.2.symm⟩
  · rw [hmisuse, hended]
    simp [Except.map]

end

/-- Records that were all accepted are within the limits, and in the draft. -/
theorem addAll_eq_ok {b b' : Builder} {rs : List Record} (h : b.addAll rs = (.ok (), b')) :
    b' = { b with draft := rs.foldl Draft.append b.draft } ∧ (∀ r ∈ rs, Draft.Fits r) ∧
      (b.size ≤ Layout.maxRecords → b.size + rs.length ≤ Layout.maxRecords) := by
  induction rs generalizing b with
  | nil =>
    simp only [addAll_nil, Prod.mk.injEq, true_and] at h
    exact ⟨h.symm, by simp, by simp⟩
  | cons r rest ih =>
    rw [addAll_cons] at h
    cases hadd : b.add r with
    | error e => rw [hadd] at h; cases h
    | ok b₁ =>
      rw [hadd] at h
      obtain ⟨-, hfit, hroom, rfl⟩ := add_eq_ok.1 hadd
      obtain ⟨hb', hfits, hlength⟩ := ih h
      have hsize : (b.append r).size = b.size + 1 := Draft.size_append b.draft r
      refine ⟨hb', List.forall_mem_cons.2 ⟨hfit, hfits⟩, fun _ => ?_⟩
      -- There was room for this record, and the others had room behind it.
      have hrest := hlength (by omega)
      rw [List.length_cons]
      omega

/-- A new builder that accepted a list of records has their draft. -/
theorem addAll_of_open {s s' : FileSpace} {path : Path} {mode : Option Nat} {b b' : Builder}
    {rs : List Record} (hopen : Builder.open s path mode = .ok (b, s'))
    (hadd : b.addAll rs = (.ok (), b')) :
    b' = { b with draft := .ofRecords rs } ∧ Draft.Storable rs := by
  obtain ⟨-, hdraft, -⟩ := open_eq_ok hopen
  obtain ⟨hb', hfits, hlength⟩ := addAll_eq_ok hadd
  rw [size, hdraft] at hlength
  rw [hdraft] at hb'
  refine ⟨hb', ?_, hfits⟩
  have := hlength (by decide)
  omega

/-- When a builder has finished, its target is the file of its draft, with the permission bits that
were chosen. -/
theorem stat_of_finish {b b' : Builder} {s s' : FileSpace}
    (h : b.finish s = (.ok (), b', s')) :
    ∃ time, s'.stat b.path = .ok (.file ⟨b.draft.image, b.mode % 0o10000, time⟩) := by
  obtain ⟨t, -, -, hreplace⟩ := finish_eq_ok.1 h
  exact FileSpace.stat_of_replaceBy hreplace

end Builder

/-- A file that is there, that its owner may read and that is accepted is mapped. -/
theorem Mapping.load_of_stat {s : FileSpace} {path : Path} {f : File}
    (h : s.stat path = .ok (.file f)) (hreadable : f.isReadable) {image : Image}
    (himage : Image.ofBytes f.bytes = .ok image) : Mapping.load s path = .ok ⟨image, f.time⟩ := by
  have hnode := FileSpace.openNode_eq_ok_file_iff.2 ⟨h, hreadable⟩
  have hparse := (Image.ofBytes_eq_ok himage).2
  have hsize : ¬ f.bytes.size < Layout.headerSize := by
    intro hlt
    rw [Header.parse, if_pos hlt] at hparse
    cases hparse
  simp only [Mapping.load, hnode, hsize, himage, Except.map, if_false]

/-- A file that its owner may not read cannot be mapped. -/
theorem Mapping.load_of_unreadable {s : FileSpace} {path : Path} {f : File}
    (h : s.stat path = .ok (.file f)) (hunreadable : ¬f.isReadable) :
    Mapping.load s path = .error (.file (.path path) .permissionDenied) := by
  simp only [Mapping.load, FileSpace.openNode, h, if_neg hunreadable]

/-- The permission bits of a file are the lower twelve, and that of its owner is among them. -/
theorem File.isReadable_mod (bytes : ByteArray) (mode time : Nat) :
    File.isReadable ⟨bytes, mode % 0o10000, time⟩ = mode.testBit 8 := by
  have hbit : (mode % 2 ^ 12).testBit 8 = mode.testBit 8 := by
    rw [Nat.testBit_mod_two_pow]
    rfl
  exact hbit

/-- A mapping has the image and the stamp of the file that is mapped. -/
theorem Mapping.load_eq_ok {s : FileSpace} {path : Path} {m : Mapping}
    (h : Mapping.load s path = .ok m) :
    ∃ f, s.stat path = .ok (.file f) ∧ f.isReadable ∧ Image.ofBytes f.bytes = .ok m.image ∧
      m.time = f.time := by
  unfold Mapping.load at h
  cases hnode : s.openNode path with
  | error fault => simp [hnode] at h
  | ok node =>
    cases node with
    | directory => simp [hnode] at h
    | file f =>
      rw [hnode] at h
      simp only at h
      split at h
      · cases h
      · obtain ⟨hstat, hreadable⟩ := FileSpace.openNode_eq_ok_file_iff.1 hnode
        obtain ⟨image, himage, rfl⟩ := map_eq_ok.1 h
        exact ⟨f, hstat, hreadable, himage, rfl⟩

namespace Reader

/-- A file that is there and that its owner may read is opened just when it is accepted. -/
theorem open_of_stat {s : FileSpace} {path : Path} {f : File} (h : s.stat path = .ok (.file f))
    (hreadable : f.isReadable) {header : Header} (hparse : Header.parse f.bytes = .ok header) :
    ∃ image, image.bytes = f.bytes ∧
      Reader.open s path = .ok ⟨path, some ⟨image, f.time⟩, none⟩ := by
  refine ⟨⟨f.bytes, header, hparse⟩, rfl, ?_⟩
  simp only [Reader.open, Mapping.load_of_stat h hreadable (Image.ofBytes_of_parse hparse),
    Except.map]

/-- A new reader has a mapping of the file, and its cursor is nowhere. -/
theorem open_eq_ok {s : FileSpace} {path : Path} {r : Reader} :
    Reader.open s path = .ok r ↔ ∃ m, Mapping.load s path = .ok m ∧ r = ⟨path, some m, none⟩ := by
  rw [Reader.open, map_eq_ok]
  simp only [eq_comm]

/-- A reader has the bytes of the file that its path leads to. -/
theorem bytes_of_open {s : FileSpace} {path : Path} {f : File} (h : s.stat path = .ok (.file f))
    {r : Reader} (hopen : Reader.open s path = .ok r) :
    ∃ mapping, r.mapping = some mapping ∧ mapping.image.bytes = f.bytes := by
  obtain ⟨m, hload, rfl⟩ := open_eq_ok.1 hopen
  obtain ⟨g, hstat, -, himage, -⟩ := Mapping.load_eq_ok hload
  cases hstat.symm.trans h
  exact ⟨m, rfl, (Image.ofBytes_eq_ok himage).1⟩

/-- What a reader answers is what its image does. -/
theorem ask_of_mapping {α : Type} {r : Reader} {mapping : Mapping} (h : r.mapping = some mapping)
    (question : Image → Except Error α) : r.ask question = question mapping.image := by
  rw [ask, current, h]

end Reader

namespace Builder

variable {s₀ s₁ s₂ s₃ : FileSpace} {path : Path} {mode : Option Nat} {b b₁ b₂ : Builder}
  {rs : List Record}

/-- A build that went through left the file of the records at its target. -/
theorem file_of_finish (hopen : Builder.open s₀ path mode = .ok (b, s₁))
    (hadd : b.addAll rs = (.ok (), b₁)) (hfinish : b₁.finish s₂ = (.ok (), b₂, s₃)) :
    Draft.Storable rs ∧ b₁.draft = .ofRecords rs ∧
      ∃ time, s₃.stat path = .ok (.file ⟨b₁.draft.image, b.mode % 0o10000, time⟩) := by
  obtain ⟨hpath, -, -⟩ := open_eq_ok hopen
  obtain ⟨rfl, hstorable⟩ := addAll_of_open hopen hadd
  have hstat := stat_of_finish hfinish
  simp only [hpath] at hstat
  exact ⟨hstorable, rfl, hstat⟩

/-- A database that was built can be opened if its owner may read it. -/
theorem exists_reader_of_finish (hopen : Builder.open s₀ path mode = .ok (b, s₁))
    (hadd : b.addAll rs = (.ok (), b₁)) (hfinish : b₁.finish s₂ = (.ok (), b₂, s₃))
    (hbit : b.mode.testBit 8) : ∃ r, Reader.open s₃ path = .ok r := by
  obtain ⟨hstorable, hdraft, time, hstat⟩ := file_of_finish hopen hadd hfinish
  rw [hdraft] at hstat
  obtain ⟨image, -, hr⟩ := Reader.open_of_stat hstat
    ((File.isReadable_mod ..).trans hbit) hstorable.addressable.parse_image
  exact ⟨_, hr⟩

/-- It cannot be opened if its owner may not. -/
theorem open_of_finish_locked (hopen : Builder.open s₀ path mode = .ok (b, s₁))
    (hadd : b.addAll rs = (.ok (), b₁)) (hfinish : b₁.finish s₂ = (.ok (), b₂, s₃))
    (hbit : ¬b.mode.testBit 8) :
    Reader.open s₃ path = .error (.file (.path path) .permissionDenied) := by
  obtain ⟨-, -, time, hstat⟩ := file_of_finish hopen hadd hfinish
  rw [Reader.open, Mapping.load_of_unreadable hstat (by rwa [File.isReadable_mod]), Except.map]

/-- A reader of a database that was built has the file of the records. -/
theorem image_of_finish (hopen : Builder.open s₀ path mode = .ok (b, s₁))
    (hadd : b.addAll rs = (.ok (), b₁)) (hfinish : b₁.finish s₂ = (.ok (), b₂, s₃)) {r : Reader}
    (hr : Reader.open s₃ path = .ok r) :
    ∃ mapping, r.mapping = some mapping ∧ mapping.image.bytes = (Draft.ofRecords rs).image := by
  obtain ⟨-, hdraft, time, hstat⟩ := file_of_finish hopen hadd hfinish
  obtain ⟨mapping, hmapping, hbytes⟩ := Reader.bytes_of_open hstat hr
  exact ⟨mapping, hmapping, by rw [hbytes, hdraft]⟩

/-! ### A small database

Three records, two of them with one key, in the file `a` of an empty directory. -/

namespace Sample

/-- The records that are added. -/
def records : List Record :=
  [⟨⟨#[0x6b]⟩, ⟨#[1]⟩⟩, ⟨⟨#[]⟩, ⟨#[0xff]⟩⟩, ⟨⟨#[0x6b]⟩, ⟨#[3]⟩⟩]

/-- The builder that was just opened. -/
def builder : Builder := ⟨⟨[0x61]⟩, defaultMode, .building ⟨.here, "a", 0⟩, .empty⟩

/-- The space with its temporary file. -/
def opened : FileSpace :=
  { FileSpace.empty 15 with temporaries := [⟨[], "a", 0⟩], serials := 1 }

/-- The builder that has the records. -/
def filled : Builder := { builder with draft := .ofRecords records }

/-- The space with the finished database. -/
def finished : FileSpace :=
  { FileSpace.install (.empty 15) [[0x61]] filled.draft.image defaultMode with serials := 1 }

theorem show_name : Text.Utf8.show [0x61] = "a" := by
  simp [Text.Utf8.show, Text.Utf8.pieces, Text.Utf8.piecesFrom, Text.Utf8.Piece.shown]

theorem fileName_eq : (Path.mk [0x61]).fileName?.map Text.Utf8.show = some "a" := by
  rw [show (Path.mk [0x61]).fileName? = some [0x61] from rfl, Option.map_some, show_name]

theorem open_eq : Builder.open (.empty 15) ⟨[0x61]⟩ none = .ok (builder, opened) := by
  simp only [Builder.open, fileName_eq]
  rfl

theorem addAll_eq : builder.addAll records = (.ok (), filled) := rfl

theorem finish_eq :
    filled.finish opened = (.ok (), { filled with state := .finished }, finished) := rfl

end Sample

end Builder

end ConstDb
