import ConstDb.Proofs.FileSpace.Paths

/-! # Replacing a file

When a temporary file has taken the place of what was at a path, the path leads to the new file: the
names before the last go through directories, and no directory was replaced.  Paths that are located
elsewhere lead to what they led to before.

## Key results

- `FileSpace.replaceBy_eq_ok`: when a replacement succeeds, and what it leaves
- `FileSpace.stat_of_replaceBy`: what a path leads to after a replacement
- `FileSpace.file?_of_replaceBy`: no other file is touched
-/

namespace ConstDb.FileSpace

variable {s s' : FileSpace} {path : Path} {loc : Location} {bytes : ByteArray} {mode : Nat}

/-! ### Installing a file -/

theorem node?_install_self (hloc : loc ≠ []) :
    (s.install loc bytes mode).node? loc = some (.file ⟨bytes, mode, s.stamp⟩) :=
  s.node?_put_self _ hloc

theorem node?_install_of_ne {other : Location} (h : other ≠ loc) :
    (s.install loc bytes mode).node? other = s.node? other :=
  s.node?_put_of_ne _ h

/-- The top directory is no place for a file. -/
theorem ne_nil_of_not_directory (hfile : s.node? loc ≠ some .directory) : loc ≠ [] := by
  rintro rfl
  exact hfile rfl

/-- A new file where there was no directory leaves all directories in place. -/
private theorem directories_install (hfile : s.node? loc ≠ some .directory) {l : Location}
    (hl : s.node? l = some .directory) :
    (s.install loc bytes mode).node? l = some .directory := by
  have hne : l ≠ loc := by
    rintro rfl
    exact hfile hl
  rw [node?_install_of_ne hne, hl]

/-- A new file at the location of a path is what the path leads to. -/
theorem stat_install (hlocate : s.locate path = .ok loc)
    (hfile : s.node? loc ≠ some .directory) (hplain : path.meansDirectory = false) :
    (s.install loc bytes mode).stat path = .ok (.file ⟨bytes, mode, s.stamp⟩) :=
  stat_eq_ok_file.2 ⟨loc,
    locate_of_directories (fun _ hl => directories_install hfile hl) hlocate,
    node?_install_self (ne_nil_of_not_directory hfile), hplain⟩

/-- Paths lead to the directories that they led to before. -/
theorem resolveDirectory_install {directory : Path} {dir : Location}
    (hfile : s.node? loc ≠ some .directory) (h : s.resolveDirectory directory = .ok dir) :
    (s.install loc bytes mode).resolveDirectory directory = .ok dir := by
  rw [resolveDirectory_eq_ok] at h ⊢
  exact ⟨locate_of_directories (fun _ hl => directories_install hfile hl) h.1,
    directories_install hfile h.2⟩

/-- A new file is seen through no path that is located elsewhere. -/
theorem file?_install {other : Path} (hfile : s.node? loc ≠ some .directory)
    (hother : s.locate other ≠ .ok loc) :
    (s.install loc bytes mode).file? other = s.file? other := by
  have hnew : (s.install loc bytes mode).node? loc ≠ some .directory := by
    rw [node?_install_self (ne_nil_of_not_directory hfile)]
    simp
  exact file?_of_same_but (fun _ h => node?_install_of_ne h) hfile hnew hother

/-! ### Temporary files -/

/-- A space without one of its temporary files. -/
def without (s : FileSpace) (u : TemporaryFile) : FileSpace :=
  { s with temporaries := s.temporaries.filter fun v => decide (v ≠ u) }

@[simp] theorem nodes_without (s : FileSpace) (u : TemporaryFile) :
    (s.without u).nodes = s.nodes := rfl

/-- A space with a new temporary file. -/
def withTemporary (s : FileSpace) (loc : Location) (target : String) : FileSpace :=
  { s with temporaries := ⟨loc, target, s.serials⟩ :: s.temporaries, serials := s.serials + 1 }

@[simp] theorem nodes_withTemporary (s : FileSpace) (loc : Location) (target : String) :
    (s.withTemporary loc target).nodes = s.nodes := rfl

/-- A new temporary file is made in the directory that its path leads to, and it is known by the
next serial number. -/
theorem createTemporary_eq_ok {directory : Path} {target : String} {t : TemporaryHandle}
    (h : s.createTemporary directory target = .ok (t, s')) :
    ∃ loc, s.resolveDirectory directory = .ok loc ∧ t = ⟨directory, target, s.serials⟩ ∧
      s' = s.withTemporary loc target := by
  unfold createTemporary at h
  simp only at h
  split at h
  · cases h
  · cases hdirectory : s.resolveDirectory directory with
    | error fault => simp [hdirectory] at h
    | ok loc =>
      simp only [hdirectory] at h
      split at h
      · cases h
      · simp only [Except.ok.injEq, Prod.mk.injEq] at h
        exact ⟨loc, rfl, h.1.symm, h.2.symm⟩

/-- Where a temporary file could be made once it can be made again, as long as its directory is
there. -/
theorem createTemporary_of_kept {s₀ : FileSpace} {directory : Path} {target : String}
    (h : ∃ p, s₀.createTemporary directory target = .ok p) (htop : s.topSize = s₀.topSize)
    (hdirectory : s.resolveDirectory directory = .ok loc) :
    s.createTemporary directory target =
      .ok (⟨directory, target, s.serials⟩, s.withTemporary loc target) := by
  have hfull (n : Nat) : s.fullSize directory n = s₀.fullSize directory n := by
    rw [fullSize, fullSize, htop]
  obtain ⟨p, h⟩ := h
  -- Two of the three checks are about lengths, which are the same in both spaces.
  unfold createTemporary at h ⊢
  simp only [hfull, hdirectory] at h ⊢
  split at h
  · cases h
  · rename_i hpath
    rw [if_neg hpath]
    split at h
    · cases h
    · split at h
      · cases h
      · rename_i hname
        rw [if_neg hname]
        rfl

/-- A handle leads to a temporary file in the directory that its path leads to. -/
theorem findTemporary_eq_ok {t : TemporaryHandle} {u : TemporaryFile} :
    s.findTemporary t = .ok u ↔
      ∃ loc, s.resolveDirectory t.directory = .ok loc ∧ u = ⟨loc, t.target, t.serial⟩ ∧
        u ∈ s.temporaries := by
  unfold findTemporary
  cases s.resolveDirectory t.directory with
  | error fault => simp
  | ok loc =>
    simp only [Except.ok.injEq, exists_eq_left']
    split
    · rename_i hmem
      simp only [Except.ok.injEq]
      exact ⟨fun h => ⟨h.symm, h ▸ hmem⟩, fun h => h.1.symm⟩
    · rename_i hmem
      simp only [reduceCtorEq, false_iff, not_and]
      rintro rfl
      exact hmem

/-- A temporary file that is found can be discarded; else nothing happens. -/
theorem discardTemporary_eq (s : FileSpace) (t : TemporaryHandle) :
    s.discardTemporary t =
      match s.findTemporary t with
      | .error _ => s
      | .ok u => s.without u := by
  unfold discardTemporary removeTemporary
  cases s.findTemporary t <;> rfl

/-- Discarding a temporary file touches no other file. -/
@[simp] theorem nodes_discardTemporary (s : FileSpace) (t : TemporaryHandle) :
    (s.discardTemporary t).nodes = s.nodes := by
  rw [discardTemporary_eq]
  cases s.findTemporary t <;> rfl

/-- A replacement succeeds just when its temporary file is found and the path leads to a place for
a file, and names no directory.  The new file is installed there. -/
theorem replaceBy_eq_ok {t : TemporaryHandle} :
    s.replaceBy t path bytes mode = .ok s' ↔
      ∃ loc u, s.findTemporary t = .ok u ∧ s.locate path = .ok loc ∧
        s.node? loc ≠ some .directory ∧ path.meansDirectory = false ∧ path.endsInDot = false ∧
        s' = (s.without u).install loc bytes mode := by
  constructor
  · -- Each check that does not pass ends in an error, so all of them passed.
    intro h
    unfold replaceBy at h
    split at h
    · cases h
    split at h
    · cases h
    rename_i loc hlocate
    split at h
    · split at h <;> cases h
    rename_i hdot
    split at h
    · cases h
    rename_i u hfound
    split at h
    · cases h
    rename_i hplain
    split at h
    · cases h
    rename_i hfile
    exact ⟨loc, u, hfound, hlocate, hfile, by simpa using hplain, by simpa using hdot,
      (Except.ok.inj h).symm⟩
  · rintro ⟨loc, u, hfound, hlocate, hfile, hplain, hdot, rfl⟩
    obtain ⟨dir, hdirectory, -, -⟩ := findTemporary_eq_ok.1 hfound
    unfold replaceBy
    simp only [hdirectory, hlocate, hdot, hfound, hplain, Bool.false_eq_true, if_false]
    rfl

/-- After a replacement the path leads to the new file. -/
theorem stat_of_replaceBy {t : TemporaryHandle} (h : s.replaceBy t path bytes mode = .ok s') :
    ∃ time, s'.stat path = .ok (.file ⟨bytes, mode, time⟩) := by
  obtain ⟨loc, u, -, hlocate, hfile, hplain, -, rfl⟩ := replaceBy_eq_ok.1 h
  -- The path is located as before the temporary file was cleared.
  have hcleared : (s.without u).locate path = .ok loc := by
    rw [locate_of_nodes (s.nodes_without u), hlocate]
  exact ⟨_, stat_install hcleared hfile hplain⟩

/-- A replacement is seen through no path that is located elsewhere. -/
theorem file?_of_replaceBy {t : TemporaryHandle} (h : s.replaceBy t path bytes mode = .ok s')
    {other : Path} (hother : s.locate other ≠ s.locate path) : s'.file? other = s.file? other := by
  obtain ⟨loc, u, -, hlocate, hfile, -, -, rfl⟩ := replaceBy_eq_ok.1 h
  have hcleared : (s.without u).locate other ≠ .ok loc := by
    rw [locate_of_nodes (s.nodes_without u), ← hlocate]
    exact hother
  have hfile' : (s.without u).node? loc ≠ some .directory := hfile
  rw [file?_install hfile' hcleared, file?, file?, stat_of_nodes (s.nodes_without u)]

end ConstDb.FileSpace
