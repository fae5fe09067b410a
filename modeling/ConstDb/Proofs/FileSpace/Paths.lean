import ConstDb.FileSpace.Basic

/-! # What paths lead to

Where a path leads depends on the files and directories alone, not on the temporary files.  The
names of a path also fix its location once and for all (`Path.place`): a space decides only whether
the path leads there.

## Key results

- `FileSpace.stat_of_nodes`, `FileSpace.locate_of_nodes`: equal entries make paths lead to the same
- `FileSpace.place_of_locate`: a path that leads anywhere leads to its place
- `FileSpace.follow_of_directories`: following names depends only on where the directories are
- `FileSpace.file?_of_same_but`: what changes at one location is seen through its paths only
-/

namespace ConstDb

/-- The location that names lead to from a directory, if they lead anywhere. -/
def Path.placeFrom (start : Location) (names : List Part) : Location :=
  names.foldl (fun loc name => if name = dotDot then loc.dropLast else loc ++ [name]) start

/-- The location that a path leads to, if it leads anywhere. -/
def Path.place (p : Path) : Location := placeFrom [] p.names

namespace FileSpace

/-! ### Spaces with equal entries -/

section

variable {s s' : FileSpace} (h : s'.nodes = s.nodes)
include h

theorem node?_of_nodes (loc : Location) : s'.node? loc = s.node? loc := by
  rw [node?, node?, h]

theorem follow_of_nodes (start : Location) (names : List Path.Part) :
    s'.follow start names = s.follow start names := by
  induction names generalizing start with
  | nil => rfl
  | cons name rest ih => simp only [follow, node?_of_nodes h, ih]

theorem locate_of_nodes (path : Path) : s'.locate path = s.locate path := by
  simp only [locate, follow_of_nodes h]

theorem resolve_of_nodes (path : Path) : s'.resolve path = s.resolve path := by
  simp only [resolve, locate_of_nodes h, node?_of_nodes h]

theorem stat_of_nodes (path : Path) : s'.stat path = s.stat path := by
  simp only [stat, resolve_of_nodes h, node?_of_nodes h]

theorem resolveDirectory_of_nodes (path : Path) :
    s'.resolveDirectory path = s.resolveDirectory path := by
  simp only [resolveDirectory, resolve_of_nodes h, node?_of_nodes h]

end

/-! ### One step of an `Except` chain -/

variable {s s' : FileSpace} {path : Path} {loc start : Location} {names : List Path.Part}

/-- A path is located by following its names from the top. -/
theorem locate_eq_ok :
    s.locate path = .ok loc ↔ checkPath path = .ok () ∧ s.follow [] path.names = .ok loc := by
  unfold locate
  cases checkPath path <;> simp

/-- The first of some names is looked up in a directory, and the others behind it. -/
theorem follow_cons_eq_ok {name : Path.Part} :
    s.follow start (name :: names) = .ok loc ↔
      s.node? start = some .directory ∧ name.length ≤ Path.maxNameSize ∧
        s.follow (if name = Path.dotDot then start.dropLast else start ++ [name]) names =
          .ok loc := by
  rw [follow]
  cases s.node? start with
  | none => simp
  | some node =>
    cases node with
    | file f => simp
    | directory =>
      by_cases hlong : Path.maxNameSize < name.length
      · simp only [hlong, if_true, reduceCtorEq, true_and, false_iff, not_and]
        omega
      · simp only [hlong, if_false, true_and]
        exact ⟨fun h => ⟨Nat.le_of_not_lt hlong, h⟩, And.right⟩

/-- A path that resolves was located. -/
theorem locate_of_resolve (h : s.resolve path = .ok loc) : s.locate path = .ok loc := by
  unfold resolve at h
  cases hlocate : s.locate path with
  | error fault => rw [hlocate] at h; cases h
  | ok l =>
    rw [hlocate] at h
    simp only at h
    split at h
    · split at h
      · cases h
      · exact h
    · exact h

/-- A path leads to something just when it resolves to a location where this lies. -/
theorem stat_eq_ok {node : Node} :
    s.stat path = .ok node ↔ ∃ loc, s.resolve path = .ok loc ∧ s.node? loc = some node := by
  unfold stat
  cases s.resolve path with
  | error fault => simp
  | ok loc => cases hnode : s.node? loc <;> simp [hnode]

/-- A path leads to a directory just when it is located at one. -/
theorem resolveDirectory_eq_ok :
    s.resolveDirectory path = .ok loc ↔
      s.locate path = .ok loc ∧ s.node? loc = some .directory := by
  unfold resolveDirectory resolve
  cases s.locate path with
  | error fault => simp
  | ok l =>
    cases hnode : s.node? l with
    | none =>
      simp only [hnode, reduceCtorEq, Except.ok.injEq, false_iff, not_and]
      rintro rfl
      simp [hnode]
    | some node =>
      cases node with
      | file f =>
        -- A file is no directory, whether the path means one or not.
        have hne : ¬(l = loc ∧ s.node? loc = some .directory) := by
          rintro ⟨rfl, hdir⟩
          cases hnode.symm.trans hdir
        simp only [hnode, Except.ok.injEq, hne, iff_false]
        cases path.meansDirectory <;> simp [hnode]
      | directory =>
        simp only [hnode, Except.ok.injEq]
        exact ⟨fun h => ⟨h, h ▸ hnode⟩, And.left⟩

/-- A path leads to a file just when it is located at one and does not mean a directory. -/
theorem stat_eq_ok_file {f : File} :
    s.stat path = .ok (.file f) ↔
      ∃ loc, s.locate path = .ok loc ∧ s.node? loc = some (.file f) ∧
        path.meansDirectory = false := by
  rw [stat_eq_ok]
  unfold resolve
  cases s.locate path with
  | error fault => simp
  | ok l =>
    simp only [Except.ok.injEq, exists_eq_left']
    cases hnode : s.node? l with
    | none =>
      simp only [Except.ok.injEq, exists_eq_left', hnode, reduceCtorEq, false_and]
    | some node =>
      cases node with
      | directory => simp [hnode]
      | file g => cases path.meansDirectory <;> simp [hnode]

theorem file?_eq_some {f : File} : s.file? path = some f ↔ s.stat path = .ok (.file f) := by
  unfold file?
  split
  · rename_i g h
    simp [h]
  · rename_i h
    simp only [reduceCtorEq, false_iff]
    exact h f

/-! ### The place of a path -/

theorem placeFrom_of_follow (h : s.follow start names = .ok loc) :
    loc = Path.placeFrom start names := by
  induction names generalizing start with
  | nil => exact (Except.ok.inj h).symm
  | cons name rest ih => exact ih (follow_cons_eq_ok.1 h).2.2

/-- A path that leads anywhere leads to its place. -/
theorem place_of_locate (h : s.locate path = .ok loc) : loc = path.place :=
  placeFrom_of_follow (locate_eq_ok.1 h).2

/-- A file that a path leads to lies at its place. -/
theorem node?_place_of_stat {f : File} (h : s.stat path = .ok (.file f)) :
    s.node? path.place = some (.file f) := by
  obtain ⟨loc, hlocate, hnode, -⟩ := stat_eq_ok_file.1 h
  rwa [← place_of_locate hlocate]

/-- Names that can be followed lead to the same location in a space with all these directories. -/
theorem follow_of_directories
    (hdir : ∀ l, s.node? l = some .directory → s'.node? l = some .directory)
    (h : s.follow start names = .ok loc) : s'.follow start names = .ok loc := by
  -- Each name is looked up in a directory, and the other space has this too.
  induction names generalizing start with
  | nil => exact h
  | cons name rest ih =>
    rw [follow_cons_eq_ok] at h ⊢
    exact ⟨hdir start h.1, h.2.1, ih h.2.2⟩

/-- So do paths. -/
theorem locate_of_directories
    (hdir : ∀ l, s.node? l = some .directory → s'.node? l = some .directory)
    (h : s.locate path = .ok loc) : s'.locate path = .ok loc := by
  rw [locate_eq_ok] at h ⊢
  exact ⟨h.1, follow_of_directories hdir h.2⟩

/-- Where both spaces have the same directories, paths lead to the same locations. -/
theorem locate_eq_ok_iff_of_directories
    (hdir : ∀ l, s.node? l = some .directory ↔ s'.node? l = some .directory) :
    s.locate path = .ok loc ↔ s'.locate path = .ok loc :=
  ⟨locate_of_directories fun l => (hdir l).1, locate_of_directories fun l => (hdir l).2⟩

/-- What changes at one location, where there was no directory and is none, is seen through no path
that is not located there. -/
theorem file?_of_same_but {l : Location} (hsame : ∀ other ≠ l, s'.node? other = s.node? other)
    (hold : s.node? l ≠ some .directory) (hnew : s'.node? l ≠ some .directory)
    (hpath : s.locate path ≠ .ok l) : s'.file? path = s.file? path := by
  -- No directory came or went, so every path is located where it was before.
  have hdir (other : Location) :
      s.node? other = some .directory ↔ s'.node? other = some .directory := by
    by_cases h : other = l
    · subst h
      simp [hold, hnew]
    · rw [hsame other h]
  have hlocate {other : Location} : s.locate path = .ok other ↔ s'.locate path = .ok other :=
    locate_eq_ok_iff_of_directories hdir
  -- What lies at its location is the same too, since this is not `l`.
  apply Option.ext
  intro f
  rw [file?_eq_some, file?_eq_some, stat_eq_ok_file, stat_eq_ok_file]
  refine exists_congr fun other => ?_
  rw [← hlocate]
  refine and_congr_right fun hother => ?_
  have hne : other ≠ l := by
    rintro rfl
    exact hpath hother
  rw [hsame other hne]

end FileSpace

end ConstDb
