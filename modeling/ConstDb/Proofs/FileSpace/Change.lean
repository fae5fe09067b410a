import ConstDb.Proofs.FileSpace.Replace
import Mathlib.Data.List.Induction
import Mathlib.Logic.Relation

/-! # Changes of a space of files

Every operation on a space of files amounts to changes of a few kinds (`FileSpace.Change`): a file
is installed, modified or removed, a directory is made or removed with all that is in it, and
temporary files come and go.  What holds of a space from the start and is kept by every kind of
change holds after all operations.

## Key results

- `FileSpace.Sound.of_changes`: the entries of a space form a tree, permission bits are in range,
  and temporary files are told apart by their serial numbers and lie in directories
- `FileSpace.Sound.resolveDirectory_of_plain`: a directory is where the names of its location lead
-/

namespace ConstDb

/-- Looking up a key in a list from which some keys were taken. -/
theorem lookup_filter {κ α : Type} [BEq κ] [LawfulBEq κ] (keep : κ → Bool) (entries : List (κ × α))
    (k : κ) :
    (entries.filter fun entry => keep entry.1).lookup k =
      if keep k then entries.lookup k else none := by
  induction entries with
  | nil => simp
  | cons entry rest ih =>
    obtain ⟨l, a⟩ := entry
    by_cases hl : k = l
    · subst hl
      cases hkeep : keep k <;> simp [hkeep, ih]
    · have hne : (k == l) = false := by simp [hl]
      cases hkeep : keep l <;> simp [hkeep, List.lookup_cons, hne, ih]

namespace FileSpace

/-! ### Erasing entries -/

/-- A space without the entries at some locations. -/
def erase (s : FileSpace) (gone : Location → Bool) : FileSpace :=
  { s with nodes := s.nodes.filter fun entry => !gone entry.1 }

/-- A directory and all that is in it, temporary files too, taken out of a space. -/
def eraseDirectory (s : FileSpace) (loc : Location) : FileSpace :=
  { s.erase loc.isPrefixOf with
    temporaries := s.temporaries.filter fun t => !loc.isPrefixOf t.location }

theorem node?_erase (s : FileSpace) {gone : Location → Bool} {loc : Location} (hloc : loc ≠ []) :
    (s.erase gone).node? loc = if gone loc then none else s.node? loc := by
  rw [node?, node?, if_neg hloc, if_neg hloc, erase, lookup_filter fun l => !gone l]
  cases gone loc <;> rfl

/-- What is left after erasing was there before. -/
theorem node?_of_node?_erase {s : FileSpace} {gone : Location → Bool} {loc : Location} {node : Node}
    (h : (s.erase gone).node? loc = some node) : s.node? loc = some node := by
  by_cases hloc : loc = []
  · subst hloc
    exact h
  · rw [node?_erase s hloc] at h
    split at h
    · cases h
    · exact h

/-! ### Kinds of changes -/

/-- What changes may do, beyond what they always may. -/
structure Powers where
  /-- Putting new files somewhere. -/
  writing : Prop
  /-- Making temporary files. -/
  making : Prop
  /-- Setting times by hand. -/
  stamping : Prop

/-- A change of a space of files. -/
inductive Change (p : Powers) (s : FileSpace) : FileSpace → Prop
  | install {path : Path} {loc : Location} {bytes : ByteArray} {mode : Nat} (hwriting : p.writing)
      (hlocate : s.locate path = .ok loc) (hfile : s.node? loc ≠ some .directory)
      (hmode : mode < 0o10000) : Change p s (s.install loc bytes mode)
  | modify {loc : Location} {f g : File} (hnode : s.node? loc = some (.file f))
      (hbytes : g.bytes = f.bytes) (hmode : g.mode = f.mode ∨ g.mode < 0o10000)
      (htime : g.time = f.time ∨ p.stamping) : Change p s (s.put loc (.file g))
  | remove {loc : Location} {f : File} (hnode : s.node? loc = some (.file f)) :
      Change p s (s.erase fun l => decide (l = loc))
  | makeDirectory {path : Path} {loc : Location} (hlocate : s.locate path = .ok loc)
      (hnone : s.node? loc = none) : Change p s (s.put loc .directory)
  | removeDirectory (loc : Location) : Change p s (s.eraseDirectory loc)
  | createTemporary {loc : Location} (hmaking : p.making)
      (hdirectory : s.node? loc = some .directory) (target : String) :
      Change p s (s.withTemporary loc target)
  | clearTemporary (u : TemporaryFile) : Change p s (s.without u)

/-- Changes one after the other. -/
abbrev Changes (p : Powers) : FileSpace → FileSpace → Prop :=
  Relation.ReflTransGen (Change p)

/-! ### Operations as changes -/

section

variable {s s' : FileSpace} {path : Path} {p : Powers}

/-- A file is written at the location of its path, where no directory is. -/
theorem write_eq_ok {bytes : ByteArray} {mode : Nat} (h : s.write path bytes mode = .ok s') :
    ∃ loc, s.locate path = .ok loc ∧ s.node? loc ≠ some .directory ∧
      s' = s.install loc bytes mode := by
  unfold write at h
  cases hresolve : s.resolve path with
  | error fault => rw [hresolve] at h; cases h
  | ok loc =>
    rw [hresolve] at h
    simp only at h
    split at h
    · cases h
    · rename_i hfile
      exact ⟨loc, locate_of_resolve hresolve, hfile, (Except.ok.inj h).symm⟩

theorem change_write (hp : p.writing) {bytes : ByteArray} {mode : Nat} (hmode : mode < 0o10000)
    (h : s.write path bytes mode = .ok s') : Change p s s' := by
  obtain ⟨loc, hlocate, hfile, rfl⟩ := write_eq_ok h
  exact .install hp hlocate hfile hmode

theorem change_modifyFile {change : File → File} (hbytes : ∀ f, (change f).bytes = f.bytes)
    (hmode : ∀ f, (change f).mode = f.mode ∨ (change f).mode < 0o10000)
    (htime : ∀ f, (change f).time = f.time ∨ p.stamping) (h : s.modifyFile path change = .ok s') :
    Change p s s' := by
  unfold modifyFile at h
  cases hresolve : s.resolve path with
  | error fault => rw [hresolve] at h; cases h
  | ok loc =>
    rw [hresolve] at h
    simp only at h
    split at h
    · cases h
    · cases h
    · rename_i f hnode
      cases h
      exact .modify hnode (hbytes f) (hmode f) (htime f)

theorem change_remove (h : s.remove path = .ok s') : Change p s s' := by
  unfold remove at h
  cases hresolve : s.resolve path with
  | error fault => rw [hresolve] at h; cases h
  | ok loc =>
    rw [hresolve] at h
    simp only at h
    split at h
    · cases h
    · cases h
    · rename_i f hnode
      cases h
      have herase : s.erase (fun l => decide (l = loc)) =
          { s with nodes := s.nodes.filter fun entry => decide (entry.1 ≠ loc) } := by
        simp [erase]
      exact herase ▸ .remove hnode

theorem change_makeDirectory (h : s.makeDirectory path = .ok s') : Change p s s' := by
  unfold makeDirectory at h
  cases hresolve : s.resolve path with
  | error fault => rw [hresolve] at h; cases h
  | ok loc =>
    rw [hresolve] at h
    simp only at h
    split at h
    · cases h
    · rename_i hnone
      cases h
      exact .makeDirectory (locate_of_resolve hresolve) hnone

theorem change_removeDirectory (h : s.removeDirectory path = .ok s') : Change p s s' := by
  unfold removeDirectory at h
  cases hdirectory : s.resolveDirectory path with
  | error fault => rw [hdirectory] at h; cases h
  | ok loc =>
    rw [hdirectory] at h
    cases h
    exact .removeDirectory loc

end

/-! ### What every space has in common -/

/-- What holds of a space that was empty once. -/
structure Sound (s : FileSpace) : Prop where
  /-- What lies anywhere lies in a directory. -/
  parent : ∀ loc, s.node? loc ≠ none → s.node? loc.dropLast = some .directory
  /-- Permission bits are in range. -/
  mode : ∀ loc f, s.node? loc = some (.file f) → f.mode < 0o10000
  /-- Serial numbers were given out. -/
  serial : ∀ u ∈ s.temporaries, u.serial < s.serials
  /-- No serial number was given out twice. -/
  distinct : s.temporaries.Pairwise fun u v => u.serial ≠ v.serial
  /-- Temporary files lie in directories. -/
  home : ∀ u ∈ s.temporaries, s.node? u.location = some .directory

theorem node?_start (topSize : Nat) (clock : Nat → Nat) (loc : Location) :
    (start topSize clock).node? loc = if loc = [] then some .directory else none := by
  simp [node?, start]

theorem sound_start (topSize : Nat) (clock : Nat → Nat) : (start topSize clock).Sound where
  parent loc h := by
    rw [node?_start] at h
    split at h
    · rename_i hloc
      subst hloc
      rfl
    · exact absurd rfl h
  mode loc f h := by
    rw [node?_start] at h
    split at h <;> cases h
  serial u h := absurd h List.not_mem_nil
  distinct := .nil
  home u h := absurd h List.not_mem_nil

namespace Sound

variable {s s' : FileSpace} {loc start : Location} {path : Path}

/-- Names that can be followed from a directory lead to a place in a directory. -/
private theorem directory_of_follow (hs : s.Sound) {names : List Path.Part}
    (hstart : s.node? start.dropLast = some .directory) (h : s.follow start names = .ok loc) :
    s.node? loc.dropLast = some .directory := by
  induction names generalizing start with
  | nil => exact Except.ok.inj h ▸ hstart
  | cons name rest ih =>
    obtain ⟨hdir, -, hrest⟩ := follow_cons_eq_ok.1 h
    refine ih ?_ hrest
    split
    · exact hs.parent _ (by simp [hstart])
    · rw [List.dropLast_concat, hdir]

/-- The location of a path is in a directory. -/
theorem directory_of_locate (hs : s.Sound) (h : s.locate path = .ok loc) :
    s.node? loc.dropLast = some .directory :=
  hs.directory_of_follow rfl (locate_eq_ok.1 h).2

/-- A new entry in a directory, which does not take the place of a directory. -/
private theorem put (hs : s.Sound) (node : Node) (hold : s.node? loc ≠ some .directory)
    (hparent : s.node? loc.dropLast = some .directory)
    (hmode : ∀ f, node = .file f → f.mode < 0o10000) : (s.put loc node).Sound := by
  have hroot : loc ≠ [] := ne_nil_of_not_directory hold
  have hself := s.node?_put_self node hroot
  -- A directory is not at `loc`, so it stays.
  have hdir {l : Location} (hl : s.node? l = some .directory) :
      (s.put loc node).node? l = some .directory := by
    have hne : l ≠ loc := by
      rintro rfl
      exact hold hl
    rw [node?_put_of_ne s node hne, hl]
  refine ⟨?_, ?_, hs.serial, hs.distinct, fun u hu => hdir (hs.home u hu)⟩
  · intro l hl
    by_cases h : l = loc
    · subst h
      exact hdir hparent
    · rw [node?_put_of_ne s node h] at hl
      exact hdir (hs.parent l hl)
  · intro l f hl
    by_cases h : l = loc
    · subst h
      exact hmode f (Option.some.inj (hself.symm.trans hl))
    · rw [node?_put_of_ne s node h] at hl
      exact hs.mode l f hl

/-- Entries that no directory which stays is among may be erased with what is in them. -/
private theorem erase (hs : s.Sound) {gone : Location → Bool}
    (hgone : ∀ l, s.node? l = some .directory → gone l = true → ∀ l', s.node? l' ≠ none →
      l'.dropLast = l → gone l' = true)
    (htemporary : ∀ u ∈ s.temporaries, gone u.location = false ∨ u.location = []) :
    (s.erase gone).Sound := by
  -- What stays keeps its directory, because a directory only goes with all that is in it.
  refine ⟨?_, ?_, hs.serial, hs.distinct, ?_⟩
  · intro l hl
    by_cases hroot : l = []
    · subst hroot
      rfl
    rw [node?_erase s hroot] at hl
    split at hl
    · exact absurd rfl hl
    · rename_i hstays
      have hparent := hs.parent l hl
      by_cases hparentRoot : l.dropLast = []
      · rw [hparentRoot]
        rfl
      · rw [node?_erase s hparentRoot, hparent]
        split
        · -- A directory goes with its entries, so this entry would have gone too.
          rename_i hparentGone
          exact absurd (hgone _ hparent hparentGone l hl rfl) hstays
        · rfl
  · intro l f hl
    exact hs.mode l f (node?_of_node?_erase hl)
  · intro u hu
    by_cases hroot : u.location = []
    · rw [hroot]
      rfl
    · rcases htemporary u hu with hstays | hnil
      · have hhome := hs.home u hu
        rw [node?_erase s hroot, hstays]
        exact hhome
      · exact absurd hnil hroot

/-- Fewer temporary files are as sound. -/
private theorem filter (hs : s.Sound) (keep : TemporaryFile → Bool) :
    Sound { s with temporaries := s.temporaries.filter keep } where
  parent := hs.parent
  mode := hs.mode
  serial u hu := hs.serial u (List.mem_filter.1 hu).1
  distinct := hs.distinct.filter keep
  home u hu := hs.home u (List.mem_filter.1 hu).1

/-- Each change keeps a space sound. -/
theorem of_change {p : Powers} (hs : s.Sound) (h : Change p s s') : s'.Sound := by
  -- New entries go by `put` and lost ones by `erase`; the last two kinds touch no entry.
  cases h with
  | @install path l bytes mode _ hlocate hfile hmode =>
    have hput := hs.put (.file ⟨bytes, mode, s.stamp⟩) hfile (hs.directory_of_locate hlocate)
      (fun f hf => Node.file.inj hf ▸ hmode)
    exact ⟨hput.parent, hput.mode, hput.serial, hput.distinct, hput.home⟩
  | @modify l f g hnode hbytes hmode htime =>
    have hrange : g.mode < 0o10000 := by
      rcases hmode with hmode | hmode
      · rw [hmode]
        exact hs.mode l f hnode
      · exact hmode
    refine hs.put _ (by simp [hnode]) (hs.parent l (by simp [hnode])) ?_
    intro f' hf'
    exact Node.file.inj hf' ▸ hrange
  | @remove l f hnode =>
    have hnot {l' : Location} (hl' : s.node? l' = some .directory) : l' ≠ l := by
      rintro rfl
      cases hnode.symm.trans hl'
    refine hs.erase ?_ ?_
    · intro l' hl' hgone
      exact absurd (of_decide_eq_true hgone) (hnot hl')
    · intro u hu
      exact .inl (decide_eq_false (hnot (hs.home u hu)))
  | makeDirectory hlocate hnone =>
    exact hs.put _ (by simp [hnone]) (hs.directory_of_locate hlocate) (by simp)
  | removeDirectory l =>
    -- The temporary files go first, so that those which stay lie in directories that stay.
    refine (hs.filter fun u => !l.isPrefixOf u.location).erase ?_ ?_
    · intro l' _ hgone l'' _ hparent
      rw [List.isPrefixOf_iff_prefix] at hgone ⊢
      exact hgone.trans (hparent ▸ List.dropLast_prefix l'')
    · intro u hu
      exact .inl (by simpa using (List.mem_filter.1 hu).2)
  | createTemporary _ hdirectory target =>
    refine ⟨hs.parent, hs.mode, ?_, ?_, ?_⟩
    · intro u hu
      rcases List.mem_cons.1 hu with rfl | hu
      · exact Nat.lt_succ_self _
      · exact Nat.lt_succ_of_lt (hs.serial u hu)
    · refine List.pairwise_cons.2 ⟨fun u hu => ?_, hs.distinct⟩
      exact (Nat.ne_of_lt (hs.serial u hu)).symm
    · intro u hu
      rcases List.mem_cons.1 hu with rfl | hu
      · exact hdirectory
      · exact hs.home u hu
  | clearTemporary u => exact hs.filter _

/-- So do changes one after the other. -/
theorem of_changes {p : Powers} (hs : s.Sound) (h : Changes p s s') : s'.Sound := by
  induction h with
  | refl => exact hs
  | tail _ hchange ih => exact ih.of_change hchange

/-! ### Where names lead -/

/-- Above a directory there are directories. -/
private theorem directory_above (hs : s.Sound) {behind : Location}
    (h : s.node? (start ++ behind) = some .directory) : s.node? start = some .directory := by
  -- The names go away from the end, since soundness tells of the directory right above.
  induction behind using List.reverseRecOn with
  | nil => rwa [List.append_nil] at h
  | append_singleton l name ih =>
    have hparent := hs.parent (start ++ (l ++ [name])) (by simp [h])
    rw [← List.append_assoc, List.dropLast_concat] at hparent
    exact ih hparent

/-- Where there is a directory, the names of its location lead from any directory above. -/
private theorem follow_of_plain (hs : s.Sound) {names : List Path.Part}
    (hdirectory : s.node? (start ++ names) = some .directory) (hplain : Path.dotDot ∉ names)
    (hshort : ∀ name ∈ names, name.length ≤ Path.maxNameSize) :
    s.follow start names = .ok (start ++ names) := by
  induction names generalizing start with
  | nil => simp [follow]
  | cons name rest ih =>
    have hne : name ≠ Path.dotDot := fun h => hplain (h ▸ List.mem_cons_self)
    rw [follow_cons_eq_ok, if_neg hne]
    refine ⟨hs.directory_above hdirectory, hshort name List.mem_cons_self, ?_⟩
    rw [List.append_cons start name rest] at hdirectory ⊢
    exact ih hdirectory (fun h => hplain (List.mem_cons_of_mem _ h))
      fun n hn => hshort n (List.mem_cons_of_mem _ hn)

end Sound

/-- A path that can lead somewhere: nothing is wrong with its bytes and its names. -/
structure Usable (path : Path) : Prop where
  check : checkPath path = .ok ()
  short : ∀ name ∈ path.names, name.length ≤ Path.maxNameSize

/-- A path that once led somewhere is usable. -/
theorem usable_of_locate {s : FileSpace} {path : Path} {loc : Location}
    (h : s.locate path = .ok loc) : Usable path := by
  obtain ⟨hcheck, hfollow⟩ := locate_eq_ok.1 h
  have hshort {start : Location} {names : List Path.Part} (h : s.follow start names = .ok loc) :
      ∀ name ∈ names, name.length ≤ Path.maxNameSize := by
    induction names generalizing start with
    | nil => simp
    | cons name rest ih =>
      obtain ⟨-, hname, hrest⟩ := follow_cons_eq_ok.1 h
      exact List.forall_mem_cons.2 ⟨hname, ih hrest⟩
  exact ⟨hcheck, hshort hfollow⟩

/-- Names that do not go up are the way to their place. -/
theorem placeFrom_of_plain {start : Location} {names : List Path.Part}
    (hplain : Path.dotDot ∉ names) : Path.placeFrom start names = start ++ names := by
  induction names generalizing start with
  | nil => simp [Path.placeFrom]
  | cons name rest ih =>
    have hne : name ≠ Path.dotDot := fun h => hplain (h ▸ List.mem_cons_self)
    have hrest := @ih (start ++ [name]) fun h => hplain (List.mem_cons_of_mem _ h)
    rw [Path.placeFrom] at hrest ⊢
    rw [List.foldl_cons, if_neg hne, hrest, List.append_cons start name rest]

/-- A usable path that does not go up leads to the directory at its place, if there is one. -/
theorem Sound.resolveDirectory_of_plain {s : FileSpace} (hs : s.Sound) {path : Path}
    (husable : Usable path) (hplain : Path.dotDot ∉ path.names)
    (hdirectory : s.node? path.place = some .directory) :
    s.resolveDirectory path = .ok path.place := by
  have hplace : path.place = [] ++ path.names := placeFrom_of_plain hplain
  rw [resolveDirectory_eq_ok, locate_eq_ok]
  refine ⟨⟨husable.check, ?_⟩, hdirectory⟩
  rw [hplace] at hdirectory ⊢
  exact hs.follow_of_plain hdirectory hplain husable.short

end FileSpace

end ConstDb
