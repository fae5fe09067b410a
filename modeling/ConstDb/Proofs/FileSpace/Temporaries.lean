import ConstDb.Proofs.FileSpace.Change

/-! # Temporary files

A temporary file is known to its owner by the path of its directory, its target and its serial
number, and it lies at the place of that path.  The owner finds it again just when the path still
leads there.  The names of a path that never go up do so as long as there is the directory; a path
with `..` in it may stop to lead to a directory that is still there.

## Key results

- `FileSpace.Knows.of_changes`: a handle stays good, whatever happens to the files
- `FileSpace.Stranded`: a temporary file that its owner cannot find
- `FileSpace.serial_ne_of_discard`, `FileSpace.serial_ne_of_replaceBy`: no temporary file is left
- `FileSpace.Knows.not_stranded_of_plain`: names that do not go up strand no file
-/

namespace ConstDb.FileSpace

variable {s s' : FileSpace} {p : Powers} {t : TemporaryHandle} {u : TemporaryFile}

/-! ### Changes -/

/-- Where no temporary file is made, none is there that was not there before. -/
theorem temporaries_of_changes (hp : ¬p.making) (h : Changes p s s') :
    s'.temporaries ⊆ s.temporaries := by
  induction h with
  | refl => exact List.Subset.refl _
  | tail _ hchange ih =>
    refine List.Subset.trans ?_ ih
    cases hchange with
    | createTemporary hmaking => exact absurd hmaking hp
    | removeDirectory loc => exact List.filter_sublist.subset
    | clearTemporary u => exact List.filter_sublist.subset
    | _ => exact List.Subset.refl _

/-- A new temporary file has a serial number that no other had before. -/
theorem temporaries_or_serials_le (h : Changes p s s') :
    s.serials ≤ s'.serials ∧ ∀ u ∈ s'.temporaries, u ∈ s.temporaries ∨ s.serials ≤ u.serial := by
  induction h with
  | refl => exact ⟨Nat.le_refl _, fun u hu => .inl hu⟩
  | @tail s₁ s₂ _ hchange ih =>
    -- It is enough to show this of the last change.
    have step (hserials : s₁.serials ≤ s₂.serials)
        (hold : ∀ u ∈ s₂.temporaries, u ∈ s₁.temporaries ∨ s₁.serials ≤ u.serial) :
        s.serials ≤ s₂.serials ∧
          ∀ u ∈ s₂.temporaries, u ∈ s.temporaries ∨ s.serials ≤ u.serial := by
      refine ⟨Nat.le_trans ih.1 hserials, fun u hu => ?_⟩
      rcases hold u hu with hu | hu
      · exact ih.2 u hu
      · exact .inr (Nat.le_trans ih.1 hu)
    cases hchange with
    | createTemporary _ _ target =>
      refine step (Nat.le_succ _) fun u hu => ?_
      rcases List.mem_cons.1 hu with rfl | hu
      · exact .inr (Nat.le_refl _)
      · exact .inl hu
    | removeDirectory loc => exact step (Nat.le_refl _) fun u hu => .inl (List.mem_filter.1 hu).1
    | clearTemporary u => exact step (Nat.le_refl _) fun u hu => .inl (List.mem_filter.1 hu).1
    | _ => exact step (Nat.le_refl _) fun u hu => .inl hu

/-! ### Handles -/

/-- Whether a space gave out a handle: there is no other temporary file with its serial number than
the one that it is for, which lies at the place of its directory. -/
structure Knows (s : FileSpace) (t : TemporaryHandle) : Prop where
  serial : t.serial < s.serials
  place : ∀ u ∈ s.temporaries, u.serial = t.serial → u = ⟨t.directory.place, t.target, t.serial⟩
  usable : Usable t.directory

/-- A handle stays good, whatever happens to the files. -/
theorem Knows.of_changes (hk : s.Knows t) (h : Changes p s s') : s'.Knows t := by
  obtain ⟨hserials, htemporaries⟩ := temporaries_or_serials_le h
  refine ⟨Nat.lt_of_lt_of_le hk.serial hserials, fun u hu hserial => ?_, hk.usable⟩
  rcases htemporaries u hu with hu | hnew
  · exact hk.place u hu hserial
  · -- A new file has a number that was not given out when the handle was.
    have := hk.serial
    omega

/-- The handle of a new temporary file is good. -/
theorem knows_withTemporary (hs : s.Sound) {directory : Path} {loc : Location}
    (h : s.resolveDirectory directory = .ok loc) (target : String) :
    (s.withTemporary loc target).Knows ⟨directory, target, s.serials⟩ := by
  have hlocate := (resolveDirectory_eq_ok.1 h).1
  refine ⟨Nat.lt_succ_self _, fun u hu hserial => ?_, usable_of_locate hlocate⟩
  rcases List.mem_cons.1 hu with rfl | hu
  · rw [place_of_locate hlocate]
  · exact absurd hserial (Nat.ne_of_lt (hs.serial u hu))

/-- Whether the path by which a temporary file is known leads to its directory no more. -/
def Stranded (s : FileSpace) (t : TemporaryHandle) : Prop :=
  ∃ u ∈ s.temporaries, u.serial = t.serial ∧ s.resolveDirectory t.directory ≠ .ok u.location

/-- The temporary file that a handle leads to is the only one with its serial number. -/
private theorem Knows.eq_of_findTemporary (hk : s.Knows t) {found : TemporaryFile}
    (hfound : s.findTemporary t = .ok found) (hu : u ∈ s.temporaries)
    (hserial : u.serial = t.serial) : u = found := by
  obtain ⟨loc, -, rfl, hmem⟩ := findTemporary_eq_ok.1 hfound
  rw [hk.place u hu hserial, ← hk.place _ hmem rfl]

/-- No temporary file has the serial number of one that was cleared. -/
theorem Knows.serial_ne_of_without (hk : s.Knows t) {found : TemporaryFile}
    (hfound : s.findTemporary t = .ok found) : ∀ u ∈ (s.without found).temporaries,
      u.serial ≠ t.serial := by
  intro u hu hserial
  obtain ⟨hu, hne⟩ := List.mem_filter.1 hu
  exact of_decide_eq_true hne (hk.eq_of_findTemporary hfound hu hserial)

/-- Discarding the temporary file of a handle leaves nothing of it, unless it is stranded. -/
theorem Knows.serial_ne_of_discard (hk : s.Knows t) (hfree : ¬s.Stranded t) :
    ∀ u ∈ (s.discardTemporary t).temporaries, u.serial ≠ t.serial := by
  rw [discardTemporary_eq]
  cases hfound : s.findTemporary t with
  | ok found => exact hk.serial_ne_of_without hfound
  | error fault =>
    intro u hu hserial
    have hleads : s.resolveDirectory t.directory = .ok u.location := by
      by_contra hleads
      exact hfree ⟨u, hu, hserial, hleads⟩
    have hfinds : s.findTemporary t = .ok u := by
      refine findTemporary_eq_ok.2 ⟨u.location, hleads, ?_, hu⟩
      rw [hk.place u hu hserial]
    cases hfound.symm.trans hfinds

/-- A stranded temporary file stays. -/
theorem Knows.discardTemporary_of_stranded (hk : s.Knows t) (h : s.Stranded t) :
    s.discardTemporary t = s := by
  rw [discardTemporary_eq]
  cases hfound : s.findTemporary t with
  | error fault => rfl
  | ok found =>
    obtain ⟨u, hu, hserial, hleads⟩ := h
    have hsame := hk.eq_of_findTemporary hfound hu hserial
    obtain ⟨loc, hdirectory, rfl, -⟩ := findTemporary_eq_ok.1 hfound
    exact absurd (hsame ▸ hdirectory) hleads

/-- A replacement uses up the temporary file. -/
theorem Knows.serial_ne_of_replaceBy (hk : s.Knows t) {path : Path} {bytes : ByteArray} {mode : Nat}
    (h : s.replaceBy t path bytes mode = .ok s') : ∀ u ∈ s'.temporaries, u.serial ≠ t.serial := by
  obtain ⟨loc, found, hfound, -, -, -, -, rfl⟩ := replaceBy_eq_ok.1 h
  exact hk.serial_ne_of_without hfound

/-- Where names do not go up, no temporary file is stranded: its directory is there. -/
theorem Knows.not_stranded_of_plain (hk : s.Knows t) (hs : s.Sound)
    (hplain : Path.dotDot ∉ t.directory.names) : ¬s.Stranded t := by
  rintro ⟨u, hu, hserial, hleads⟩
  -- The file lies in a directory, and this is at the place where its owner looks for it.
  have hplace : u.location = t.directory.place := by rw [hk.place u hu hserial]
  have hhome := hs.home u hu
  rw [hplace] at hhome hleads
  exact hleads (hs.resolveDirectory_of_plain hk.usable hplain hhome)

end ConstDb.FileSpace
