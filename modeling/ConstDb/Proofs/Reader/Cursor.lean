import ConstDb.Proofs.Reader.Calls

/-! # The cursor as an iterator

`findKey` and the calls of `findNext` behind it give what the calls of an iterator over the
occurrences of the key give: the values, then the error that ended the walk once, then nothing for
ever.  An iterator keeps its key and its place.  A cursor reads the key from the first record that
was found, and is nowhere once a call had no value; so the invariant says of a cursor that is
nowhere that the iterator has nothing left (`Reader.Awaits`).

## Key results

- `Reader.awaits_findKey`: `findKey` is the first call
- `Reader.Awaits.findNext`: `findNext` is the next one
-/

namespace ConstDb

namespace Walk

variable {α : Type} {w : Walk α} {n : Nat}

/-- What call number `n` of an iterator over the walk comes to for one who asks for an item. -/
def call (w : Walk α) (n : Nat) : Except Error (Option α) :=
  match w.nth n with
  | none => .ok none
  | some (.ok a) => .ok (some a)
  | some (.error e) => .error e

theorem lt_of_get?_eq_some {a : α} (h : w.get? n = .ok (some a)) : n < w.items.length := by
  unfold get? at h
  split at h
  · rename_i ha
    exact (List.getElem?_eq_some_iff.1 ha).1
  · split at h <;> cases h

/-- Up to the place behind the last item, an iterator gives what stands at the place of the call. -/
theorem call_eq_get? (h : n ≤ w.items.length) : w.call n = w.get? n := by
  unfold call nth get?
  obtain hlt | rfl := Nat.lt_or_eq_of_le h
  · simp only [dif_pos hlt, List.getElem?_eq_getElem hlt]
  · simp only [dif_neg (Nat.lt_irrefl _), if_true, List.getElem?_eq_none (Nat.le_refl _)]
    cases w.failure <;> rfl

/-- Behind a call that gave no item an iterator has nothing. -/
theorem call_of_get?_ne_some (hn : n ≤ w.items.length) (h : ∀ a, w.get? n ≠ .ok (some a)) {i : Nat}
    (hi : n < i) : w.call i = .ok none := by
  have hlength : n = w.items.length := by
    refine Nat.le_antisymm hn (Nat.le_of_not_lt fun hlt => h w.items[n] ?_)
    rw [get?, List.getElem?_eq_getElem hlt]
  have hbehind : w.nth i = none := by
    rw [nth, dif_neg (by omega), if_neg (by omega)]
  rw [call, hbehind]

end Walk

/-- A lookup gets no further than the hits go. -/
theorem Image.Reaches.le_length {image : Image} {key : ByteArray} {n : Nat} {p : Probe}
    (h : image.Reaches key n p) : n ≤ (image.hits key).items.length := by
  cases h with
  | start => exact Nat.zero_le _
  | hit h hnext =>
    apply Walk.lt_of_get?_eq_some
    rw [← h.next_eq, hnext]

namespace Reader

/-- Whether the next call of `findNext` is call number `n` of an iterator over the occurrences of
`key`.  A cursor that is nowhere stands for an iterator that has nothing left. -/
structure Awaits (r : Reader) (image : Image) (key : ByteArray) (n : Nat) : Prop where
  mapping_eq : ∃ time, r.mapping = some ⟨image, time⟩
  reaches : ∀ c, r.cursor = some c → c.key image = key ∧ image.Reaches key n c.probe
  nowhere : r.cursor = none → ∀ i, n ≤ i → (image.occurrences key).call i = .ok none

variable {r : Reader} {image : Image} {key : ByteArray}

/-- `findKey` touches the cursor only. -/
theorem mapping_findKey (r : Reader) (key : ByteArray) : (r.findKey key).2.mapping = r.mapping := by
  cases hr : r.mapping with
  | none => simp only [findKey, current, hr]
  | some m =>
    rw [findKey_eq hr]
    split
    · exact hr
    · split <;> exact hr

/-- `findKey` is the first call of an iterator over the occurrences of the key. -/
theorem awaits_findKey {time : Nat} (hr : r.mapping = some ⟨image, time⟩) (key : ByteArray) :
    (r.findKey key).1 = (image.occurrences key).call 0 ∧ (r.findKey key).2.Awaits image key 1 := by
  have hfirst : (r.findKey key).1 = (image.occurrences key).get? 0 :=
    (image.answersFrom_hits key).findKey hr
  refine ⟨hfirst.trans (Walk.call_eq_get? (Nat.zero_le _)).symm, ?_⟩
  have hmapping := (r.mapping_findKey key).trans hr
  obtain ⟨hnowhere, hmissed⟩ | ⟨c, hfound, hkey, hreach⟩ := findKey_cases hr key
  · refine ⟨⟨time, hmapping⟩, fun c hc => ?_, fun _ i hi => ?_⟩
    · cases hnowhere.symm.trans hc
    · exact Walk.call_of_get?_ne_some (Nat.zero_le _) (hfirst ▸ hmissed) hi
  · rw [hfound]
    refine ⟨⟨time, hr⟩, fun c' hc' => ?_, fun hnone => ?_⟩
    · cases hc'
      exact ⟨hkey, hreach⟩
    · cases hnone

/-- `findNext` is the call that is awaited. -/
theorem Awaits.findNext {n : Nat} (h : r.Awaits image key n) :
    r.findNext.1 = (image.occurrences key).call n ∧ r.findNext.2.Awaits image key (n + 1) := by
  obtain ⟨⟨time, hr⟩, hreaches, hnowhere⟩ := h
  cases hc : r.cursor with
  | none =>
    rw [findNext_eq_none hr hc]
    refine ⟨(hnowhere hc n (Nat.le_refl n)).symm, ⟨time, hr⟩, fun c hc' => ?_, fun _ i hi => ?_⟩
    · cases hc.symm.trans hc'
    · exact hnowhere hc i (by omega)
  | some c =>
    obtain ⟨hkey, hreach⟩ := hreaches c hc
    have hlength : n ≤ (image.occurrences key).items.length := by
      rw [Image.occurrences, Walk.items_map, List.length_map]
      exact hreach.le_length
    have hnext : r.findNext.1 = (image.occurrences key).get? n :=
      (image.answersFrom_hits key).findNext hr hc hkey hreach
    refine ⟨hnext.trans (Walk.call_eq_get? hlength).symm, ?_⟩
    -- A call without a value puts the cursor nowhere, and then the iterator has nothing left.
    have hended (h : ∀ value, r.findNext.1 ≠ .ok (some value)) :
        ({ r with cursor := none } : Reader).Awaits image key (n + 1) := by
      refine ⟨⟨time, hr⟩, fun c hc' => ?_, fun _ i hi => ?_⟩
      · cases hc'
      · exact Walk.call_of_get?_ne_some hlength (hnext ▸ h) hi
    rw [findNext_eq hr hc] at hended ⊢
    cases hprobe : c.probe.next image (c.key image) with
    | mk result q =>
      rw [hprobe] at hended
      rcases result with e | _ | hit
      · exact hended (by simp)
      · exact hended (by simp)
      · refine ⟨⟨time, hr⟩, fun c' hc' => ?_, fun hnone => ?_⟩
        · cases hc'
          exact ⟨hkey, hreach.hit (hkey ▸ hprobe)⟩
        · cases hnone

end Reader

end ConstDb
