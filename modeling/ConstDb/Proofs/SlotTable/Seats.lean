import ConstDb.Proofs.SlotTable.Probing

/-! # Where the entries of a table sit

An entry that is placed takes the first vacant slot on its way, and keeps it, for the entries behind
it only ever take vacant slots.  So each entry has one seat, at some distance from the start slot of
its hash, and everything about the finished table is said by its seats.

How far an entry has to go is bounded by counting: on its way it passes taken slots only, and there
are no more of these than entries before it.

## Key results

- `tableAfter_succ`: which slot an entry takes
- `getElem?_seat`, `exists_seat`: the seats of a table are its taken slots
- `seat_injective`: no two entries have one seat
- `distance_le`: no entry is farther from its start than there are entries in front of it
- `distance_lt_distance`: of entries of one hash, the later one is farther away
-/

namespace ConstDb

namespace SlotTable

/-! ### The table while it is filled -/

variable (entries : List IndexEntry)

/-- The table of a bucket when the first entries were placed. -/
def tableAfter (k : Nat) : SlotTable :=
  (entries.take k).foldl place (vacant (2 * entries.length))

/-- How far an entry sits from the start slot of its hash. -/
def distance (i : Fin entries.length) : Nat := (tableAfter entries i).way (entries.get i).hash

/-- The slot that an entry takes. -/
def seat (i : Fin entries.length) : Nat :=
  slotAfter (2 * entries.length) (entries.get i).hash (distance entries i)

@[simp] theorem size_tableAfter (k : Nat) : (tableAfter entries k).size = 2 * entries.length := by
  rw [tableAfter, size_foldl_place]
  simp [vacant]

theorem exists_getElem?_tableAfter (k : Nat) {u : Nat} (hu : u < 2 * entries.length) :
    ∃ s, (tableAfter entries k)[u]? = some s :=
  ⟨_, Array.getElem?_eq_getElem (by rwa [size_tableAfter])⟩

theorem tableAfter_length : tableAfter entries entries.length = ofEntries entries := by
  rw [tableAfter, List.take_length, ofEntries]

theorem tableAfter_succ_eq_place (i : Fin entries.length) :
    tableAfter entries (i + 1) = (tableAfter entries i).place (entries.get i) := by
  rw [tableAfter, List.take_succ_eq_append_getElem i.isLt, List.foldl_append]
  rfl

variable {entries} (hoffset : ∀ e ∈ entries, e.offset ≠ 0)

include hoffset

theorem tableAfter_holds {k : Nat} (hk : k ≤ entries.length) :
    (tableAfter entries k).Holds (entries.take k) := by
  have hroom : (entries.take k).length ≤ (vacant (2 * entries.length)).size := by
    simp only [List.length_take, vacant, Array.size_replicate]
    omega
  exact foldl_place_holds (vacant_holds _) (entries.take k) (by simpa using hroom)
    fun e he => hoffset e (List.mem_of_mem_take he)

/-- There are as many taken slots as entries were placed. -/
theorem countP_tableAfter {k : Nat} (hk : k ≤ entries.length) :
    (tableAfter entries k).toList.countP Slot.isTaken = k := by
  rw [(tableAfter_holds hoffset hk).count, List.length_take, Nat.min_eq_left hk]

/-- So there is always room for an entry. -/
theorem countP_lt_size (i : Fin entries.length) :
    (tableAfter entries i).toList.countP Slot.isTaken < (tableAfter entries i).size := by
  have hi := i.isLt
  rw [countP_tableAfter hoffset (by omega), size_tableAfter]
  omega

/-- No entry sits farther from its start than there are entries in front of it. -/
theorem distance_le (i : Fin entries.length) : distance entries i ≤ i := by
  have hi := i.isLt
  calc distance entries i
      ≤ (tableAfter entries i).toList.countP Slot.isTaken := way_le_countP
    _ = i := countP_tableAfter hoffset (by omega)

/-- An entry is written to its seat. -/
theorem tableAfter_succ (i : Fin entries.length) :
    tableAfter entries (i + 1) =
      (tableAfter entries i).setIfInBounds (seat entries i) (entries.get i).slot := by
  rw [tableAfter_succ_eq_place, place_eq_set _ (countP_lt_size hoffset i), size_tableAfter]
  rfl

/-- A vacant slot is blank. -/
theorem blank_tableAfter {k : Nat} (hk : k ≤ entries.length) {u : Nat} {s : Slot}
    (hs : (tableAfter entries k)[u]? = some s) (hvacant : s.isVacant) : s = Slot.vacant := by
  obtain ⟨hu, rfl⟩ := Array.getElem?_eq_some_iff.1 hs
  exact (tableAfter_holds hoffset hk).blank _ (Array.getElem_mem_toList hu) hvacant

/-- Its seat was blank before. -/
theorem blank_seat (i : Fin entries.length) :
    (tableAfter entries i)[seat entries i]? = some Slot.vacant := by
  obtain ⟨s, hs, hvacant⟩ := @vacant_way _ (entries.get i).hash (countP_lt_size hoffset i)
  rw [size_tableAfter] at hs
  rw [← blank_tableAfter hoffset (by omega) hs hvacant]
  exact hs

theorem taken_slot (i : Fin entries.length) : (entries.get i).slot.isTaken :=
  isTaken_slot (hoffset (entries.get i) (List.getElem_mem i.isLt))

omit hoffset in
theorem seat_lt (i : Fin entries.length) : seat entries i < 2 * entries.length := by
  have hi := i.isLt
  exact slotAfter_lt _ _ (by omega)

/-- What is written at a seat is there. -/
theorem getElem?_tableAfter_seat (i : Fin entries.length) :
    (tableAfter entries (i + 1))[seat entries i]? = some (entries.get i).slot := by
  rw [tableAfter_succ hoffset i, Array.getElem?_setIfInBounds_self_of_lt]
  rw [size_tableAfter]
  exact seat_lt i

/-- All other slots stay as they are. -/
theorem getElem?_tableAfter_ne (i : Fin entries.length) {u : Nat} (hu : u ≠ seat entries i) :
    (tableAfter entries (i + 1))[u]? = (tableAfter entries i)[u]? := by
  rw [tableAfter_succ hoffset i, Array.getElem?_setIfInBounds_ne (Ne.symm hu)]

/-- A slot that is taken is never written again. -/
theorem tableAfter_mono {k m : Nat} (hkm : k ≤ m) (hm : m ≤ entries.length) {u : Nat} {s : Slot}
    (hs : (tableAfter entries k)[u]? = some s) (htaken : s.isTaken) :
    (tableAfter entries m)[u]? = some s := by
  induction m, hkm using Nat.le_induction with
  | base => exact hs
  | succ m hkm ih =>
    have hold := ih (by omega)
    have hne : u ≠ seat entries ⟨m, by omega⟩ := by
      rintro rfl
      cases hold.symm.trans (blank_seat hoffset ⟨m, by omega⟩)
      cases htaken
    exact (getElem?_tableAfter_ne hoffset ⟨m, by omega⟩ hne).trans hold

/-- Each entry keeps its seat. -/
theorem getElem?_seat (i : Fin entries.length) {m : Nat} (him : i < m) (hm : m ≤ entries.length) :
    (tableAfter entries m)[seat entries i]? = some (entries.get i).slot :=
  tableAfter_mono hoffset him hm (getElem?_tableAfter_seat hoffset i) (taken_slot hoffset i)

/-- A slot that is not vacant is the seat of an entry. -/
theorem exists_seat {m : Nat} (hm : m ≤ entries.length) {u : Nat} {s : Slot}
    (hs : (tableAfter entries m)[u]? = some s) (htaken : s.isTaken) :
    ∃ i : Fin entries.length, i < m ∧ u = seat entries i := by
  induction m with
  | zero =>
    have hblank : s = Slot.vacant := by
      simp only [tableAfter, List.take_zero, List.foldl_nil, vacant] at hs
      obtain ⟨-, rfl⟩ := Array.getElem?_eq_some_iff.1 hs
      simp
    subst hblank
    cases htaken
  | succ m ih =>
    by_cases hu : u = seat entries ⟨m, by omega⟩
    · exact ⟨_, Nat.lt_succ_self m, hu⟩
    · rw [getElem?_tableAfter_ne hoffset ⟨m, by omega⟩ hu] at hs
      obtain ⟨i, hi, rfl⟩ := ih (by omega) hs
      exact ⟨i, Nat.lt_succ_of_lt hi, rfl⟩

/-- No two entries have one seat. -/
theorem seat_injective : Function.Injective (seat entries) := by
  have hlt {i j : Fin entries.length} (hij : i < j) : seat entries i ≠ seat entries j := by
    intro h
    have hseat := getElem?_seat hoffset i hij (by omega)
    rw [h, blank_seat hoffset j] at hseat
    have htaken := taken_slot hoffset i
    rw [← Option.some.inj hseat] at htaken
    cases htaken
  intro i j h
  rcases Nat.lt_trichotomy i j with hij | hij | hij
  · exact absurd h (hlt hij)
  · exact Fin.ext hij
  · exact absurd h.symm (hlt hij)

/-- Every slot from the start of an entry to its seat is taken. -/
theorem taken_of_le_distance (i : Fin entries.length) {m d : Nat} (him : i < m)
    (hm : m ≤ entries.length) (hd : d ≤ distance entries i) :
    ∃ s, (tableAfter entries m)[slotAfter (2 * entries.length) (entries.get i).hash d]? = some s ∧
      s.isTaken := by
  rcases Nat.lt_or_eq_of_le hd with hlt | rfl
  · obtain ⟨s, hs, htaken⟩ := taken_of_lt_way hlt
    rw [size_tableAfter] at hs
    exact ⟨s, tableAfter_mono hoffset (by omega) hm hs htaken, htaken⟩
  · exact ⟨_, getElem?_seat hoffset i him hm, taken_slot hoffset i⟩

/-- Of two entries of one hash the later one sits farther from the start. -/
theorem distance_lt_distance {i j : Fin entries.length} (hij : i < j)
    (hhash : (entries.get i).hash = (entries.get j).hash) :
    distance entries i < distance entries j := by
  by_contra hnot
  obtain ⟨s, hs, htaken⟩ := taken_of_le_distance hoffset i hij (by omega) (Nat.le_of_not_lt hnot)
  rw [hhash] at hs
  obtain rfl := Option.some.inj (hs.symm.trans (blank_seat hoffset j))
  cases htaken

end SlotTable

end ConstDb
