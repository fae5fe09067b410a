import ConstDb.Proofs.Image.Reach

/-! # Histograms of distances

The statistics of an image look every scanned record up through the index and count how far from
its start slot it was found.  They are given just when the scan is sound and every lookup comes to
its record, and then they are the histogram of the distances of the records (`Image.distance`).

## Key results

- `Stats.total_addAll`, `Stats.getElem_distances_addAll`: what a histogram counts
- `Image.exists_probesTo_iff`: when looking a record up comes to it
- `Image.stats_eq_ok_iff`: when statistics are given, and which
-/

namespace ConstDb

/-! ### Histograms -/

private theorem sum_mapIdx_increment {l : List Nat} {d : Nat} (h : d < l.length) :
    (l.mapIdx fun i n => if i = d then n + 1 else n).sum = l.sum + 1 := by
  induction l generalizing d with
  | nil => simp at h
  | cons a l ih =>
    rw [List.mapIdx_cons]
    cases d with
    | zero =>
      have hid : (l.mapIdx fun i n => if i + 1 = 0 then n + 1 else n) = l := by
        apply List.ext_getElem <;> simp
      rw [hid, if_pos rfl, List.sum_cons, List.sum_cons]
      omega
    | succ d =>
      have htail := ih (d := d) (by simpa using h)
      simp only [Nat.add_right_cancel_iff]
      rw [if_neg (by omega), List.sum_cons, List.sum_cons, htail]
      omega

namespace Stats

/-- How many records a histogram counts. -/
def total (s : Stats) : Nat := s.distances.toList.sum

@[simp] theorem total_empty : empty.total = 0 := by
  rw [total, empty, Vector.toList_replicate, List.sum_replicate_nat, Nat.mul_zero]

@[simp] theorem records_add (s : Stats) (probes : Nat) :
    (s.add probes).records = s.records + 1 := rfl

/-- Counting a distance raises one of the classes. -/
@[simp] theorem total_add (s : Stats) (probes : Nat) : (s.add probes).total = s.total + 1 := by
  rw [total, add, Vector.toList_mapIdx, total]
  apply sum_mapIdx_increment
  rw [Vector.length_toList]
  have : classCount = 11 := rfl
  omega

/-- The class that is raised is that of the distance. -/
theorem getElem_distances_add (s : Stats) (distance : Nat) {c : Nat} (hc : c < classCount) :
    (s.add (distance + 1)).distances[c] =
      s.distances[c] + if min distance 10 = c then 1 else 0 := by
  have hlast : classCount - 1 = 10 := rfl
  simp only [add, Vector.getElem_mapIdx, Nat.add_sub_cancel, hlast, eq_comm (a := c)]
  split <;> rfl

variable {α : Type}

/-- Counts the distances of several items one by one. -/
def addAll (distance : α → Nat) (items : List α) (s : Stats) : Stats :=
  items.foldl (fun s a => s.add (distance a + 1)) s

theorem records_addAll (distance : α → Nat) (items : List α) (s : Stats) :
    (s.addAll distance items).records = s.records + items.length := by
  induction items generalizing s with
  | nil => rfl
  | cons a rest ih =>
    rw [addAll, List.foldl_cons, ← addAll, ih, records_add, List.length_cons]
    omega

theorem total_addAll (distance : α → Nat) (items : List α) (s : Stats) :
    (s.addAll distance items).total = s.total + items.length := by
  induction items generalizing s with
  | nil => rfl
  | cons a rest ih =>
    rw [addAll, List.foldl_cons, ← addAll, ih, total_add, List.length_cons]
    omega

/-- A class counts the items whose distances belong to it. -/
theorem getElem_distances_addAll (distance : α → Nat) (items : List α) (s : Stats) {c : Nat}
    (hc : c < classCount) :
    (s.addAll distance items).distances[c] =
      s.distances[c] + items.countP fun a => decide (min (distance a) 10 = c) := by
  induction items generalizing s with
  | nil => rfl
  | cons a rest ih =>
    rw [addAll, List.foldl_cons, ← addAll, ih, getElem_distances_add, List.countP_cons]
    simp only [decide_eq_true_iff]
    omega

end Stats

/-! ### Statistics of an image -/

namespace Image

variable {image : Image}

/-- Looking for an offset succeeds just when some hit of the key lies there. -/
theorem exists_probesTo_iff {key : ByteArray} {offset : Nat} :
    (∃ probes, image.probesTo key offset = .ok (some probes)) ↔
      ∃ hit ∈ (image.hits key).items, hit.stored.offset = offset := by
  rw [probesTo_eq, Walk.firstSome]
  cases hfind : (image.hits key).items.findSome? fun hit =>
      if hit.stored.offset = offset then some hit.probes else none with
  | none =>
    rw [List.findSome?_eq_none_iff] at hfind
    constructor
    · rintro ⟨probes, h⟩
      cases hfailure : (image.hits key).failure <;> simp [hfailure] at h
    · rintro ⟨hit, hmem, hoffset⟩
      simpa [hoffset] using hfind hit hmem
  | some probes =>
    obtain ⟨hit, hmem, hhit⟩ := List.exists_of_findSome?_eq_some hfind
    have hoffset : hit.stored.offset = offset := by
      by_contra hne
      simp [hne] at hhit
    exact ⟨fun _ => ⟨hit, hmem, hoffset⟩, fun _ => ⟨probes, rfl⟩⟩

/-- How many slots a search for the key of a record passes before it comes to the record. -/
def distance (image : Image) (s : Stored) : Nat :=
  match image.probesTo (s.key image.bytes) s.offset with
  | .ok (some probes) => probes - 1
  | _ => 0

/-- A search that comes to a record has looked at one more slot than it passed. -/
theorem distance_add_one {s : Stored} {probes : Nat}
    (h : image.probesTo (s.key image.bytes) s.offset = .ok (some probes)) :
    image.distance s + 1 = probes := by
  obtain ⟨hit, hsound, rfl⟩ := sound_of_probesTo h
  have hpos := hsound.probes_pos
  rw [distance, h]
  simp only
  omega

/-- Looking records up succeeds just when the index leads to each of them, and counts their
distances. -/
theorem foldlM_tally_eq_ok_iff {items : List Stored} {stats result : Stats} :
    items.foldlM image.tally stats = .ok result ↔
      (∀ s ∈ items, ∃ n, image.probesTo (s.key image.bytes) s.offset = .ok (some n)) ∧
        result = stats.addAll image.distance items := by
  induction items generalizing stats with
  | nil => simp [Stats.addAll, pure, Except.pure, eq_comm]
  | cons s rest ih =>
    rw [List.foldlM_cons, List.forall_mem_cons, Stats.addAll, List.foldl_cons, ← Stats.addAll,
      tally]
    cases hprobes : image.probesTo (s.key image.bytes) s.offset with
    | error e => simp [bind, Except.bind]
    | ok found =>
      cases found with
      | none => simp [bind, Except.bind]
      | some n =>
        simp only [bind, Except.bind, ih, distance_add_one hprobes, Except.ok.injEq,
          Option.some.injEq, exists_eq', true_and]

/-- Statistics are given just when nothing is wrong with the records and the index leads to each of
them, and they count the distances. -/
theorem stats_eq_ok_iff {stats : Stats} :
    image.stats = .ok stats ↔
      image.scan.failure = none ∧
        (∀ s ∈ image.scan.items,
          ∃ n, image.probesTo (s.key image.bytes) s.offset = .ok (some n)) ∧
        stats = Stats.empty.addAll image.distance image.scan.items := by
  rw [Image.stats, Walk.foldM, ← foldlM_tally_eq_ok_iff]
  cases image.scan.items.foldlM image.tally .empty with
  | error e => simp
  | ok result => cases image.scan.failure <;> simp

end Image

end ConstDb
