import ConstDb.Proofs.Draft.Audit
import ConstDb.Proofs.Image.Damage
import ConstDb.Proofs.Image.Tiling

/-! # From the records back to their slots

The statistics of an image certify its index.  They are given just when a search for the key of each
scanned record comes to that very record (`Image.FindsBack`), and then they count how many slots
behind its start slot each of these searches found it.  Two records may have one key, so a search
may pass other hits on its way.

## Key results

- `Probe.Finds.getElem?_gather`, `Probe.finds_of_getElem?_gather`: the hits of a search, with the
  slots that lead to them
- `Image.slotsFor_eq`: the slots of a key, one behind the other around the end of the table
- `Image.findsBack_iff_probesTo`, `Image.misses_iff`: what looking a record up tells
- `Image.stats_certify_index`: statistics of any image
-/

namespace ConstDb

/-! ### Along a list of slots -/

namespace Probe

/-- A search along a list of slots finds a record in slot number `d`, as hit number `n`: all slots
before are taken, and none of them leads to an error. -/
inductive Finds (image : Image) (key : ByteArray) (hash : UInt32) :
    List Slot → (n d : Nat) → Stored → Prop
  | here {slot : Slot} {rest : List Slot} {s : Stored} (htaken : slot.isTaken)
      (hfound : examine image hash key slot = .ok (some s)) :
      Finds image key hash (slot :: rest) 0 0 s
  | past {slot : Slot} {rest : List Slot} {n d : Nat} {s : Stored} (htaken : slot.isTaken)
      (hpass : examine image hash key slot = .ok none) (hrest : Finds image key hash rest n d s) :
      Finds image key hash (slot :: rest) n (d + 1) s
  | behind {slot : Slot} {rest : List Slot} {n d : Nat} {s t : Stored} (htaken : slot.isTaken)
      (hhit : examine image hash key slot = .ok (some t))
      (hrest : Finds image key hash rest n d s) :
      Finds image key hash (slot :: rest) (n + 1) (d + 1) s

variable {image : Image} {key : ByteArray} {hash : UInt32} {slots : List Slot} {n d : Nat}
  {s : Stored}

/-- What a search finds is a hit, and it has looked at the slots up to there. -/
theorem Finds.getElem?_gather (h : Finds image key hash slots n d s) (probed : Nat) :
    (gather image key hash probed slots).items[n]? = some ⟨s, probed + d + 1⟩ := by
  induction h generalizing probed with
  | here htaken hfound =>
    have hvacant := by simpa [Slot.isTaken] using htaken
    rw [gather, if_neg (by simp [hvacant]), hfound]
    rfl
  | @past slot rest n d s htaken hpass _ ih =>
    have hvacant := by simpa [Slot.isTaken] using htaken
    rw [gather, if_neg (by simp [hvacant]), hpass]
    simp only
    rw [ih, show probed + 1 + d + 1 = probed + (d + 1) + 1 by omega]
  | @behind slot rest n d s t htaken hhit _ ih =>
    have hvacant := by simpa [Slot.isTaken] using htaken
    rw [gather, if_neg (by simp [hvacant]), hhit]
    simp only
    rw [Walk.items_cons, List.getElem?_cons_succ, ih,
      show probed + 1 + d + 1 = probed + (d + 1) + 1 by omega]

/-- Each hit is what a search finds. -/
theorem finds_of_getElem?_gather {probed : Nat} {hit : Hit}
    (h : (gather image key hash probed slots).items[n]? = some hit) :
    ∃ d, hit.probes = probed + d + 1 ∧ Finds image key hash slots n d hit.stored := by
  -- By the slots, as the search goes; both counters may have started anywhere.
  induction slots generalizing probed n with
  | nil => simp [gather, Walk.empty] at h
  | cons slot rest ih =>
    rw [gather] at h
    split at h
    · simp [Walk.empty] at h
    · rename_i hvacant
      have htaken : slot.isTaken = true := by simpa [Slot.isTaken] using hvacant
      split at h
      · simp [Walk.failed] at h
      · rename_i hpass
        obtain ⟨d, hprobes, hfinds⟩ := ih h
        exact ⟨d + 1, by omega, .past htaken hpass hfinds⟩
      · rename_i t hhit
        -- This hit is the one that was asked for, or one that stands before it.
        cases n with
        | zero =>
          rw [Walk.items_cons, List.getElem?_cons_zero, Option.some.injEq] at h
          subst h
          exact ⟨0, rfl, .here htaken hhit⟩
        | succ n =>
          rw [Walk.items_cons, List.getElem?_cons_succ] at h
          obtain ⟨d, hprobes, hfinds⟩ := ih h
          exact ⟨d + 1, by omega, .behind htaken hhit hfinds⟩

/-- The slot in which a record is found leads to it. -/
theorem Finds.exists_slot (h : Finds image key hash slots n d s) :
    ∃ slot, slots[d]? = some slot ∧ slot.offset.toNat = s.offset := by
  induction h with
  | here _ hfound =>
    exact ⟨_, List.getElem?_cons_zero, (Stored.offset_of_read (of_examine_eq_some hfound).1).symm⟩
  | past _ _ _ ih =>
    obtain ⟨slot, hslot, hoffset⟩ := ih
    exact ⟨slot, by rwa [List.getElem?_cons_succ], hoffset⟩
  | behind _ _ _ ih =>
    obtain ⟨slot, hslot, hoffset⟩ := ih
    exact ⟨slot, by rwa [List.getElem?_cons_succ], hoffset⟩

end Probe

namespace Image

/-- How many slots the table of a key has. -/
def slotCountFor (image : Image) (key : ByteArray) : Nat :=
  (image.header.bucket (Hash.bucketOf (Hash.ofBytes key))).slots.toNat

/-- The slot of a key `d` slots behind the start slot, around the end of the table. -/
def slotBehind (image : Image) (key : ByteArray) (d : Nat) : Slot :=
  image.slotAt (image.header.bucket (Hash.bucketOf (Hash.ofBytes key)))
    ((Hash.startSlot (Hash.ofBytes key) (image.slotCountFor key) + d) % image.slotCountFor key)

/-- A search for a key goes once around the table, from the start slot on. -/
theorem slotsFor_eq (image : Image) (key : ByteArray) :
    image.slotsFor key = (List.range (image.slotCountFor key)).map (image.slotBehind key) := by
  unfold slotsFor
  cases hstart : Probe.start? image key with
  | none =>
    -- No search is started only where there is no table.
    have hslots : (image.header.bucket (Hash.bucketOf (Hash.ofBytes key))).slots = 0 := by
      by_contra hne
      simp [Probe.start?, hne] at hstart
    rw [slotCountFor, hslots]
    rfl
  | some p =>
    obtain ⟨hhash, hbucket, -, hslot, hprobed⟩ := Probe.start?_eq_some_iff.1 hstart
    rw [hhash] at hbucket
    have hcount : p.slotCount = image.slotCountFor key := by
      rw [Probe.slotCount, hbucket, slotCountFor]
    simp only
    rw [Probe.route, hprobed, Nat.sub_zero, hcount, List.map_map]
    apply List.map_congr_left
    intro j _
    rw [Function.comp, slotBehind, hslot, hcount, hhash, hbucket]

/-! ### From a record back to it -/

/-- The index leads from the key of a record back to that record: a search for the key finds it as
hit number `n` and not before, `d` slots behind the start slot, so its value is occurrence `n` of
the key. -/
structure FindsBack (image : Image) (s : Stored) (n d : Nat) : Prop where
  finds : Probe.Finds image (s.key image.bytes) (Hash.ofBytes (s.key image.bytes))
    (image.slotsFor (s.key image.bytes)) n d s
  first : ∀ m hit, m < n → (image.hits (s.key image.bytes)).items[m]? = some hit →
    hit.stored.offset ≠ s.offset
  nth_eq : image.nth (s.key image.bytes) n = .ok (some (s.value image.bytes))
  lt_slots : d < image.slotCountFor (s.key image.bytes)
  slot_offset : (image.slotBehind (s.key image.bytes) d).offset.toNat = s.offset

/-- A search for the key of a record does not come to the record: it ends before, or it meets an
error before. -/
inductive Misses (image : Image) (s : Stored) : Prop
  | ends (hmiss : ∀ hit ∈ (image.hits (s.key image.bytes)).items, hit.stored.offset ≠ s.offset)
      (hfailure : (image.hits (s.key image.bytes)).failure = none)
  | fails (hmiss : ∀ hit ∈ (image.hits (s.key image.bytes)).items, hit.stored.offset ≠ s.offset)
      {e : Error} (hfailure : (image.hits (s.key image.bytes)).failure = some e)

variable {image : Image} {s : Stored} {n d : Nat}

/-- A hit at the offset of a scanned record is that record. -/
theorem stored_eq_of_offset_eq {key : ByteArray} {hit : Hit} (hs : s ∈ image.scan.items)
    (hhit : hit ∈ (image.hits key).items) (hoffset : hit.stored.offset = s.offset) :
    hit.stored = s := by
  have hread := (sound_of_mem_hits hhit).read_eq
  rw [hoffset, (read_of_mem_scanFrom hs).2] at hread
  exact (Except.ok.inj hread).symm

/-- A hit of a search is the occurrence at its place. -/
theorem nth_of_hit {key : ByteArray} {hit : Hit} (h : (image.hits key).items[n]? = some hit) :
    image.nth key n = .ok (some (hit.value image)) := by
  rw [nth_eq, occurrences, Walk.get?_map, Walk.get?, h]
  rfl

/-- Looking a record up comes to it at a hit of its key, and at none of the hits before. -/
theorem exists_hit_of_probesTo (hs : s ∈ image.scan.items) {probes : Nat}
    (h : image.probesTo (s.key image.bytes) s.offset = .ok (some probes)) :
    ∃ n : Nat, (image.hits (s.key image.bytes)).items[n]? = some ⟨s, probes⟩ ∧
      ∀ (m : Nat) hit, m < n → (image.hits (s.key image.bytes)).items[m]? = some hit →
        hit.stored.offset ≠ s.offset := by
  rw [probesTo_eq, Walk.firstSome] at h
  split at h
  case h_2 => split at h <;> cases h
  rename_i probes' hfind
  cases h
  obtain ⟨front, hit, back, hitems, hhit, hfront⟩ := List.findSome?_eq_some_iff.1 hfind
  have hoffset : hit.stored.offset = s.offset := by
    by_contra hne
    simp [hne] at hhit
  rw [if_pos hoffset, Option.some.injEq] at hhit
  have hmem : hit ∈ (image.hits (s.key image.bytes)).items := by simp [hitems]
  have hstored := stored_eq_of_offset_eq hs hmem hoffset
  refine ⟨front.length, ?_, fun m hit' hm hbefore heq => ?_⟩
  · rw [hitems, List.getElem?_append_right (Nat.le_refl _), Nat.sub_self,
      List.getElem?_cons_zero, ← hstored, ← hhit]
  · rw [hitems, List.getElem?_append_left hm] at hbefore
    have hnone := hfront hit' (List.mem_of_getElem? hbefore)
    simp [heq] at hnone

/-- What a search for a key finds stands in a slot of the table of the key, and that slot leads to
it. -/
theorem slot_of_finds {key : ByteArray}
    (h : Probe.Finds image key (Hash.ofBytes key) (image.slotsFor key) n d s) :
    d < image.slotCountFor key ∧ (image.slotBehind key d).offset.toNat = s.offset := by
  obtain ⟨slot, hslot, hoffset⟩ := h.exists_slot
  rw [slotsFor_eq, List.getElem?_map, Option.map_eq_some_iff] at hslot
  obtain ⟨j, hj, rfl⟩ := hslot
  obtain ⟨hlt, rfl⟩ := List.getElem?_eq_some_iff.1 hj
  rw [List.getElem_range] at hoffset
  rw [List.length_range] at hlt
  exact ⟨hlt, hoffset⟩

/-- A record that looking it up comes to is found back. -/
theorem findsBack_of_probesTo (hs : s ∈ image.scan.items) {probes : Nat}
    (h : image.probesTo (s.key image.bytes) s.offset = .ok (some probes)) :
    ∃ n, image.FindsBack s n (image.distance s) := by
  obtain ⟨n, hplace, hbefore⟩ := exists_hit_of_probesTo hs h
  have hnth := nth_of_hit hplace
  rw [Hit.value] at hnth
  have hgather := hplace
  rw [hits_eq] at hgather
  obtain ⟨d, hprobes, hfinds⟩ := Probe.finds_of_getElem?_gather hgather
  -- The counter of slots is one ahead of the distance wherever a search stops.
  have hdistance : image.distance s = d := by
    have hcounted := distance_add_one h
    simp only at hprobes
    omega
  obtain ⟨hlt, hoffset⟩ := slot_of_finds hfinds
  rw [hdistance]
  exact ⟨n, hfinds, hbefore, hnth, hlt, hoffset⟩

/-- Looking a record up comes to it just when it is found back. -/
theorem findsBack_iff_probesTo (hs : s ∈ image.scan.items) :
    (∃ n d, image.FindsBack s n d) ↔
      ∃ probes, image.probesTo (s.key image.bytes) s.offset = .ok (some probes) := by
  constructor
  · rintro ⟨n, d, h⟩
    have hplace := h.finds.getElem?_gather 0
    rw [← hits_eq] at hplace
    exact exists_probesTo_iff.2 ⟨_, List.mem_of_getElem? hplace, rfl⟩
  · rintro ⟨probes, h⟩
    obtain ⟨n, hn⟩ := findsBack_of_probesTo hs h
    exact ⟨n, _, hn⟩

/-- A search misses a record just when looking the record up does not come to it. -/
theorem misses_iff :
    image.Misses s ↔
      ¬∃ probes, image.probesTo (s.key image.bytes) s.offset = .ok (some probes) := by
  rw [exists_probesTo_iff]
  push Not
  constructor
  · rintro (⟨hmiss, -⟩ | ⟨hmiss, -⟩) <;> exact hmiss
  · intro hmiss
    cases hfailure : (image.hits (s.key image.bytes)).failure with
    | none => exact .ends hmiss hfailure
    | some e => exact .fails hmiss hfailure

/-- The statistics of an image certify its index.  If they are given, nothing is wrong with the
records, each of them is counted once, in the class of its distance, and the index leads back to
it.  If something is wrong with the records, or the search for the key of some record ends or meets
an error before it comes to the record, they fail and say where the file is damaged. -/
theorem stats_certify_index (image : Image) :
    (∀ stats, image.stats = .ok stats →
      image.scan.failure = none ∧ stats.records = image.scan.items.length ∧
      stats.distances.toList.sum = stats.records ∧
      ∃ distance : Stored → Nat,
        (∀ s ∈ image.scan.items, ∃ n, image.FindsBack s n (distance s)) ∧
        ∀ c (hc : c < Stats.classCount), stats.distances[c] =
          image.scan.items.countP fun s => decide (min (distance s) 10 = c)) ∧
    ((∃ e, image.scan.failure = some e) ∨ (∃ s ∈ image.scan.items, image.Misses s) →
      ∃ offset problem, image.stats = .error (.format offset problem)) ∧
    ((∃ stats, image.stats = .ok stats) ↔
      image.scan.failure = none ∧ ∀ s ∈ image.scan.items, ∃ n d, image.FindsBack s n d) := by
  refine ⟨?given, ?refused, ?exact⟩
  case given =>
    intro stats h
    obtain ⟨hfailure, hreach, rfl⟩ := stats_eq_ok_iff.1 h
    -- The histogram starts empty and counts each scanned record once.
    have hrecords := Stats.records_addAll image.distance image.scan.items .empty
    have htotal := Stats.total_addAll image.distance image.scan.items .empty
    rw [Stats.total_empty, Nat.zero_add] at htotal
    rw [show Stats.empty.records = 0 from rfl, Nat.zero_add] at hrecords
    refine ⟨hfailure, hrecords, htotal.trans hrecords.symm, image.distance, ?_, ?_⟩
    · intro s hs
      obtain ⟨probes, hprobes⟩ := hreach s hs
      exact findsBack_of_probesTo hs hprobes
    · intro c hc
      rw [Stats.getElem_distances_addAll, Stats.empty, Vector.getElem_replicate, Nat.zero_add]
  case refused =>
    intro h
    cases hstats : image.stats with
    | error e =>
      -- Whatever statistics fail with, it is damage of the file.
      obtain ⟨offset, problem, rfl⟩ := image.stats_damage e hstats
      exact ⟨offset, problem, rfl⟩
    | ok stats =>
      obtain ⟨hfailure, hreach, -⟩ := stats_eq_ok_iff.1 hstats
      obtain ⟨e, he⟩ | ⟨s, hs, hmisses⟩ := h
      · cases hfailure.symm.trans he
      · exact absurd (hreach s hs) (misses_iff.1 hmisses)
  case exact =>
    constructor
    · rintro ⟨stats, h⟩
      obtain ⟨hfailure, hreach, -⟩ := stats_eq_ok_iff.1 h
      exact ⟨hfailure, fun s hs => (findsBack_iff_probesTo hs).2 (hreach s hs)⟩
    · rintro ⟨hfailure, hback⟩
      exact ⟨_, stats_eq_ok_iff.2
        ⟨hfailure, fun s hs => (findsBack_iff_probesTo hs).1 (hback s hs), rfl⟩⟩

end Image

/-! ### Two records with one key -/

namespace Twice

/-- Two records with one key. -/
def records : List Record := [⟨⟨#[0x6b]⟩, ⟨#[1]⟩⟩, ⟨⟨#[0x6b]⟩, ⟨#[3]⟩⟩]

theorem storable : Draft.Storable records where
  length_le := by decide
  fits r hr := by
    obtain rfl | rfl : r = ⟨⟨#[0x6b]⟩, ⟨#[1]⟩⟩ ∨ r = ⟨⟨#[0x6b]⟩, ⟨#[3]⟩⟩ := by
      simpa [records] using hr
    all_goals exact ⟨by decide, by decide⟩

end Twice

/-- The statistics of a file with two records of one key count both, and the second is found back as
the second hit of the key.  Of a file whose records are followed by a mark of padding far from the
end, no statistics are given. -/
theorem Image.stats_certify_index_twice :
    (∃ (image : Image) (stats : Stats), image.bytes = (Draft.ofRecords Twice.records).image ∧
      image.stats = .ok stats ∧ stats.records = 2 ∧
      ∃ s ∈ image.scan.items, ∃ d, image.FindsBack s 1 d) ∧
    ∃ image : Image, image.bytes = Marked.assembly.bytes ∧ (∃ e, image.scan.failure = some e) ∧
      ∃ offset problem, image.stats = .error (.format offset problem) := by
  constructor
  · obtain ⟨image, -, hbytes⟩ := Twice.storable.ofBytes_image
    obtain ⟨stats, hstats, -, -⟩ := Twice.storable.stats_image hbytes
    obtain ⟨-, hrecords, -, distance, hback, -⟩ := image.stats_certify_index.1 stats hstats
    have hitems : image.scan.items = (Draft.placed Twice.records).map Placed.stored := by
      rw [Twice.storable.scan_image hbytes]
    -- The second record lies 10 bytes behind the first.
    let second : Placed := ⟨4106, ⟨⟨#[0x6b]⟩, ⟨#[3]⟩⟩⟩
    have hplaced : second ∈ Draft.placed Twice.records := by
      rw [Draft.placed, Twice.records, Placed.list_cons, Placed.list_cons, Record.size_encode]
      exact List.mem_cons_of_mem _ List.mem_cons_self
    have hmem : second.stored ∈ image.scan.items := hitems ▸ List.mem_map_of_mem hplaced
    have hat := Draft.hasAt_of_mem_placed hbytes hplaced
    obtain ⟨n, hn⟩ := hback _ hmem
    have hnth := hn.nth_eq
    rw [Placed.stored, Stored.key_of_hasAt hat, Stored.value_of_hasAt hat,
      Image.nth_eq_getElem? (Twice.storable.occurrences_image hbytes _),
      show Record.valuesOf second.record.key Twice.records = [⟨#[1]⟩, ⟨#[3]⟩] by decide,
      Except.ok.injEq] at hnth
    obtain rfl : n = 1 := by
      rcases n with _ | _ | n
      · exact absurd hnth (by decide)
      · rfl
      · cases hnth
    refine ⟨image, stats, hbytes, hstats, ?_, _, hmem, _, hn⟩
    rw [hrecords, hitems]
    simp [Twice.records]
  · obtain ⟨image, hbytes⟩ := Marked.exists_image
    have hfailure : ∃ e, image.scan.failure = some e := ⟨_, by rw [Marked.scan_image hbytes]⟩
    exact ⟨image, hbytes, hfailure, image.stats_certify_index.2.1 (.inl hfailure)⟩

end ConstDb
