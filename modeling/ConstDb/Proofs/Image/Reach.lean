import ConstDb.Proofs.Image.Queries

/-! # What a reader may meet

Whatever a file holds, a search finds only records that lie inside the record region and have the
key that was asked for, and a scan meets only records inside the record region.  Neither meets more
records than words can count, and all that can end them early is damage, which the error places.

## Key results

- `Probe.examine_cases`: what an entry may lead to
- `Probe.InTable.sound_of_mem_hits`, `Image.sound_of_mem_hits`: the hits of a search
- `Image.length_hits_lt`, `Image.length_scanFrom_le`: how many records are met
- `Image.isFormat_of_hits`, `Image.isFormat_of_scanFrom`: what ends a search or a scan early
- `Probe.InTable.next`: a search stays in its table from call to call
-/

namespace ConstDb

/-- An error that says where a file is damaged. -/
def Error.IsFormat (e : Error) : Prop := ∃ offset problem, e = .format offset problem

/-- A record with the key that was asked for, inside the record region. -/
structure Hit.Sound (image : Image) (key : ByteArray) (hit : Hit) : Prop where
  read_eq : Stored.read image.bytes hit.stored.offset image.recordEnd = .ok hit.stored
  key_eq : hit.stored.key image.bytes = key
  probes_pos : 0 < hit.probes
  probes_lt : hit.probes < 2 ^ 32

theorem Hit.Sound.next_le {image : Image} {key : ByteArray} {hit : Hit}
    (h : hit.Sound image key) : hit.stored.next ≤ image.recordEnd :=
  Nat.le_trans (Stored.read_eq_ok.1 h.read_eq).2 (Nat.min_le_left ..)

theorem Hit.Sound.offset_le {image : Image} {key : ByteArray} {hit : Hit}
    (h : hit.Sound image key) : hit.stored.offset ≤ image.bytes.size := by
  have hle := hit.stored.offset_add_le_next
  have hnext := h.next_le
  have hend := image.recordEnd_le_size
  omega

namespace Probe

variable {image : Image} {key : ByteArray} {hash : UInt32} {slot : Slot}

/-- An entry is passed over, or else it leads to what is stored at its offset: a record with the
key, or the damage there. -/
theorem examine_cases (image : Image) (hash : UInt32) (key : ByteArray) (slot : Slot) :
    examine image hash key slot = .ok none ∨
      (∃ s, Stored.read image.bytes slot.offset.toNat image.recordEnd = .ok s ∧
        s.key image.bytes = key ∧ examine image hash key slot = .ok (some s)) ∨
      ∃ e, Stored.read image.bytes slot.offset.toNat image.recordEnd = .error e ∧
        examine image hash key slot = .error e := by
  -- The checks come in the order of the search: hash, length in the slot, prologue, length, record.
  unfold examine
  split
  · exact .inl rfl
  split
  · exact .inl rfl
  cases hannounced : Stored.announced image.bytes slot.offset.toNat image.recordEnd with
  | error e => exact .inr (.inr ⟨e, by rw [Stored.read, hannounced], rfl⟩)
  | ok s =>
    simp only
    split
    · exact .inl rfl
    have hread : Stored.read image.bytes slot.offset.toNat image.recordEnd =
        (s.check image.bytes image.recordEnd).map fun _ => s := by rw [Stored.read, hannounced]
    cases hcheck : s.check image.bytes image.recordEnd with
    | error e => exact .inr (.inr ⟨e, by rw [hread, hcheck, Except.map], rfl⟩)
    | ok u =>
      simp only
      split
      · rename_i hkey
        exact .inr (.inl ⟨s, by rw [hread, hcheck, Except.map], hkey, rfl⟩)
      · exact .inl rfl

/-- A record that an entry leads to is stored at the offset of the entry and has the key. -/
theorem of_examine_eq_some {s : Stored} (h : examine image hash key slot = .ok (some s)) :
    Stored.read image.bytes slot.offset.toNat image.recordEnd = .ok s ∧
      s.key image.bytes = key := by
  obtain hpass | ⟨t, hread, hkey, hfound⟩ | ⟨e, -, hdamage⟩ := examine_cases image hash key slot
  · cases h.symm.trans hpass
  · cases h.symm.trans hfound
    exact ⟨hread, hkey⟩
  · cases h.symm.trans hdamage

/-- An error that an entry leads to is one of the record at its offset. -/
theorem of_examine_eq_error {e : Error} (h : examine image hash key slot = .error e) :
    Stored.read image.bytes slot.offset.toNat image.recordEnd = .error e := by
  obtain hpass | ⟨t, -, -, hfound⟩ | ⟨e', hread, hdamage⟩ := examine_cases image hash key slot
  · cases h.symm.trans hpass
  · cases h.symm.trans hfound
  · cases h.symm.trans hdamage
    exact hread

/-! ### Along a list of slots -/

/-- A search along a list of slots meets a slot: the slot is taken, and so are all before it, none
of which leads to an error. -/
inductive Meets (image : Image) (key : ByteArray) (hash : UInt32) : List Slot → Slot → Prop
  | here {slot : Slot} {rest : List Slot} (htaken : slot.isTaken) :
      Meets image key hash (slot :: rest) slot
  | further {first slot : Slot} {rest : List Slot} {found : Option Stored}
      (htaken : first.isTaken) (hpass : examine image hash key first = .ok found)
      (hrest : Meets image key hash rest slot) : Meets image key hash (first :: rest) slot

/-- Each hit is what some slot leads to that the search meets, and counts the slots up to there. -/
theorem of_mem_gather {probed : Nat} {slots : List Slot} {hit : Hit}
    (h : hit ∈ (gather image key hash probed slots).items) :
    (∃ slot, Meets image key hash slots slot ∧
      examine image hash key slot = .ok (some hit.stored)) ∧
      probed < hit.probes ∧ hit.probes ≤ probed + slots.length := by
  induction slots generalizing probed with
  | nil => simp [gather, Walk.empty] at h
  | cons slot rest ih =>
    rw [gather] at h
    split at h
    · simp [Walk.empty] at h
    · rename_i htaken
      have htaken : slot.isTaken = true := by simpa [Slot.isTaken] using htaken
      -- A hit that does not come from the first slot comes from the others, one slot later.
      have behind {found : Option Stored} (hpass : examine image hash key slot = .ok found)
          (h : hit ∈ (gather image key hash (probed + 1) rest).items) :
          (∃ u, Meets image key hash (slot :: rest) u ∧
            examine image hash key u = .ok (some hit.stored)) ∧
            probed < hit.probes ∧ hit.probes ≤ probed + (slot :: rest).length := by
        obtain ⟨⟨u, hu, hexamine⟩, hlt, hle⟩ := ih h
        rw [List.length_cons]
        exact ⟨⟨u, .further htaken hpass hu, hexamine⟩, by omega, by omega⟩
      split at h
      · simp [Walk.failed] at h
      · rename_i hpass
        exact behind hpass h
      · rename_i hexamine
        rw [Walk.items_cons, List.mem_cons] at h
        rcases h with rfl | h
        · rw [List.length_cons]
          exact ⟨⟨slot, .here htaken, hexamine⟩, Nat.lt_succ_self _, by simp only; omega⟩
        · exact behind hexamine h

theorem length_gather_le (image : Image) (key : ByteArray) (hash : UInt32) (probed : Nat)
    (slots : List Slot) : (gather image key hash probed slots).items.length ≤ slots.length := by
  induction slots generalizing probed with
  | nil => exact Nat.le_refl _
  | cons slot rest ih =>
    have hrest := ih (probed + 1)
    rw [gather, List.length_cons]
    split
    · exact Nat.zero_le _
    · split
      · exact Nat.zero_le _
      · omega
      · rw [Walk.items_cons, List.length_cons]
        omega

/-- The error that ends a search is one that some slot leads to that the search meets. -/
theorem of_gather_failure {probed : Nat} {slots : List Slot} {e : Error}
    (h : (gather image key hash probed slots).failure = some e) :
    ∃ slot, Meets image key hash slots slot ∧ examine image hash key slot = .error e := by
  induction slots generalizing probed with
  | nil => simp [gather, Walk.empty] at h
  | cons slot rest ih =>
    rw [gather] at h
    split at h
    · simp [Walk.empty] at h
    · rename_i htaken
      have htaken : slot.isTaken = true := by simpa [Slot.isTaken] using htaken
      split at h
      · rename_i hexamine
        cases h
        exact ⟨slot, .here htaken, hexamine⟩
      · rename_i hpass
        obtain ⟨u, hu, hexamine⟩ := ih h
        exact ⟨u, .further htaken hpass hu, hexamine⟩
      · rename_i hpass
        obtain ⟨u, hu, hexamine⟩ := ih h
        exact ⟨u, .further htaken hpass hu, hexamine⟩

/-- A slot that leads to an error ends the search that meets it. -/
theorem Meets.failure_eq {slots : List Slot} (h : Meets image key hash slots slot) {e : Error}
    (he : examine image hash key slot = .error e) (probed : Nat) :
    (gather image key hash probed slots).failure = some e := by
  induction h generalizing probed with
  | here htaken =>
    have hvacant := by simpa [Slot.isTaken] using htaken
    rw [gather, if_neg (by simp [hvacant]), he]
    rfl
  | @further first slot rest found htaken hpass _ ih =>
    have hvacant := by simpa [Slot.isTaken] using htaken
    rw [gather, if_neg (by simp [hvacant]), hpass]
    cases found with
    | none => exact ih he (probed + 1)
    | some s => exact ih he (probed + 1)

/-! ### In a table -/

variable {p : Probe}

/-- All hits of a search are sound. -/
theorem InTable.sound_of_mem_hits (h : p.InTable image) {hit : Hit}
    (hmem : hit ∈ (p.hits image key).items) : hit.Sound image key := by
  rw [hits_eq_gather h] at hmem
  obtain ⟨⟨slot, -, hexamine⟩, hlt, hle⟩ := of_mem_gather hmem
  obtain ⟨hread, hkey⟩ := of_examine_eq_some hexamine
  rw [← Stored.offset_of_read hread] at hread
  have hslots : p.slotCount < 2 ^ 32 := p.bucket.slots.toNat_lt
  rw [List.length_map, length_route] at hle
  by_cases hprobed : p.probed < p.slotCount
  · exact ⟨hread, hkey, by omega, by omega⟩
  · -- A search that has looked at all slots has no hits.
    rw [route_of_le (by omega)] at hmem
    simp [gather, Walk.empty] at hmem

/-- A search finds at most as many records as it has slots to look at. -/
theorem InTable.length_hits_le (h : p.InTable image) (key : ByteArray) :
    (p.hits image key).items.length ≤ p.slotCount - p.probed := by
  have hle := length_gather_le image key p.hash p.probed (p.route.map (image.slotAt p.bucket))
  rw [List.length_map, length_route] at hle
  rw [hits_eq_gather h]
  exact hle

/-- What a search fails with is what ends its hits. -/
theorem failure_of_next {e : Error} (h : (p.next image key).1 = .error e) :
    (p.hits image key).failure = some e := by
  rw [hits_eq_match]
  generalize p.next image key = result at h
  obtain ⟨r, q⟩ := result
  cases h
  rfl

/-- What a search hits is the first of its hits. -/
theorem mem_hits_of_next {hit : Hit} {q : Probe} (h : p.next image key = (.ok (some hit), q)) :
    hit ∈ (p.hits image key).items := by
  rw [hits_eq_match, h]
  exact List.mem_cons_self

/-- A search stays in its table from call to call. -/
theorem InTable.next (h : p.InTable image) (key : ByteArray) :
    (p.next image key).2.InTable image := by
  fun_induction Probe.next image key p with
  | case1 p => exact h
  | case2 p hlt _ _ _ => exact ⟨h.bucket_eq, (h.turn_tick hlt).slot_lt, Nat.le_refl _⟩
  | case3 p hlt _ _ _ _ _ => exact h.turn_tick hlt
  | case4 p hlt _ _ _ _ _ => exact h.turn_tick hlt
  | case5 p hlt _ _ _ _ ih => exact ih (h.turn_tick hlt)
  | case6 p => exact ⟨h.bucket_eq, h.slot_lt, Nat.le_refl _⟩

end Probe

/-! ### Damage -/

/-- What is wrong with a prologue is told with its place. -/
theorem Stored.error_of_announced {data : ByteArray} {offset stop : Nat} {e : Error}
    (h : announced data offset stop = .error e) : ∃ problem, e = .format offset problem := by
  unfold announced at h
  split at h
  · simp at h
  · cases h
    exact ⟨_, rfl⟩

/-- What is wrong with a record is told with its place. -/
theorem Stored.error_of_read {data : ByteArray} {offset stop : Nat} {e : Error}
    (h : read data offset stop = .error e) : ∃ problem, e = .format offset problem := by
  unfold read at h
  split at h
  · rename_i hannounced
    cases h
    exact error_of_announced hannounced
  · rename_i s hannounced
    obtain rfl : s.offset = offset := by rw [(announced_eq_ok.1 hannounced).2]
    unfold check at h
    split at h
    · cases h
      exact ⟨_, rfl⟩
    · split at h
      · cases h
        exact ⟨_, rfl⟩
      · simp [Except.map] at h

/-- A search in a table fails by damage only. -/
theorem Probe.InTable.isFormat_of_hits {image : Image} {key : ByteArray} {p : Probe}
    (h : p.InTable image) {e : Error} (he : (p.hits image key).failure = some e) :
    e.IsFormat := by
  rw [hits_eq_gather h] at he
  obtain ⟨slot, -, hexamine⟩ := of_gather_failure he
  exact ⟨_, Stored.error_of_read (of_examine_eq_error hexamine)⟩

namespace Image

variable {image : Image} {key : ByteArray}

/-- All records that are found for a key are sound. -/
theorem sound_of_mem_hits {hit : Hit} (h : hit ∈ (image.hits key).items) :
    hit.Sound image key := by
  unfold hits at h
  split at h
  · simp [Walk.empty] at h
  · rename_i p hstart
    exact (Probe.inTable_of_start? hstart).sound_of_mem_hits h

/-- A key has fewer records than words can count. -/
theorem length_hits_lt (image : Image) (key : ByteArray) :
    (image.hits key).items.length < 2 ^ 32 := by
  unfold hits
  split
  · exact Nat.two_pow_pos 32
  · rename_i p hstart
    have hle := (Probe.inTable_of_start? hstart).length_hits_le key
    have hslots : p.slotCount < 2 ^ 32 := p.bucket.slots.toNat_lt
    omega

/-- A search for a key is ended early by damage only. -/
theorem isFormat_of_hits {e : Error} (h : (image.hits key).failure = some e) : e.IsFormat := by
  unfold hits at h
  split at h
  · cases h
  · rename_i p hstart
    exact (Probe.inTable_of_start? hstart).isFormat_of_hits h

/-- The first record that is found for a key is that of a hit. -/
theorem mem_hits_of_firstHit {s : Stored} (h : image.firstHit key = .ok (some s)) :
    ∃ hit ∈ (image.hits key).items, hit.stored = s := by
  rw [firstHit_eq, Walk.get?] at h
  split at h
  · rename_i hit hitem
    exact ⟨hit, List.mem_of_getElem? hitem, by simpa [Except.map] using h⟩
  · split at h <;> simp [Except.map] at h

/-- The first record that is found for a key is sound. -/
theorem sound_of_firstHit {s : Stored} (h : image.firstHit key = .ok (some s)) :
    ∃ hit : Hit, hit.stored = s ∧ hit.Sound image key := by
  obtain ⟨hit, hmem, hstored⟩ := mem_hits_of_firstHit h
  exact ⟨hit, hstored, sound_of_mem_hits hmem⟩

/-- The number of entries up to a record is that of a sound hit. -/
theorem sound_of_probesTo {offset n : Nat} (h : image.probesTo key offset = .ok (some n)) :
    ∃ hit : Hit, hit.Sound image key ∧ hit.probes = n := by
  rw [probesTo_eq, Walk.firstSome] at h
  split at h
  · rename_i m hfind
    obtain ⟨hit, hmem, hhit⟩ := List.exists_of_findSome?_eq_some hfind
    cases h
    split at hhit
    · exact ⟨hit, sound_of_mem_hits hmem, Option.some.inj hhit⟩
    · cases hhit
  · split at h <;> simp at h

/-- The walk from an offset meets as many records as the region has room for, at most. -/
theorem length_scanFrom_le (image : Image) (pos : Nat) :
    (image.scanFrom pos).items.length ≤ image.recordEnd - pos := by
  fun_induction scanFrom image pos with
  | case1 => exact Nat.zero_le _
  | case2 => exact Nat.zero_le _
  | case3 pos s hrecord ih =>
    obtain ⟨hlt, hle⟩ := next_le_of_recordAt hrecord
    rw [Walk.items_cons, List.length_cons]
    omega

/-- All records that a scan meets lie inside the record region. -/
theorem next_le_of_mem_scanFrom {pos : Nat} {s : Stored} (h : s ∈ (image.scanFrom pos).items) :
    s.next ≤ image.recordEnd := by
  fun_induction scanFrom image pos with
  | case1 => simp [Walk.empty] at h
  | case2 => simp [Walk.failed] at h
  | case3 pos t hrecord ih =>
    rw [Walk.items_cons, List.mem_cons] at h
    rcases h with rfl | h
    · exact (next_le_of_recordAt hrecord).2
    · exact ih h

/-- What is wrong with a record that a scan meets is told with its place. -/
theorem error_of_recordAt {pos : Nat} {e : Error} (h : image.recordAt pos = some (.error e)) :
    ∃ problem, e = .format pos problem := by
  unfold recordAt at h
  split at h
  · simp at h
  · split at h
    · rename_i hannounced
      cases h
      exact Stored.error_of_announced hannounced
    · split at h
      · split at h
        · simp at h
        · cases h
          exact ⟨_, rfl⟩
      · exact Stored.error_of_read (Option.some.inj h)

/-- A scan is ended early by damage only. -/
theorem isFormat_of_scanFrom {pos : Nat} {e : Error} (h : (image.scanFrom pos).failure = some e) :
    e.IsFormat := by
  fun_induction scanFrom image pos with
  | case1 => simp [Walk.empty] at h
  | case2 pos e' hrecord =>
    obtain rfl : e' = e := Option.some.inj h
    exact ⟨pos, error_of_recordAt hrecord⟩
  | case3 pos s hrecord ih => exact ih h

end Image

end ConstDb
