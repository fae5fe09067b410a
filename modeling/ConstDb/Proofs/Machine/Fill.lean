import ConstDb.Machine.Fill
import ConstDb.Proofs.Draft.Assembly
import ConstDb.Proofs.Machine.Probe
import ConstDb.Proofs.SlotTable.Seats

/-! # The slot tables that the machine fills

The machine fills a buffer of bytes.  As long as the width can address all entries, the buffer is at
every moment that of a table of slots, so the search ends and what is written is the table of the
bucket.  What is known about the seats of its entries then holds of the bytes.

## Key results

- `Slot.vacantAt_of_hasAt`: the bytes of a slot tell whether it is vacant
- `Machine.seek_eq`, `Machine.place_eq`: one search, and one entry
- `Machine.fill_filled`: the table that is filled, from its first entry to its last
-/

namespace ConstDb

/-! ### The bytes of a table -/

namespace Slot

/-- Whether the width of a table can address the record of a slot. -/
def Fits (width : SlotWidth) (s : Slot) : Prop := width = .narrow → s.offset.toNat < 2 ^ 32

/-- The test for a vacant slot looks at the offset that is stored. -/
theorem vacantAt_eq (data : ByteArray) (pos : Nat) (width : SlotWidth) :
    vacantAt data pos width = (decode width data pos).isVacant := by
  cases width with
  | wide => rfl
  | narrow =>
    have hiff : (data.word32 (pos + 4)).toUInt64 = 0 ↔ data.word32 (pos + 4) = 0 := by
      rw [← UInt64.toNat_inj, ← UInt32.toNat_inj, UInt32.toNat_toUInt64]
      rfl
    simp only [vacantAt, isVacant, decode, hiff]

/-- The bytes of a slot tell whether it is vacant. -/
theorem vacantAt_of_hasAt {data : ByteArray} {pos : Nat} {width : SlotWidth} {s : Slot}
    (hfits : s.Fits width) (h : data.HasAt pos (s.encode width)) :
    vacantAt data pos width = s.isVacant := by
  have hread := read_of_hasAt h
  have hle := h.le
  rw [size_encode] at hle
  rw [read, if_pos hle, Except.ok.injEq] at hread
  rw [vacantAt_eq, hread, isVacant_kept hfits]

/-- Slots with the same bytes have the same offset. -/
theorem offset_eq_of_encode {width : SlotWidth} {s s' : Slot} (hfits : s.Fits width)
    (hfits' : s'.Fits width) (h : s.encode width = s'.encode width) : s.offset = s'.offset := by
  have hread := read_of_hasAt (.refl (s.encode width))
  have hread' := read_of_hasAt (.refl (s'.encode width))
  rw [h, hread', Except.ok.injEq] at hread
  rw [← offset_kept hfits, ← offset_kept hfits', hread]

/-- A vacant slot is made of zeros. -/
theorem encode_vacant (width : SlotWidth) :
    vacant.encode width = ByteArray.replicate width.bytes 0 := by
  cases width <;> decide

end Slot

namespace SlotTable

/-- A table in its bytes, slot by slot. -/
theorem hasAt_encode (t : SlotTable) (width : SlotWidth) {u : Nat} (hu : u < t.size) :
    (t.encode width).HasAt (u * width.bytes) (t[u].encode width) := by
  have hself := ByteArray.HasAt.refl (t.encode width)
  conv at hself => rhs; rw [encode_eq_join]
  have hsize : ∀ piece ∈ t.toList.map fun s => s.encode width, piece.size = width.bytes := by simp
  have hslot := hself.join_of_size hsize u (by simpa using hu)
  rwa [Nat.zero_add, List.getElem_map, Array.getElem_toList] at hslot

/-- Writing the bytes of a slot into those of a table gives the table with the slot. -/
theorem write_encode (t : SlotTable) (width : SlotWidth) (s : Slot) {u : Nat} (hu : u < t.size) :
    Slot.write (t.encode width) (u * width.bytes) width s =
      encode (t.setIfInBounds u s) width := by
  have hsize : ∀ piece ∈ t.toList.map fun s => s.encode width, piece.size = width.bytes := by simp
  rw [encode_eq_join, encode_eq_join, Slot.write,
    ByteArray.overwrite_join hsize (by simpa using hu) (Slot.size_encode width s),
    Array.toList_setIfInBounds, List.map_set]

/-- A table without entries is made of zeros. -/
theorem encode_vacant (slots : Nat) (width : SlotWidth) :
    (vacant slots).encode width = ByteArray.replicate (slots * width.bytes) 0 := by
  have hlist : (vacant slots).toList = List.replicate slots Slot.vacant := by simp [vacant]
  rw [encode_eq_join, hlist, List.map_replicate, Slot.encode_vacant, ByteArray.join_replicate]

end SlotTable

namespace Machine

open SlotTable (slotAfter tableAfter seat distance)

/-! ### One search -/

section

variable {t : SlotTable} {width : SlotWidth} (hfits : ∀ s ∈ t.toList, s.Fits width)
  (hsize : t.size < 2 ^ 32)

include hsize

/-- The machine cuts out the bytes of a slot. -/
theorem slotPiece_eq (width : SlotWidth) {u : Nat} (hu : u < t.size) :
    slotPiece (t.encode width) width (.ofNat u) = .ok (t[u].encode width) := by
  have hslot := t.hasAt_encode width hu
  have hle := hslot.le
  rw [Slot.size_encode] at hle
  have hwidth : width.bytes ≤ 16 := by cases width <;> decide
  have hbytes : (UInt64.ofNat width.bytes).toNat = width.bytes :=
    UInt64.toNat_ofNat_of_lt' (show width.bytes < 2 ^ 64 by omega)
  have hstart : u * width.bytes < 2 ^ 36 := by
    cases width <;> simp only [SlotWidth.bytes] <;> omega
  have hextract := hslot.extract
  rw [Slot.size_encode] at hextract
  rw [slotPiece, mul64_eq_ok (toNat_widened (by omega)) hbytes (by omega), ok_bind,
    add64_eq_ok (UInt64.toNat_ofNat_of_lt' (show u * width.bytes < 2 ^ 64 by omega)) hbytes
      (by omega), ok_bind,
    slice_eq_ok (UInt64.toNat_ofNat_of_lt' (show u * width.bytes < 2 ^ 64 by omega))
      (UInt64.toNat_ofNat_of_lt' (show u * width.bytes + width.bytes < 2 ^ 64 by omega))
      (by omega) hle, hextract]

omit hsize in
/-- The machine finds out whether a slot is vacant. -/
theorem isVacant_eq {s : Slot} (hfits : s.Fits width) :
    isVacant width (s.encode width) = .ok s.isVacant := by
  have hvacant := Slot.vacantAt_of_hasAt hfits (.refl (s.encode width))
  have hbytes := Slot.size_encode width s
  cases width with
  | narrow =>
    have hread : 4 + 4 ≤ (s.encode .narrow).size := by rw [hbytes]; decide
    rw [isVacant, read32, if_pos hread]
    exact congrArg Except.ok hvacant
  | wide =>
    have hread : 8 + 8 ≤ (s.encode .wide).size := by rw [hbytes]; decide
    rw [isVacant, read64, if_pos hread]
    exact congrArg Except.ok hvacant

include hfits

/-- The machine looks for a vacant slot where one is looked for. -/
theorem seek_eq (patience : Nat) {u : Nat} (hu : u < t.size) :
    seek (t.encode width) width (.ofNat t.size) patience (.ofNat u) =
      .ok ((t.vacantFrom? u patience).map .ofNat) := by
  -- Each turn looks at one slot; behind the last one the machine goes on at the first.
  induction patience generalizing u with
  | zero => rfl
  | succ patience ih =>
    have hmem : t[u] ∈ t.toList := Array.getElem_mem_toList ..
    rw [seek, slotPiece_eq hsize width hu, ok_bind, isVacant_eq (hfits _ hmem), ok_bind,
      SlotTable.vacantFrom?, Array.getElem?_eq_getElem hu, Option.any_some]
    by_cases hvacant : t[u].isVacant
    · rw [if_pos hvacant, if_pos hvacant]
      rfl
    · have hnext : (if UInt32.ofNat (u + 1) = .ofNat t.size then 0 else .ofNat (u + 1)) =
          UInt32.ofNat (t.after u) := by
        have hiff : UInt32.ofNat (u + 1) = .ofNat t.size ↔ u + 1 = t.size := by
          rw [← UInt32.toNat_inj, UInt32.toNat_ofNat_of_lt' (show u + 1 < 2 ^ 32 by omega),
            UInt32.toNat_ofNat_of_lt' hsize]
        rw [SlotTable.after]
        by_cases hlast : u + 1 = t.size
        · rw [if_pos (hiff.2 hlast), if_pos hlast]
          rfl
        · rw [if_neg fun h => hlast (hiff.1 h), if_neg hlast]
      have hone : (1 : UInt32).toNat = 1 := rfl
      have hafter : t.after u < t.size := by
        rw [SlotTable.after_mod hu]
        exact Nat.mod_lt _ (by omega)
      rw [if_neg hvacant, if_neg hvacant,
        add32_eq_ok (UInt32.toNat_ofNat_of_lt' (show u < 2 ^ 32 by omega)) hone (by omega), ok_bind,
        hnext, ih hafter]

/-- The machine places an entry where it is placed, if the search may look at one slot more than are
taken. -/
theorem place_eq (e : IndexEntry) (hroom : t.toList.countP Slot.isTaken < t.size) {patience : Nat}
    (hpatience : t.toList.countP Slot.isTaken < patience) :
    place width (.ofNat t.size) patience (t.encode width) e =
      .ok (some ((t.place e).encode width)) := by
  have hsizes : (UInt32.ofNat t.size).toNat = t.size := UInt32.toNat_ofNat_of_lt' hsize
  have hne : UInt32.ofNat t.size ≠ 0 := by
    intro h
    rw [← UInt32.toNat_inj, hsizes] at h
    change t.size = 0 at h
    omega
  have hstart := Hash.startSlot_lt e.hash (show 0 < t.size by omega)
  have hseat := SlotTable.slotAfter_lt e.hash (t.way e.hash) (show 0 < t.size by omega)
  rw [place, startSlot_eq e.hash hne, ok_bind, hsizes, seek_eq hfits hsize patience hstart,
    SlotTable.vacantFrom?_startSlot hroom hpatience]
  simp only [Option.map_some, ok_bind]
  rw [writeSlot, slotPiece_eq hsize width hseat, ok_bind,
    UInt32.toNat_ofNat_of_lt' (show slotAfter t.size e.hash (t.way e.hash) < 2 ^ 32 by omega),
    pure_eq_ok, ok_bind, t.write_encode width e.slot hseat, SlotTable.place_eq_set e hroom]
  rfl

end

/-! ### All entries of a bucket -/

/-- The bytes of a slot. -/
def slotBytes (table : ByteArray) (width : SlotWidth) (u : Nat) : ByteArray :=
  table.extract (u * width.bytes) (u * width.bytes + width.bytes)

/-- How a table comes about, entry by entry.  Each search ends, the slot at which it ends was made
of zeros before, and no other slot is changed. -/
structure Fills (width : SlotWidth) (entries : List IndexEntry) (tables : Nat → ByteArray)
    (distance : Fin entries.length → Nat) : Prop where
  start : tables 0 = ByteArray.replicate (2 * entries.length * width.bytes) 0
  step : ∀ i : Fin entries.length, ∀ patience, entries.length ≤ patience →
    place width (.ofNat (2 * entries.length)) patience (tables i) (entries.get i) =
      .ok (some (tables (i + 1)))
  free : ∀ i : Fin entries.length, slotBytes (tables i) width
      (slotAfter (2 * entries.length) (entries.get i).hash (distance i)) =
    ByteArray.replicate width.bytes 0
  kept : ∀ i : Fin entries.length, ∀ u < 2 * entries.length,
    u ≠ slotAfter (2 * entries.length) (entries.get i).hash (distance i) →
    slotBytes (tables (i + 1)) width u = slotBytes (tables i) width u

/-- A table that was filled by linear probing. -/
structure Filled (width : SlotWidth) (entries : List IndexEntry) (table : ByteArray)
    (distance : Fin entries.length → Nat) : Prop where
  size_eq : table.size = 2 * entries.length * width.bytes
  /-- Each entry is in one slot, at its distance from the start slot of its hash. -/
  entry_iff : ∀ i : Fin entries.length, ∀ u < 2 * entries.length,
    slotBytes table width u = (entries.get i).slot.encode width ↔
      u = slotAfter (2 * entries.length) (entries.get i).hash (distance i)
  /-- All other slots are made of zeros. -/
  blank : ∀ u < 2 * entries.length,
    (∀ i : Fin entries.length,
      u ≠ slotAfter (2 * entries.length) (entries.get i).hash (distance i)) →
    slotBytes table width u = ByteArray.replicate width.bytes 0
  /-- No slot between the start slot of an entry and its own is vacant. -/
  gapless : ∀ i : Fin entries.length, ∀ d ≤ distance i, Slot.vacantAt table
    (slotAfter (2 * entries.length) (entries.get i).hash d * width.bytes) width = false
  /-- Entries of one hash lie in the order in which they were placed. -/
  ordered : ∀ i j : Fin entries.length, i < j → (entries.get i).hash = (entries.get j).hash →
    distance i < distance j
  distance_lt : ∀ i, distance i < entries.length
  /-- At least half of the slots are vacant. -/
  half_vacant : 2 * entries.length ≤ 2 * (List.range (2 * entries.length)).countP fun u =>
    Slot.vacantAt table (u * width.bytes) width
  /-- So a search for any hash passes no more than all entries before it comes to a vacant slot. -/
  ends : 0 < entries.length → ∀ hash, ∃ d ≤ entries.length,
    Slot.vacantAt table (slotAfter (2 * entries.length) hash d * width.bytes) width = true ∧
      ∀ k < d, Slot.vacantAt table (slotAfter (2 * entries.length) hash k * width.bytes) width =
        false

section

variable {t : SlotTable} {width : SlotWidth}

theorem slotBytes_encode {u : Nat} {s : Slot} (h : t[u]? = some s) :
    slotBytes (t.encode width) width u = s.encode width := by
  obtain ⟨hu, rfl⟩ := Array.getElem?_eq_some_iff.1 h
  have hextract := (t.hasAt_encode width hu).extract
  rwa [Slot.size_encode] at hextract

theorem vacantAt_encode {u : Nat} {s : Slot} (hfits : s.Fits width) (h : t[u]? = some s) :
    Slot.vacantAt (t.encode width) (u * width.bytes) width = s.isVacant := by
  obtain ⟨hu, rfl⟩ := Array.getElem?_eq_some_iff.1 h
  exact Slot.vacantAt_of_hasAt hfits (t.hasAt_encode width hu)

/-- The vacant slots of a table can be counted in its bytes. -/
theorem countP_vacantAt (hfits : ∀ s ∈ t.toList, s.Fits width) :
    ((List.range t.size).countP fun u => Slot.vacantAt (t.encode width) (u * width.bytes) width) =
      t.toList.countP Slot.isVacant := by
  have hlist : t.toList = (List.range t.size).map fun u => (t[u]?).getD Slot.vacant := by
    apply List.ext_getElem
    · simp
    · intro u h₁ h₂
      have hu : u < t.size := by simpa using h₁
      simp [hu]
  conv_rhs => rw [hlist]
  rw [List.countP_map]
  apply List.countP_congr
  intro u hu
  have hlt := List.mem_range.1 hu
  have hslot : t[u]? = some t[u] := Array.getElem?_eq_getElem hlt
  rw [vacantAt_encode (hfits _ (Array.getElem_mem_toList hlt)) hslot, Function.comp_apply, hslot,
    Option.getD_some]

end

section

variable {width : SlotWidth} {entries : List IndexEntry}
  (hoffset : ∀ e ∈ entries, e.offset ≠ 0) (hfits : ∀ e ∈ entries, e.slot.Fits width)

include hoffset hfits

/-- The width can address all slots of a table at any time. -/
theorem fits_tableAfter {k : Nat} (hk : k ≤ entries.length) :
    ∀ s ∈ (tableAfter entries k).toList, s.Fits width := by
  intro s hs
  obtain rfl | ⟨e, he, rfl⟩ := (SlotTable.tableAfter_holds hoffset hk).eq_vacant_or_mem hs
  · exact fun _ => by decide
  · exact hfits e (List.mem_of_mem_take he)

theorem fits_of_getElem? {k : Nat} (hk : k ≤ entries.length) {u : Nat} {s : Slot}
    (hs : (tableAfter entries k)[u]? = some s) : s.Fits width := by
  obtain ⟨hu, rfl⟩ := Array.getElem?_eq_some_iff.1 hs
  exact fits_tableAfter hoffset hfits hk _ (Array.getElem_mem_toList hu)

variable (hcount : 2 * entries.length < 2 ^ 32)

include hcount

/-- The machine places the entries of a bucket one after the other. -/
theorem place_tableAfter (i : Fin entries.length) {patience : Nat}
    (hpatience : entries.length ≤ patience) :
    place width (.ofNat (2 * entries.length)) patience ((tableAfter entries i).encode width)
      (entries.get i) = .ok (some ((tableAfter entries (i + 1)).encode width)) := by
  have hi := i.isLt
  have htaken := SlotTable.countP_tableAfter hoffset (show i.val ≤ entries.length by omega)
  have hplace := place_eq (fits_tableAfter hoffset hfits (show i.val ≤ entries.length by omega))
    (by rwa [SlotTable.size_tableAfter]) (entries.get i) (SlotTable.countP_lt_size hoffset i)
    (show _ < patience by omega)
  rwa [SlotTable.size_tableAfter, ← SlotTable.tableAfter_succ_eq_place] at hplace

theorem placeAll_tableAfter {k : Nat} (hk : k ≤ entries.length) {patience : Nat}
    (hpatience : entries.length ≤ patience) :
    placeAll width (.ofNat (2 * entries.length)) patience ((tableAfter entries k).encode width)
      (entries.drop k) = .ok (some ((tableAfter entries entries.length).encode width)) := by
  -- The induction is on the number of entries that are still to be placed.
  induction hn : entries.length - k generalizing k with
  | zero =>
    obtain rfl : k = entries.length := by omega
    rw [List.drop_length, placeAll]
  | succ n ih =>
    have hlt : k < entries.length := by omega
    have hplace : place width (.ofNat (2 * entries.length)) patience
        ((tableAfter entries k).encode width) entries[k] =
          .ok (some ((tableAfter entries (k + 1)).encode width)) :=
      place_tableAfter hoffset hfits hcount ⟨k, hlt⟩ hpatience
    rw [List.drop_eq_getElem_cons hlt, placeAll, hplace, ok_bind]
    exact ih (by omega) (by omega)

/-- The machine fills the table of a bucket. -/
theorem fill_eq {patience : Nat} (hpatience : entries.length ≤ patience) :
    fill width patience entries =
      .ok (some ((tableAfter entries entries.length).encode width)) := by
  have hlength : (UInt32.ofNat entries.length).toNat = entries.length :=
    UInt32.toNat_ofNat_of_lt' (show entries.length < 2 ^ 32 by omega)
  have htwo : (2 : UInt32).toNat = 2 := rfl
  have hslots : (UInt32.ofNat (2 * entries.length)).toNat = 2 * entries.length :=
    UInt32.toNat_ofNat_of_lt' hcount
  rw [fill, mul32_eq_ok hlength htwo (by omega), ok_bind, Nat.mul_comm entries.length 2, hslots,
    ← SlotTable.encode_vacant]
  exact placeAll_tableAfter hoffset hfits hcount (Nat.zero_le _) hpatience

theorem fills_tableAfter : Fills width entries (fun k => (tableAfter entries k).encode width)
    (distance entries) where
  start := SlotTable.encode_vacant _ width
  step i _ hpatience := place_tableAfter hoffset hfits hcount i hpatience
  free i := by
    rw [← Slot.encode_vacant]
    exact slotBytes_encode (SlotTable.blank_seat hoffset i)
  kept i u hu hne := by
    have hsame := SlotTable.getElem?_tableAfter_ne hoffset i hne
    obtain ⟨s, hslot⟩ := SlotTable.exists_getElem?_tableAfter entries i hu
    rw [slotBytes_encode hslot, slotBytes_encode (hsame.trans hslot)]

omit hcount

/-- The bytes of the finished table tell which of its slots are vacant. -/
theorem vacantAt_tableAfter {u : Nat} {s : Slot}
    (hs : (tableAfter entries entries.length)[u]? = some s) :
    Slot.vacantAt ((tableAfter entries entries.length).encode width) (u * width.bytes) width =
      s.isVacant :=
  vacantAt_encode (fits_of_getElem? hoffset hfits (Nat.le_refl _) hs) hs

/-- The bytes of an entry are in its seat and nowhere else, for no other entry has its offset. -/
theorem slotBytes_eq_entry_iff (hdistinct : (entries.map IndexEntry.offset).Nodup)
    (i : Fin entries.length) {u : Nat} (hu : u < 2 * entries.length) :
    slotBytes ((tableAfter entries entries.length).encode width) width u =
      (entries.get i).slot.encode width ↔ u = seat entries i := by
  constructor
  · intro h
    obtain ⟨s, hs⟩ := SlotTable.exists_getElem?_tableAfter entries entries.length hu
    rw [slotBytes_encode hs] at h
    have hsame : s.offset = (entries.get i).offset :=
      Slot.offset_eq_of_encode (fits_of_getElem? hoffset hfits (Nat.le_refl _) hs)
        (hfits _ (List.getElem_mem i.isLt)) h
    have htaken : s.isTaken := by
      have hne := hoffset _ (List.getElem_mem i.isLt)
      simpa [Slot.isTaken, Slot.isVacant, hsame] using hne
    obtain ⟨j, -, rfl⟩ := SlotTable.exists_seat hoffset (Nat.le_refl _) hs htaken
    have hseat := SlotTable.getElem?_seat hoffset j j.isLt (Nat.le_refl _)
    rw [Option.some.inj (hs.symm.trans hseat)] at hsame
    have hentry : entries.get j = entries.get i := List.inj_on_of_nodup_map hdistinct
      (List.getElem_mem j.isLt) (List.getElem_mem i.isLt) hsame
    rw [Fin.ext ((hdistinct.of_map _).getElem_inj_iff.1 hentry)]
  · rintro rfl
    exact slotBytes_encode (SlotTable.getElem?_seat hoffset i i.isLt (Nat.le_refl _))

omit hfits in
/-- A slot that is no seat is made of zeros. -/
theorem slotBytes_eq_blank {u : Nat} (hu : u < 2 * entries.length)
    (hnone : ∀ i : Fin entries.length, u ≠ seat entries i) :
    slotBytes ((tableAfter entries entries.length).encode width) width u =
      ByteArray.replicate width.bytes 0 := by
  obtain ⟨s, hs⟩ := SlotTable.exists_getElem?_tableAfter entries entries.length hu
  have hfree : s.isVacant := by
    by_contra hnot
    have htaken : s.isTaken := by simpa [Slot.isTaken] using hnot
    obtain ⟨i, -, hi⟩ := SlotTable.exists_seat hoffset (Nat.le_refl _) hs htaken
    exact hnone i hi
  rw [slotBytes_encode hs, SlotTable.blank_tableAfter hoffset (Nat.le_refl _) hs hfree,
    Slot.encode_vacant]

/-- A search in the finished table ends at the first vacant slot on the way of its hash, and there
are no more taken slots on this way than entries. -/
theorem exists_vacantAt (hpos : 0 < entries.length) (hash : UInt32) :
    ∃ d ≤ entries.length,
      Slot.vacantAt ((tableAfter entries entries.length).encode width)
        (slotAfter (2 * entries.length) hash d * width.bytes) width = true ∧
      ∀ k < d, Slot.vacantAt ((tableAfter entries entries.length).encode width)
        (slotAfter (2 * entries.length) hash k * width.bytes) width = false := by
  have hsize := SlotTable.size_tableAfter entries entries.length
  have htaken := SlotTable.countP_tableAfter hoffset (Nat.le_refl entries.length)
  have hroom : (tableAfter entries entries.length).toList.countP Slot.isTaken <
      (tableAfter entries entries.length).size := by omega
  refine ⟨(tableAfter entries entries.length).way hash, ?_, ?_, fun k hk => ?_⟩
  · exact Nat.le_trans SlotTable.way_le_countP (Nat.le_of_eq htaken)
  · obtain ⟨s, hs, hfree⟩ := @SlotTable.vacant_way _ hash hroom
    rw [hsize] at hs
    rw [vacantAt_tableAfter hoffset hfits hs, hfree]
  · obtain ⟨s, hs, hoccupied⟩ := SlotTable.taken_of_lt_way hk
    rw [hsize] at hs
    rw [vacantAt_tableAfter hoffset hfits hs]
    simpa [Slot.isTaken] using hoccupied

theorem filled_tableAfter (hdistinct : (entries.map IndexEntry.offset).Nodup) :
    Filled width entries ((tableAfter entries entries.length).encode width)
      (distance entries) where
  size_eq := by rw [SlotTable.size_encode, SlotTable.size_tableAfter]
  entry_iff i _ hu := slotBytes_eq_entry_iff hoffset hfits hdistinct i hu
  blank _ hu hnone := slotBytes_eq_blank hoffset hu hnone
  gapless i d hd := by
    obtain ⟨s, hs, htaken⟩ := SlotTable.taken_of_le_distance hoffset i i.isLt (Nat.le_refl _) hd
    rw [vacantAt_tableAfter hoffset hfits hs]
    simpa [Slot.isTaken] using htaken
  ordered _ _ := SlotTable.distance_lt_distance hoffset
  distance_lt i := Nat.lt_of_le_of_lt (SlotTable.distance_le hoffset i) i.isLt
  half_vacant := by
    have htaken := SlotTable.countP_tableAfter hoffset (Nat.le_refl entries.length)
    have hcounted := countP_vacantAt (fits_tableAfter hoffset hfits (Nat.le_refl entries.length))
    have hboth := SlotTable.countP_isVacant_add (tableAfter entries entries.length)
    rw [SlotTable.size_tableAfter] at hcounted hboth
    omega
  ends := exists_vacantAt hoffset hfits

end

/-- What the machine makes of the entries of a bucket, whatever their hashes are, as long as they
have offsets of their own that the width can address.  Every search ends, and only zeros are written
over.  The table is that of the bucket: each entry is in one slot and all other slots are made of
zeros, there is no vacant slot on the way to an entry, entries of one hash follow each other along
their way, no way is as long as there are entries, and half of the slots stay vacant, so that a
search for an absent hash ends as soon. -/
theorem fill_filled {width : SlotWidth} {entries : List IndexEntry}
    (hcount : entries.length ≤ Layout.maxRecords) (hoffset : ∀ e ∈ entries, e.offset ≠ 0)
    (hfits : ∀ e ∈ entries, width = .narrow → e.offset.toNat < 2 ^ 32)
    (hdistinct : (entries.map IndexEntry.offset).Nodup) :
    ∃ tables distance, Fills width entries tables distance ∧
      (∀ patience, entries.length ≤ patience →
        fill width patience entries = .ok (some (tables entries.length))) ∧
      tables entries.length = (SlotTable.ofEntries entries).encode width ∧
      Filled width entries (tables entries.length) distance := by
  simp only [Layout.maxRecords] at hcount
  have hslots : 2 * entries.length < 2 ^ 32 := by omega
  refine ⟨_, _, fills_tableAfter hoffset hfits hslots,
    fun patience hpatience => fill_eq hoffset hfits hslots hpatience, ?_,
    filled_tableAfter hoffset hfits hdistinct⟩
  show (tableAfter entries entries.length).encode width = _
  rw [SlotTable.tableAfter_length]

/-- Two entries of one hash, whose way starts at the last slot. -/
def lastSlotEntries : List IndexEntry := [⟨0x300, 1, 4096⟩, ⟨0x300, 1, 4107⟩]

/-- The later one is in the first slot. -/
theorem fill_filled_around :
    ∃ table, fill .narrow 2 lastSlotEntries = .ok (some table) ∧
      slotBytes table .narrow 3 = (IndexEntry.slot ⟨0x300, 1, 4096⟩).encode .narrow ∧
      slotBytes table .narrow 0 = (IndexEntry.slot ⟨0x300, 1, 4107⟩).encode .narrow := by
  obtain ⟨tables, distance, -, hfill, -, hfilled⟩ :=
    @fill_filled .narrow lastSlotEntries (by decide) (by decide) (by decide) (by decide)
  have hordered := hfilled.ordered ⟨0, by decide⟩ ⟨1, by decide⟩ (by decide) rfl
  have hlt : distance ⟨1, by decide⟩ < 2 := hfilled.distance_lt _
  have hfirst : distance ⟨0, by decide⟩ = 0 := by omega
  have hsecond : distance ⟨1, by decide⟩ = 1 := by omega
  refine ⟨_, hfill 2 (by decide), ?_, ?_⟩
  · apply (hfilled.entry_iff ⟨0, by decide⟩ 3 (by decide)).2
    rw [hfirst]
    show 3 = slotAfter 4 0x300 0
    decide
  · apply (hfilled.entry_iff ⟨1, by decide⟩ 0 (by decide)).2
    rw [hsecond]
    show 0 = slotAfter 4 0x300 1
    decide

end Machine

end ConstDb
