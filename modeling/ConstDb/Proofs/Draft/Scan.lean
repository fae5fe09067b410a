import ConstDb.Image.Scan
import ConstDb.Proofs.Draft.Index

/-! # The scan of a draft

A scan of the file of a draft meets the records in the order in which they were added and ends
behind the last one.  What follows there is padding: too short for two lengths, or a first length of
all ones, which no record has.

## Key results

- `Draft.scanFrom_of_hasAt`, `Draft.records_of_hasAt`: a scan of records with padding behind them
- `Draft.Storable.scan_image`, `Draft.Storable.records_image`: the scan of a draft's file
-/

namespace ConstDb

/-- The first length in a piece of padding that has room for it is all ones. -/
private theorem word32_padding {n : Nat} (h : 4 ≤ n) :
    (ByteArray.replicate n Layout.paddingByte).word32 0 = 0xffffffff := by
  have hbyte (i : Nat) (hi : i < n) :
      (ByteArray.replicate n Layout.paddingByte).byteAt i = 0xff := by
    rw [ByteArray.byteAt_of_lt (by simpa using hi)]
    exact Array.getElem_replicate ..
  simp only [ByteArray.word32, Nat.zero_add]
  rw [hbyte 0 (by omega), hbyte 1 (by omega), hbyte 2 (by omega), hbyte 3 (by omega)]
  decide

namespace Image

/-- A scan goes on behind the record that it found. -/
theorem scanFrom_eq_match (image : Image) (pos : Nat) :
    image.scanFrom pos =
      match image.recordAt pos with
      | none => .empty
      | some (.error e) => .failed e
      | some (.ok s) => .cons s (image.scanFrom s.next) := by
  rw [scanFrom]
  split <;> rename_i h <;> simp only [h]

/-- A scan finds a record where one was written. -/
theorem recordAt_of_hasAt {image : Image} {pos : Nat} {r : Record} (hfits : Draft.Fits r)
    (hat : image.bytes.HasAt pos r.encode) (hend : pos + r.encode.size ≤ image.recordEnd) :
    image.recordAt pos = some (.ok (r.storedAt pos)) := by
  obtain ⟨hkey, hvalue⟩ := hfits.sizes_lt
  have hsize : Record.prologueSize ≤ r.encode.size := by
    rw [Record.size_encode, Record.encodedSize]
    omega
  have hstop : (r.storedAt pos).next ≤ image.recordEnd := by rwa [Record.next_storedAt]
  have hannounced := Stored.announced_of_hasAt hat hkey hvalue hstop
  have hread := Stored.read_of_hasAt hat hkey hvalue hstop
  -- The length of a key that fits is not the mark of padding.
  have hmark : (r.storedAt pos).keySize ≠ 0xffffffff := by
    have hle := hfits.key_le
    simp only [Layout.maxFieldSize] at hle
    simp only [Record.storedAt]
    omega
  rw [recordAt, if_neg (by omega), hannounced]
  simp only
  rw [if_neg hmark, hread]

/-- A scan ends at padding of less than 16 bytes. -/
theorem recordAt_of_padding {image : Image} {pos n : Nat} (hn : n < Layout.alignment)
    (hat : image.bytes.HasAt pos (ByteArray.replicate n Layout.paddingByte))
    (hend : pos + n = image.recordEnd) : image.recordAt pos = none := by
  have hsize := image.recordEnd_le_size
  rw [recordAt]
  by_cases hshort : image.recordEnd < pos + Record.prologueSize
  · rw [if_pos hshort]
  · have hprologue : Record.prologueSize = 8 := rfl
    have hword : image.bytes.word32 pos = 0xffffffff := by
      rw [hat.word32 (by rw [ByteArray.size_replicate]; omega), word32_padding (by omega)]
    have hannounced : Stored.announced image.bytes pos image.recordEnd =
        .ok ⟨pos, 0xffffffff, (image.bytes.word32 (pos + 4)).toNat⟩ := by
      rw [Stored.announced_eq_ok, hword]
      exact ⟨by omega, rfl⟩
    rw [if_neg hshort, hannounced]
    simp only [if_true]
    rw [if_pos (by omega)]

end Image

namespace Draft

/-- A scan of records with padding behind them meets the records, one behind the other. -/
theorem scanFrom_of_hasAt {image : Image} {pos n : Nat} {rs : List Record}
    (hfits : ∀ r ∈ rs, Fits r)
    (hrecords : image.bytes.HasAt pos (ByteArray.join (rs.map Record.encode)))
    (hpadding : image.bytes.HasAt (pos + Placed.size rs)
      (ByteArray.replicate n Layout.paddingByte))
    (hn : n < Layout.alignment) (hend : pos + Placed.size rs + n = image.recordEnd) :
    image.scanFrom pos = ⟨(Placed.list pos rs).map Placed.stored, none⟩ := by
  induction rs generalizing pos with
  | nil =>
    rw [Placed.size_nil, Nat.add_zero] at hpadding hend
    rw [Image.scanFrom_eq_match, Image.recordAt_of_padding hn hpadding hend]
    rfl
  | cons r rest ih =>
    rw [Placed.size_cons, ← Nat.add_assoc] at hpadding hend
    obtain ⟨hfirst, hrest⟩ := hrecords.append
    have hnext := r.next_storedAt pos
    have htail := ih (fun s hs => hfits s (List.mem_cons_of_mem _ hs)) hrest hpadding hend
    rw [Image.scanFrom_eq_match,
      Image.recordAt_of_hasAt (hfits r List.mem_cons_self) hfirst (by omega)]
    simp only [hnext]
    rw [htail]
    rfl

/-- A scan of a record region that has records with padding behind them gives these records. -/
theorem records_of_hasAt {image : Image} {n : Nat} {rs : List Record} (hfits : ∀ r ∈ rs, Fits r)
    (hrecords : image.bytes.HasAt Layout.headerSize (ByteArray.join (rs.map Record.encode)))
    (hpadding : image.bytes.HasAt (Layout.headerSize + Placed.size rs)
      (ByteArray.replicate n Layout.paddingByte))
    (hn : n < Layout.alignment)
    (hend : Layout.headerSize + Placed.size rs + n = image.recordEnd) :
    image.records = ⟨rs, none⟩ := by
  have hrecord : ∀ p ∈ placed rs, p.stored.record image.bytes = p.record := fun p hp =>
    Stored.record_of_hasAt (Placed.hasAt_of_mem hrecords hp)
  rw [Image.records, Image.scan, scanFrom_of_hasAt hfits hrecords hpadding hn hend, Walk.map,
    List.map_map]
  congr 1
  calc (placed rs).map _
      = (placed rs).map Placed.record := List.map_congr_left hrecord
    _ = rs := Placed.map_record_list ..

namespace Storable

variable {rs : List Record} {image : Image}

/-- In a draft's file the records and the padding take up the record region. -/
private theorem hasAt_region (h : Storable rs) (hbytes : image.bytes = (ofRecords rs).image) :
    image.bytes.HasAt Layout.headerSize (ByteArray.join (rs.map Record.encode)) ∧
      image.bytes.HasAt (Layout.headerSize + Placed.size rs)
        (ByteArray.replicate (Layout.paddingFor (ofRecords rs).position) Layout.paddingByte) ∧
      Layout.headerSize + Placed.size rs + Layout.paddingFor (ofRecords rs).position =
        image.recordEnd := by
  obtain ⟨hbody, hpadding⟩ := (ofRecords rs).image_hasAt_region
  have hend := h.addressable.recordEnd_eq hbytes
  rw [body_ofRecords, ← hbytes] at hbody
  rw [← hbytes] at hpadding
  rw [recordEnd] at hend
  rw [← position_ofRecords]
  exact ⟨hbody, hpadding, hend.symm⟩

/-- A scan of a draft's file meets all records at their offsets. -/
theorem scan_image (h : Storable rs) (hbytes : image.bytes = (ofRecords rs).image) :
    image.scan = ⟨(placed rs).map Placed.stored, none⟩ := by
  obtain ⟨hrecords, hpadding, hend⟩ := h.hasAt_region hbytes
  exact scanFrom_of_hasAt h.fits hrecords hpadding (Layout.paddingFor_lt _) hend

/-- A scan of a draft's file meets the records in the order in which they were added. -/
theorem records_image (h : Storable rs) (hbytes : image.bytes = (ofRecords rs).image) :
    image.records = ⟨rs, none⟩ := by
  obtain ⟨hrecords, hpadding, hend⟩ := h.hasAt_region hbytes
  exact records_of_hasAt h.fits hrecords hpadding (Layout.paddingFor_lt _) hend

theorem pairs_image (h : Storable rs) (hbytes : image.bytes = (ofRecords rs).image) :
    image.pairs = .ok rs := by
  rw [Image.pairs, h.records_image hbytes, Walk.toExcept]

end Storable

end Draft

end ConstDb
