import ConstDb.Machine.Format
import ConstDb.Proofs.Layout.Codec
import ConstDb.Proofs.Layout.Tables

/-! # The machine reads what the format says

Reading headers, slots and records with machine words never traps, whatever the file holds, and
gives what the definitions of the format give.

## Key results

- `Machine.parse_eq`: headers
- `Machine.readSlot_eq`: slots
- `Machine.readLengths_eq`, `Machine.readEntry_eq`: records
-/

namespace ConstDb.Machine

/-- A file that the address space has room for: no byte string in memory has `2 ^ 63` bytes. -/
def Addressable (data : ByteArray) : Prop := data.size < 2 ^ 63

theorem toNat_fileSize {data : ByteArray} (h : Addressable data) :
    (fileSize data).toNat = data.size :=
  UInt64.toNat_ofNat_of_lt' (Nat.lt_trans h (by decide))

theorem bytes_eq_two_pow (width : SlotWidth) : width.bytes = 2 ^ width.shift := by
  cases width <;> rfl

theorem toNat_shift (width : SlotWidth) : (shift width).toNat = width.shift := by
  cases width <;> rfl

theorem shift_lt (width : SlotWidth) : width.shift < 64 := by
  cases width <;> decide

/-! ### Records -/

/-- A stretch is given just when it ends inside. -/
theorem stretch?_eq (data : ByteArray) (offset len stop : UInt64) :
    stretch? data offset len stop =
      if offset.toNat + len.toNat ≤ min stop.toNat data.size then
        some (data.extract offset.toNat (offset.toNat + len.toNat))
      else none := by
  have hstop := stop.toNat_lt
  rw [stretch?, checkedAdd64_eq]
  by_cases hsum : offset.toNat + len.toNat < 2 ^ 64
  · have hlast : (UInt64.ofNat (offset.toNat + len.toNat)).toNat = offset.toNat + len.toNat :=
      UInt64.toNat_ofNat_of_lt' hsum
    rw [if_pos hsum, Option.bind_some, hlast, slice?, hlast]
    by_cases hin : offset.toNat + len.toNat ≤ min stop.toNat data.size
    · rw [if_neg (by omega), if_pos (by omega), if_pos hin]
    · rw [if_neg hin]
      by_cases hstop' : stop.toNat < offset.toNat + len.toNat
      · rw [if_pos hstop']
      · rw [if_neg hstop', if_neg (by omega)]
  · rw [if_neg hsum, if_neg (by omega)]
    rfl

/-- The machine reads the two lengths that a prologue announces. -/
theorem readLengths_eq (data : ByteArray) (offset stop : UInt64) :
    readLengths data offset stop =
      .ok ((Stored.announced data offset.toNat stop.toNat).map fun s =>
        (.ofNat s.keySize, .ofNat s.valueSize)) := by
  have hlen : (8 : UInt64).toNat = 8 := rfl
  rw [readLengths, stretch?_eq, hlen, Stored.announced]
  by_cases h : offset.toNat + 8 ≤ min stop.toNat data.size
  · have hin : offset.toNat + 8 ≤ data.size := by omega
    rw [if_pos h, if_pos (show offset.toNat + Record.prologueSize ≤ _ from h)]
    simp only
    rw [read32_extract hin (by omega), read32_extract hin (by omega)]
    simp [Except.map]
  · rw [if_neg h, if_neg (show ¬ offset.toNat + Record.prologueSize ≤ _ from h)]
    rfl

/-- The record that lies at a place. -/
def Entry.of (data : ByteArray) (s : Stored) : Entry :=
  ⟨.ofNat s.offset, s.key data, s.value data⟩

/-- The machine reads the record that is stored at an offset. -/
theorem readEntry_eq (data : ByteArray) (offset stop : UInt64) :
    readEntry data offset stop =
      .ok ((Stored.read data offset.toNat stop.toNat).map (Entry.of data)) := by
  have hstop := stop.toNat_lt
  rw [readEntry, readLengths_eq, Stored.read]
  cases h : Stored.announced data offset.toNat stop.toNat with
  | error e => rfl
  | ok s =>
    obtain ⟨hle, hs⟩ := Stored.announced_eq_ok.1 h
    simp only [Record.prologueSize] at hle
    obtain ⟨hkey, hvalue⟩ := Stored.sizes_lt_of_announced h
    have hoffset : s.offset = offset.toNat := by rw [hs]
    have hkeyword := toNat_widened hkey
    have hvalueword := toNat_widened hvalue
    have hkeynumber : (UInt32.ofNat s.keySize).toNat = s.keySize := UInt32.toNat_ofNat_of_lt' hkey
    have hvaluenumber : (UInt32.ofNat s.valueSize).toNat = s.valueSize :=
      UInt32.toNat_ofNat_of_lt' hvalue
    have height : (8 : UInt64).toNat = 8 := rfl
    have hstart : s.keyStart = offset.toNat + 8 := by
      rw [Stored.keyStart, hoffset]
      rfl
    -- The prologue lies before the end of the region, so the start of the key fits into a word.
    have hstartword : (UInt64.ofNat (offset.toNat + 8)).toNat = s.keyStart := by
      rw [hstart]
      exact UInt64.toNat_ofNat_of_lt' (show offset.toNat + 8 < 2 ^ 64 by omega)
    simp only [Except.map, ok_bind, pure_eq_ok]
    rw [add64_eq_ok rfl height (by omega), ok_bind, stretch?_eq, hstartword, hkeyword]
    -- The key is looked at before the value, and the first that does not fit names the error.
    by_cases hkeyin : s.keyStart + s.keySize ≤ min stop.toNat data.size
    · have hvalueword' : (UInt64.ofNat (s.keyStart + s.keySize)).toNat = s.valueStart :=
        UInt64.toNat_ofNat_of_lt' (show s.keyStart + s.keySize < 2 ^ 64 by omega)
      have hkeyok : ¬ min stop.toNat data.size < s.valueStart := by
        simp only [Stored.valueStart]
        omega
      rw [if_pos hkeyin]
      simp only
      rw [add64_eq_ok hstartword hkeyword (by omega), ok_bind, stretch?_eq,
        hvalueword', hvalueword, Stored.check, if_neg hkeyok]
      by_cases hvaluein : s.valueStart + s.valueSize ≤ min stop.toNat data.size
      · have hvalueok : ¬ min stop.toNat data.size < s.next := by
          simp only [Stored.next]
          omega
        have hoffsetword : UInt64.ofNat s.offset = offset := by
          rw [hoffset, UInt64.ofNat_toNat]
        rw [if_pos hvaluein, if_neg hvalueok]
        simp only [Entry.of, hoffsetword]
        rfl
      · have hvaluebad : min stop.toNat data.size < s.next := by
          simp only [Stored.next]
          omega
        rw [if_neg hvaluein, if_pos hvaluebad, hoffset, hvaluenumber]
    · have hkeybad : min stop.toNat data.size < s.valueStart := by
        simp only [Stored.valueStart]
        omega
      rw [if_neg hkeyin, Stored.check, if_pos hkeybad, hoffset, hkeynumber]

/-- The offset behind a record that ends before the end of the address range. -/
theorem Entry.next_eq {offset : UInt64} {key value : ByteArray}
    (h : offset.toNat + Record.encodedSize key.size value.size < 2 ^ 64) :
    Entry.next ⟨offset, key, value⟩ =
      .ok (.ofNat (offset.toNat + Record.encodedSize key.size value.size)) := by
  simp only [Record.encodedSize, Record.prologueSize] at h ⊢
  have height : (8 : UInt64).toNat = 8 := rfl
  have hword {n : Nat} (hn : n < 2 ^ 64) : (UInt64.ofNat n).toNat = n :=
    UInt64.toNat_ofNat_of_lt' hn
  simp only [next]
  rw [add64_eq_ok rfl height (by omega), ok_bind,
    add64_eq_ok (hword (show offset.toNat + 8 < 2 ^ 64 by omega))
      (hword (show key.size < 2 ^ 64 by omega)) (by omega), ok_bind,
    add64_eq_ok (hword (show offset.toNat + 8 + key.size < 2 ^ 64 by omega))
      (hword (show value.size < 2 ^ 64 by omega)) (by omega)]
  congr 2
  omega

/-- The machine goes on behind a record inside the file. -/
theorem Entry.next_of {data : ByteArray} {s : Stored} (h : Addressable data)
    (hs : s.next ≤ data.size) : (Entry.of data s).next = .ok (.ofNat s.next) := by
  have hkey := Stored.size_key hs
  have hvalue := Stored.size_value hs
  have hle := s.offset_add_le_next
  have hnext := s.next_eq
  simp only [Addressable] at h
  have hoffset : (UInt64.ofNat s.offset).toNat = s.offset :=
    UInt64.toNat_ofNat_of_lt' (show s.offset < 2 ^ 64 by omega)
  rw [Entry.of, Entry.next_eq (by rw [hoffset, hkey, hvalue]; omega), hoffset, hkey, hvalue,
    ← hnext]

/-! ### Slots -/

/-- The machine reads the slot at a position. -/
theorem readSlot_eq {data : ByteArray} (h : Addressable data) (pos : UInt64) (width : SlotWidth) :
    readSlot data pos width = .ok (Slot.read data pos.toNat width) := by
  simp only [Addressable] at h
  have hwidth : (UInt64.ofNat width.bytes).toNat = width.bytes := by cases width <;> rfl
  -- A slot whose end does not fit into a word is outside the file like any that ends behind it.
  rw [readSlot, checkedAdd64_eq, hwidth, Slot.read]
  by_cases hin : pos.toNat + width.bytes ≤ data.size
  · have hlast : (UInt64.ofNat (pos.toNat + width.bytes)).toNat = pos.toNat + width.bytes :=
      UInt64.toNat_ofNat_of_lt' (show pos.toNat + width.bytes < 2 ^ 64 by omega)
    rw [if_pos (by omega), Option.bind_some, slice?, hlast, if_pos ⟨by omega, hin⟩, if_pos hin]
    cases width with
    | narrow =>
      simp only [SlotWidth.bytes] at hin ⊢
      rw [read32_extract hin (by omega), read32_extract hin (by omega)]
      rfl
    | wide =>
      simp only [SlotWidth.bytes] at hin ⊢
      rw [read32_extract hin (by omega), read32_extract hin (by omega),
        read64_extract hin (by omega)]
      rfl
  · rw [if_neg hin]
    by_cases hsum : pos.toNat + width.bytes < 2 ^ 64
    · have hlast : (UInt64.ofNat (pos.toNat + width.bytes)).toNat = pos.toNat + width.bytes :=
        UInt64.toNat_ofNat_of_lt' hsum
      rw [if_pos hsum, Option.bind_some, slice?, hlast, if_neg (by omega)]
    · rw [if_neg hsum]
      rfl

/-! ### Headers -/

/-- The machine reads the descriptor of each bucket of a file that has room for a header. -/
theorem readBucket_eq {data : ByteArray} (hsize : Layout.headerSize ≤ data.size) {i : Nat}
    (hi : i < Layout.bucketCount) : readBucket data (.ofNat i) = .ok (Bucket.read data i) := by
  simp only [Layout.headerSize, Layout.bucketCount] at hsize hi
  have hindex : (UInt64.ofNat i).toNat = i :=
    UInt64.toNat_ofNat_of_lt' (show i < 2 ^ 64 by omega)
  have hsixteen : (16 : UInt64).toNat = 16 := rfl
  have hstart : (UInt64.ofNat (i * 16)).toNat = i * 16 :=
    UInt64.toNat_ofNat_of_lt' (show i * 16 < 2 ^ 64 by omega)
  have hstop : (UInt64.ofNat (i * 16 + 16)).toNat = i * 16 + 16 :=
    UInt64.toNat_ofNat_of_lt' (show i * 16 + 16 < 2 ^ 64 by omega)
  have hin : i * 16 + 16 ≤ data.size := by omega
  rw [readBucket, mul64_eq_ok hindex hsixteen (by omega), ok_bind,
    add64_eq_ok hstart hsixteen (by omega), ok_bind,
    slice_eq_ok hstart hstop (by omega) hin, ok_bind, read64_extract hin (by omega), ok_bind,
    read32_extract hin (by omega)]
  rfl

private theorem mapM_eq_ok {α β : Type} {f : α → Except Trap β} {g : α → β} {l : List α}
    (h : ∀ a ∈ l, f a = .ok (g a)) : l.mapM f = .ok (l.map g) := by
  induction l with
  | nil => rfl
  | cons a l ih =>
    rw [List.mapM_cons, h a List.mem_cons_self, ih fun b hb => h b (List.mem_cons_of_mem _ hb)]
    rfl

/-- The machine reads all descriptors. -/
theorem mapM_readBucket {data : ByteArray} (hsize : Layout.headerSize ≤ data.size) :
    (List.range Layout.bucketCount).mapM (fun i => readBucket data (.ofNat i)) =
      .ok (ConstDb.Header.readBuckets data).toList := by
  rw [mapM_eq_ok fun i hi => readBucket_eq hsize (List.mem_range.1 hi), Except.ok.injEq]
  apply List.ext_getElem
  · simp [Layout.bucketCount]
  · intro i h₁ h₂
    simp only [List.getElem_map, List.getElem_range, ConstDb.Header.readBuckets,
      Vector.getElem_toList, Vector.getElem_ofFn]

/-- The machine finds the width of the slots. -/
theorem detect_eq {data : ByteArray} (h : Addressable data)
    (hsize : Layout.headerSize ≤ data.size) :
    detect data = .ok (SlotWidth.detect data.size data) := by
  simp only [Layout.headerSize] at hsize
  rw [detect, toNat_fileSize h, SlotWidth.detect]
  by_cases hsmall : data.size < SlotWidth.narrowLimit
  · rw [if_pos hsmall, if_pos (.inl hsmall)]
  · have hread : read32 data 0 = .ok (data.word32 0) := by rw [read32, if_pos (by omega)]
    rw [if_neg hsmall, hread]
    by_cases hword : data.word32 0 = 0
    · rw [if_pos (.inr hword)]
      simp [hword]
    · rw [if_neg (not_or.2 ⟨hsmall, hword⟩)]
      simp [hword]

/-- The machine follows the slot tables as they are described, and adds up their slots. -/
theorem followTables_eq {size : Nat} (hsize : size < 2 ^ 63) (width : SlotWidth)
    (bs : List Bucket) (index : Nat) {pos total : Nat}
    (hindex : index + bs.length ≤ Layout.bucketCount) (hpos : pos < 2 ^ 64)
    (htotal : total ≤ index * 2 ^ 32) :
    followTables width (.ofNat size) (.ofNat index) (.ofNat pos) (.ofNat total) bs =
      .ok ((ConstDb.Header.followTables width size index pos bs).map fun last =>
        (.ofNat last, .ofNat (total + (bs.map fun b => b.slots.toNat).sum))) := by
  simp only [Layout.bucketCount] at hindex
  induction bs generalizing index pos total with
  | nil => simp [followTables, ConstDb.Header.followTables, Except.map]
  | cons b rest ih =>
    rw [List.length_cons] at hindex
    have hslots := b.slots.toNat_lt
    have hword {n : Nat} (hn : n < 2 ^ 64) : (UInt64.ofNat n).toNat = n :=
      UInt64.toNat_ofNat_of_lt' hn
    have hsixteen : (16 : UInt64).toNat = 16 := rfl
    have hbytes : b.slots.toNat * 2 ^ width.shift < 2 ^ 64 := by
      cases width <;> simp only [SlotWidth.shift] <;> omega
    have hindexword := hword (show index < 2 ^ 64 by omega)
    rw [followTables, mul64_eq_ok hindexword hsixteen (by omega), ok_bind, hindexword,
      hword (show index * 16 < 2 ^ 64 by omega), ConstDb.Header.followTables]
    by_cases hstart : b.start.toNat = pos
    · have hstart' : b.start = .ofNat pos := by rw [← hstart, UInt64.ofNat_toNat]
      rw [if_neg (by simpa using hstart'), if_neg (by simpa using hstart),
        shl64_eq_ok (UInt32.toNat_toUInt64 _) (toNat_shift _) (shift_lt _), ok_bind,
        filter_checkedAdd64 _ _ (UInt64.toNat_lt _), hword hbytes,
        ← bytes_eq_two_pow, hword (show size < 2 ^ 64 by omega)]
      change _ = Except.ok (Except.map _ (if size < b.start.toNat + b.slots.toNat * width.bytes
        then _ else _))
      by_cases hend : b.start.toNat + b.slots.toNat * width.bytes ≤ size
      · -- Each table has fewer than `2 ^ 32` slots, and there are few tables.
        have htotal' : total + b.slots.toNat ≤ (index + 1) * 2 ^ 32 := by omega
        rw [if_pos hend, if_neg (by omega)]
        simp only
        rw [add64_eq_ok (hword (show total < 2 ^ 64 by omega)) (UInt32.toNat_toUInt64 _) (by omega),
          ok_bind, add64_one (show index + 1 < 2 ^ 64 by omega), ok_bind, Bucket.tableEnd,
          ih _ (by omega) (by omega) htotal', List.map_cons, List.sum_cons, Nat.add_assoc]
      · rw [if_neg hend, if_pos (show size < _ by omega)]
        rfl
    · have hstart' : b.start ≠ .ofNat pos := by
        intro heq
        apply hstart
        rw [heq, hword hpos]
      rw [if_pos hstart', if_pos (by simpa using hstart), hword hpos]
      rfl

private theorem followTables_first {data : ByteArray} (h : Addressable data) (width : SlotWidth)
    (start : UInt64) (bs : List Bucket) (hlength : bs.length ≤ Layout.bucketCount) :
    followTables width (fileSize data) 0 start 0 bs =
      .ok ((ConstDb.Header.followTables width data.size 0 start.toNat bs).map fun last =>
        (.ofNat last, .ofNat (bs.map fun b => b.slots.toNat).sum)) := by
  have htables := followTables_eq h width bs 0 (by omega) start.toNat_lt (Nat.zero_le _)
  rw [UInt64.ofNat_toNat, Nat.zero_add] at htables
  exact htables

theorem sum_slots_le (bs : List Bucket) :
    (bs.map fun b => b.slots.toNat).sum ≤ bs.length * 2 ^ 32 := by
  induction bs with
  | nil => simp
  | cons b rest ih =>
    have hslots := b.slots.toNat_lt
    rw [List.map_cons, List.sum_cons, List.length_cons]
    omega

private theorem accept_eq {data : ByteArray} (h : Addressable data) (width : SlotWidth)
    (buckets : Vector Bucket 256) :
    accept data width buckets.toList =
      .ok ((ConstDb.Header.accept data.size width buckets).map Header.of) := by
  have hitem : item buckets.toList.toArray 0 = .ok buckets[0] := by
    rw [item_eq_ok (by simp)]
    simp
  rw [accept, ConstDb.Header.accept, toNat_fileSize h, hitem, ok_bind]
  simp only
  by_cases hend : buckets[0].start.toNat < Layout.headerSize ∨ data.size < buckets[0].start.toNat
  · rw [if_pos hend, if_pos hend]
    rfl
  rw [if_neg hend, if_neg hend, followTables_first h width _ _ (by simp [Layout.bucketCount]),
    ok_bind]
  cases hfollow : ConstDb.Header.followTables width data.size 0 buckets[0].start.toNat
      buckets.toList with
  | error e => rfl
  | ok last =>
    -- The walk ended inside the file, so its end is a word and can be compared as one.
    obtain ⟨-, hle⟩ := (ConstDb.Header.followTables_eq_ok (by omega) 0 _).1 hfollow
    have hlast : (UInt64.ofNat last).toNat = last :=
      UInt64.toNat_ofNat_of_lt' (Nat.lt_of_le_of_lt hle (Nat.lt_trans h (by decide)))
    have hsame : UInt64.ofNat last = fileSize data ↔ last = data.size := by
      rw [← UInt64.toNat_inj, hlast, toNat_fileSize h]
    simp only [Except.map, pure_eq_ok]
    by_cases heq : last = data.size
    · have hsum := sum_slots_le buckets.toList
      rw [Vector.length_toList] at hsum
      have hhalf : UInt64.ofNat (buckets.toList.map fun b => b.slots.toNat).sum / 2 =
          .ofNat ((buckets.toList.map fun b => b.slots.toNat).sum / 2) := by
        apply UInt64.toNat_inj.1
        rw [UInt64.toNat_div, UInt64.toNat_ofNat_of_lt' (Nat.lt_of_le_of_lt hsum (by decide)),
          UInt64.toNat_ofNat_of_lt'
            (Nat.lt_of_le_of_lt (Nat.div_le_self ..) (Nat.lt_of_le_of_lt hsum (by decide)))]
        rfl
      have htotal := ConstDb.Header.slotTotal_eq_sum ⟨width, buckets⟩
      simp only at htotal
      rw [if_neg (by simpa using hsame.2 heq), if_neg (by simpa using heq), hhalf, ← htotal]
      rfl
    · rw [if_pos (by rw [ne_eq, hsame]; exact heq), if_pos heq, hlast]

/-- The machine accepts the headers that the format accepts, and says the same about the others. -/
theorem parse_eq {data : ByteArray} (h : Addressable data) :
    parse data = .ok ((ConstDb.Header.parse data).map Header.of) := by
  rw [parse, ConstDb.Header.parse]
  by_cases hsize : data.size < Layout.headerSize
  · rw [if_pos hsize, if_pos hsize, toNat_fileSize h]
    rfl
  · rw [if_neg hsize, if_neg hsize, detect_eq h (by omega), ok_bind, mapM_readBucket (by omega),
      ok_bind]
    exact accept_eq h _ _

end ConstDb.Machine
