import ConstDb.Proofs.Layout.Width
import ConstDb.Proofs.Machine.Build

/-! # No arithmetic of a build wraps

When a build is finished, its slot tables are filled and written one behind the other, and their
descriptors are put into the header.  The limits of the format are chosen so that doubled numbers of
records fit into words of 32 bits and the end of the file into 64, so nothing is cut, and the file
is that of the draft.

A search for a vacant slot counts up and starts again behind the last slot.  It never counts past
the number of slots (`Build.Looks.exists_add32`).

## Key results

- `Build.layTable_eq`, `Build.layTables_eq`: one table, and all of them
- `Build.finish_eq`: the file that is written
- `Build.Looks.lt`, `Build.Looks.exists_add32`: the slots that a search looks at
- `Build.no_arithmetic_wraps`: everything together
-/

namespace ConstDb

namespace Machine

namespace Build

open Draft (Fits Storable ofRecords)

/-! ### The slot tables -/

/-- Entries that the machine can place in a table. -/
structure Seatable (width : SlotWidth) (patience : Nat) (pending : Array IndexEntry) : Prop where
  size_le : pending.size ≤ Layout.maxRecords
  patience_le : pending.size ≤ patience
  offset_ne : ∀ e ∈ pending.toList, e.offset ≠ 0
  fits : ∀ e ∈ pending.toList, e.slot.Fits width

/-- The table of a bucket. -/
def tableOf (pending : Array IndexEntry) : SlotTable := SlotTable.ofEntries pending.toList

@[simp] theorem size_tableOf (pending : Array IndexEntry) :
    (tableOf pending).size = 2 * pending.size := by
  rw [tableOf, SlotTable.size_ofEntries, Array.length_toList]

/-- The descriptor of a table that starts at a position. -/
def descriptorAt (pos : Nat) (pending : Array IndexEntry) : Bucket :=
  ⟨.ofNat pos, .ofNat (tableOf pending).size⟩

/-- Descriptors of which none was written yet. -/
def blanks (n : Nat) : List ByteArray := List.replicate n (ByteArray.replicate 16 0)

section

variable {width : SlotWidth} {patience : Nat} {pos : Nat}

omit patience in
/-- The machine puts the descriptor of a bucket in the place of the first blank. -/
theorem putBucket_blank {done : List Bucket} {left : Nat}
    (hlength : done.length + (left + 1) = 256) (b : Bucket) :
    putBucket (.join (done.map Bucket.encode ++ blanks (left + 1))) (.ofNat done.length) b =
      .ok (.join ((done ++ [b]).map Bucket.encode ++ blanks left)) := by
  -- Descriptors and blanks are all 16 bytes long, so the header is a list of places.
  have hpieces : ∀ piece ∈ done.map Bucket.encode ++ blanks (left + 1), piece.size = 16 := by
    intro piece hpiece
    rcases List.mem_append.1 hpiece with hmem | hmem
    · obtain ⟨b, -, rfl⟩ := List.mem_map.1 hmem
      exact Bucket.size_encode b
    · rw [List.eq_of_mem_replicate hmem, ByteArray.size_replicate]
  have hcount : (done.map Bucket.encode ++ blanks (left + 1)).length = 256 := by
    rw [List.length_append, List.length_map, blanks, List.length_replicate, hlength]
  have hsize : (ByteArray.join (done.map Bucket.encode ++ blanks (left + 1))).size = 4096 := by
    have hsum := ByteArray.sum_size_take hpieces (Nat.le_refl _)
    rw [List.take_length, hcount] at hsum
    rw [ByteArray.size_join, hsum]
  have haddr : Addressable (.join (done.map Bucket.encode ++ blanks (left + 1))) := by
    rw [Addressable, hsize]
    decide
  have hset : (done.map Bucket.encode ++ blanks (left + 1)).set done.length b.encode =
      (done ++ [b]).map Bucket.encode ++ blanks left := by
    have hblanks : blanks (left + 1) = ByteArray.replicate 16 0 :: blanks left :=
      List.replicate_succ
    rw [hblanks, List.set_append_right _ _ (by rw [List.length_map]), List.length_map,
      Nat.sub_self, List.set_cons_zero, List.map_append, List.append_assoc]
    rfl
  have hwrite : (ByteArray.join (done.map Bucket.encode ++ blanks (left + 1))).overwrite
      (done.length * Layout.descriptorSize) b.encode =
        .join ((done.map Bucket.encode ++ blanks (left + 1)).set done.length b.encode) :=
    ByteArray.overwrite_join hpieces (by rw [hcount]; omega) (Bucket.size_encode b)
  rw [putBucket_eq haddr (by rw [hsize]; omega), Bucket.write, hwrite, hset]

/-- The machine writes the table of a bucket behind what was written, and its descriptor in its
place in the header. -/
theorem layTable_eq {pending : Array IndexEntry} (hseat : Seatable width patience pending)
    (hend : pos + (tableOf pending).size * width.bytes < 2 ^ 64) {done : List Bucket} {left : Nat}
    (hlength : done.length + (left + 1) = 256) (file : ByteArray) :
    layTable width patience
        ⟨.join (done.map Bucket.encode ++ blanks (left + 1)), file, .ofNat pos⟩
        (.ofNat done.length) pending =
      .ok (some ⟨.join ((done ++ [descriptorAt pos pending]).map Bucket.encode ++ blanks left),
        file ++ (tableOf pending).encode width,
        .ofNat (pos + (tableOf pending).size * width.bytes)⟩) := by
  have hle := hseat.size_le
  simp only [Layout.maxRecords] at hle
  have htwo : (2 : UInt32).toNat = 2 := rfl
  have hone : (1 : UInt64).toNat = 1 := rfl
  have hcount : (UInt32.ofNat pending.size).toNat = pending.size :=
    UInt32.toNat_ofNat_of_lt' (show pending.size < 2 ^ 32 by omega)
  have hslots : (UInt32.ofNat (2 * pending.size)).toUInt64.toNat = 2 * pending.size :=
    toNat_widened (by omega)
  have hbytes : (UInt64.ofNat (1 * 2 ^ width.shift)).toNat = width.bytes := by
    cases width <;> rfl
  rw [size_tableOf] at hend
  have hword {n : Nat} (hn : n < 2 ^ 64) : (UInt64.ofNat n).toNat = n :=
    UInt64.toNat_ofNat_of_lt' hn
  -- A buffer of zeros is a table without entries.
  have hplace := placeAll_tableAfter hseat.offset_ne hseat.fits
    (by rw [Array.length_toList]; omega) (Nat.zero_le _)
    (show pending.toList.length ≤ patience by rw [Array.length_toList]; exact hseat.patience_le)
  rw [List.drop_zero, SlotTable.tableAfter, List.take_zero, List.foldl_nil,
    SlotTable.encode_vacant, SlotTable.tableAfter_length, Array.length_toList] at hplace
  have hsize : ((tableOf pending).encode width).size = 2 * pending.size * width.bytes := by
    rw [SlotTable.size_encode, size_tableOf]
  rw [layTable, mul32_eq_ok hcount htwo (by omega), ok_bind, Nat.mul_comm pending.size 2,
    putBucket_blank hlength, ok_bind, shl64_eq_ok hone (toNat_shift width) (shift_lt width),
    ok_bind, mul64_eq_ok hslots hbytes (by omega), ok_bind, hword (by omega), hplace, ok_bind]
  simp only
  rw [← tableOf, hsize, add64_eq_ok (hword (by omega)) (hword (by omega)) (by omega), ok_bind,
    pure_eq_ok, size_tableOf, descriptorAt, size_tableOf]

/-- The machine writes the tables of buckets one behind the other. -/
theorem layTables_eq {pendings : List (Array IndexEntry)}
    (hseat : ∀ pending ∈ pendings, Seatable width patience pending)
    (hend : pos + Draft.tablesSize width (pendings.map tableOf) < 2 ^ 64) {done : List Bucket}
    (hlength : done.length + pendings.length = 256) (file : ByteArray) :
    layTables width patience
        ⟨.join (done.map Bucket.encode ++ blanks pendings.length), file, .ofNat pos⟩
        (.ofNat done.length) pendings =
      .ok (some ⟨
        .join ((done ++ Draft.describe width pos (pendings.map tableOf)).map Bucket.encode),
        file ++ .join ((pendings.map tableOf).map fun t => t.encode width),
        .ofNat (pos + Draft.tablesSize width (pendings.map tableOf))⟩) := by
  induction pendings generalizing done file pos with
  | nil => simp [layTables, blanks, Draft.describe, Draft.tablesSize]
  | cons pending rest ih =>
    rw [List.length_cons] at hlength
    rw [List.map_cons, Draft.tablesSize_cons] at hend
    have hdone : (done ++ [descriptorAt pos pending]).length =
        done.length + 1 := by
      rw [List.length_append, List.length_singleton]
    have hend' : pos + (tableOf pending).size * width.bytes +
        Draft.tablesSize width (rest.map tableOf) < 2 ^ 64 := by omega
    have hrest := ih (fun p hp => hseat p (List.mem_cons_of_mem _ hp)) hend'
      (by rw [hdone]; omega) (file ++ (tableOf pending).encode width)
    rw [hdone] at hrest
    rw [layTables, List.length_cons,
      layTable_eq (hseat pending List.mem_cons_self) (by omega) hlength file, ok_bind]
    simp only
    rw [add64_one (by omega), ok_bind, hrest]
    simp [Draft.describe, descriptorAt, ByteArray.append_assoc, Nat.add_assoc]

end

/-! ### Finishing -/

theorem map_tableOf_pendingOf (d : Draft) : (pendingOf d).toList.map tableOf = d.tables := by
  rw [toList_pendingOf, List.map_map, Draft.tables]
  rfl

/-- The header of a draft takes as many bytes as are reserved for it. -/
theorem size_join_buckets (d : Draft) :
    (ByteArray.join (d.buckets.map Bucket.encode)).size = Layout.headerSize := by
  have hpieces : ∀ piece ∈ d.buckets.map Bucket.encode, piece.size = Layout.descriptorSize := by
    intro piece hpiece
    obtain ⟨b, -, rfl⟩ := List.mem_map.1 hpiece
    exact Bucket.size_encode b
  have hsum := ByteArray.sum_size_take hpieces (Nat.le_refl _)
  rw [List.take_length, List.length_map, Draft.buckets, Draft.length_describe,
    Draft.length_tables] at hsum
  rw [ByteArray.size_join, Draft.buckets, hsum]
  rfl

/-- The header goes over the zeros that were written first. -/
theorem overwrite_zeros (d : Draft) (back : ByteArray) :
    (ByteArray.replicate Layout.headerSize 0 ++ back).overwrite 0
        (.join (d.buckets.map Bucket.encode)) =
      .join (d.buckets.map Bucket.encode) ++ back := by
  have hwrite := @ByteArray.overwrite_append .empty (ByteArray.replicate Layout.headerSize 0)
    (.join (d.buckets.map Bucket.encode)) back
    (by rw [size_join_buckets, ByteArray.size_replicate])
  simpa only [ByteArray.empty_append, ByteArray.size_empty] using hwrite

/-- The file of a draft, in its parts. -/
theorem image_eq_join (d : Draft) :
    d.image = .join (d.buckets.map Bucket.encode) ++ (d.body ++
      (ByteArray.replicate (Layout.paddingFor d.position) Layout.paddingByte ++
        .join (d.tables.map fun t => t.encode d.width))) := by
  rw [Draft.image_eq, ByteArray.foldl_append_eq, Header.encodeBuckets_eq_join]
  simp only [ByteArray.append_assoc, ByteArray.empty_append]

section

variable {rs : List Record} (h : Storable rs)

include h

/-- The machine can place the entries of all buckets. -/
theorem seatable_of {patience : Nat} (hpatience : rs.length ≤ patience) :
    ∀ pending ∈ (pendingOf (ofRecords rs)).toList,
      Seatable (ofRecords rs).width patience pending := by
  intro pending hpending
  rw [toList_pendingOf] at hpending
  obtain ⟨i, -, rfl⟩ := List.mem_map.1 hpending
  have hle : ((ofRecords rs).entriesOf i).length ≤ rs.length := by
    rw [Draft.entriesOf_ofRecords, List.length_map, ← Draft.length_placed rs]
    exact List.length_filter_le ..
  -- What an entry needs holds because it is that of a record of the draft.
  have hmem : ∀ e ∈ (ofRecords rs).entriesOf i, ∃ p ∈ Draft.placed rs, p.entry = e := by
    intro e he
    rw [Draft.entriesOf_ofRecords] at he
    obtain ⟨p, hp, rfl⟩ := List.mem_map.1 he
    exact ⟨p, List.mem_of_mem_filter hp, rfl⟩
  have hlength := h.length_le
  refine ⟨?_, ?_, ?ne, ?fits⟩
  · rw [List.size_toArray]
    omega
  · rw [List.size_toArray]
    omega
  case ne =>
    intro e he hzero
    obtain ⟨p, hp, rfl⟩ := hmem e (by simpa using he)
    obtain ⟨hoffset, hne, -⟩ := h.offset_entry hp
    apply hne
    rw [← hoffset, hzero]
    rfl
  case fits =>
    intro e he
    obtain ⟨p, hp, rfl⟩ := hmem e (by simpa using he)
    exact (h.offset_entry hp).2.2

/-- The machine writes the file of the draft, and knows where it ends. -/
theorem finish_eq {patience : Nat} (hpatience : rs.length ≤ patience) :
    finish patience (of (ofRecords rs)) =
      .ok (some ((ofRecords rs).image, .ofNat (ofRecords rs).image.size)) := by
  have hlt := h.position_lt
  have hpadding := Layout.paddingFor_lt (ofRecords rs).position
  have hend := h.addressable.end_lt
  simp only [Layout.alignment] at hpadding
  have hword {n : Nat} (hn : n < 2 ^ 64) : (UInt64.ofNat n).toNat = n :=
    UInt64.toNat_ofNat_of_lt' hn
  have hzero : (0 : UInt64).toNat = 0 := rfl
  -- The header starts as blanks alone, and every table that is laid down replaces the first of
  -- them.
  have hheader : ByteArray.replicate Layout.headerSize 0 =
      .join (([] : List Bucket).map Bucket.encode ++ blanks 256) := by
    have hsize : 256 * 16 = Layout.headerSize := rfl
    rw [List.map_nil, List.nil_append, blanks, ByteArray.join_replicate, hsize]
  have hlength : ([] : List Bucket).length + (pendingOf (ofRecords rs)).toList.length = 256 := by
    rw [List.length_nil, Nat.zero_add, toList_pendingOf, List.length_map, List.length_finRange]
  rw [← map_tableOf_pendingOf] at hend
  have hlay := layTables_eq (seatable_of h hpatience) hend hlength
    ((of (ofRecords rs)).file ++
      ByteArray.replicate (Layout.paddingFor (ofRecords rs).position) Layout.paddingByte)
  rw [List.length_nil, Nat.zero_add] at hlength
  rw [hlength, ← hheader, List.nil_append, map_tableOf_pendingOf, List.length_nil] at hlay
  have hfirst : UInt64.ofNat 0 = 0 := rfl
  rw [hfirst] at hlay
  have hslice : slice (ByteArray.replicate 16 Layout.paddingByte) 0
      (.ofNat (Layout.paddingFor (ofRecords rs).position)) =
        .ok (.replicate (Layout.paddingFor (ofRecords rs).position) Layout.paddingByte) := by
    rw [slice_eq_ok hzero (hword (by omega)) (Nat.zero_le _)
      (by rw [ByteArray.size_replicate]; omega), ByteArray.extract_replicate _ (by omega)]
  rw [finish, pos_of, paddingFor_eq (by omega), ok_bind, hslice, ok_bind,
    add64_eq_ok (hword (by omega)) (hword (by omega)) (by omega), ok_bind, hword (by omega),
    buckets_of, ← Draft.recordEnd, ← Draft.width, hlay, ok_bind]
  simp only
  rw [pure_eq_ok, ← Draft.buckets, file_of, ByteArray.append_assoc, ByteArray.append_assoc,
    overwrite_zeros, ← image_eq_join, Draft.size_image]

end

/-! ### The slots that a search looks at -/

/-- The slots at which a search for a vacant slot looks, when it starts at the first of them. -/
inductive Looks (table : ByteArray) (width : SlotWidth) (slots first : UInt32) : UInt32 → Prop
  | first : Looks table width slots first first
  | next {u v : UInt32} {piece : ByteArray} (h : Looks table width slots first u)
      (hpiece : slotPiece table width u = .ok piece)
      (htaken : hasZeroOffset width piece = .ok false) (hnext : add32 u 1 = .ok v) :
      Looks table width slots first (if v = slots then 0 else v)

section

variable {table : ByteArray} {width : SlotWidth} {slots first u v : UInt32}

/-- A search stays inside the table. -/
theorem Looks.lt (h : Looks table width slots first u) (hfirst : first.toNat < slots.toNat) :
    u.toNat < slots.toNat := by
  induction h with
  | first => exact hfirst
  | @next u v piece h hpiece htaken hnext ih =>
    have hone : (1 : UInt32).toNat = 1 := rfl
    have hslots := slots.toNat_lt
    rw [add32_eq_ok rfl hone (by omega), Except.ok.injEq] at hnext
    subst hnext
    have hword : (UInt32.ofNat (u.toNat + 1)).toNat = u.toNat + 1 :=
      UInt32.toNat_ofNat_of_lt' (show u.toNat + 1 < 2 ^ 32 by omega)
    -- The number behind the last slot is that of the slots, and there the search turns to the
    -- first.
    by_cases hlast : UInt32.ofNat (u.toNat + 1) = slots
    · rw [if_pos hlast]
      show 0 < slots.toNat
      omega
    · have hne : u.toNat + 1 ≠ slots.toNat := by
        intro h
        apply hlast
        rw [h, UInt32.ofNat_toNat]
      rw [if_neg hlast, hword]
      omega

/-- Turning to the slot behind never goes past the end of the table. -/
theorem Looks.exists_add32 (h : Looks table width slots first u)
    (hfirst : first.toNat < slots.toNat) : ∃ v, add32 u 1 = .ok v ∧ v.toNat ≤ slots.toNat := by
  have hlt := h.lt hfirst
  have hone : (1 : UInt32).toNat = 1 := rfl
  have hslots := slots.toNat_lt
  refine ⟨_, add32_eq_ok rfl hone (by omega), ?_⟩
  rw [UInt32.toNat_ofNat_of_lt' (show u.toNat + 1 < 2 ^ 32 by omega)]
  omega

end

/-! ### Everything together -/

/-- Where the records of a build end, when padding is written behind them. -/
def recordEnd (b : Build) : Nat := b.pos.toNat + Layout.paddingFor b.pos.toNat

/-- The width of the slots that a build will write. -/
def width (b : Build) : SlotWidth := .forRecordEnd b.recordEnd

/-- What a finished file says about a build: no number in it was cut. -/
structure Finished (b : Build) (rs : List Record) (file : ByteArray) (last : UInt64) : Prop where
  image_eq : file = (ofRecords rs).image
  last_eq : last.toNat = file.size
  size_eq : file.size = b.recordEnd + 2 * b.records.toNat * b.width.bytes
  /-- A bucket has twice as many slots as entries, and its table starts behind those before it. -/
  bucket_eq : ∀ i : Fin 256, ∀ pending, b.buckets[i.val]? = some pending →
    (Bucket.read file i).slots.toNat = 2 * pending.size ∧
    (Bucket.read file i).start.toNat = b.recordEnd +
      ((b.buckets.toList.take i).map fun before => 2 * before.size * b.width.bytes).sum
  /-- An offset that is stored in 32 bits is stored as it is. -/
  offset_eq : b.width = .narrow → ∀ i : Fin 256, ∀ pending, b.buckets[i.val]? = some pending →
    ∀ e ∈ pending.toList, e.offset.toUInt32.toUInt64 = e.offset
  /-- A search for a slot of an entry stays inside the table. -/
  looks : ∀ i : Fin 256, ∀ pending, b.buckets[i.val]? = some pending → ∀ e ∈ pending.toList,
    ∃ first, startSlot e.hash (Bucket.read file i).slots = .ok first ∧
      ∀ table u, Looks table b.width (Bucket.read file i).slots first u →
        u.toNat < (Bucket.read file i).slots.toNat ∧
        ∃ v, add32 u 1 = .ok v ∧ v.toNat ≤ (Bucket.read file i).slots.toNat

/-- The descriptor of a bucket in the file of a draft. -/
theorem read_bucket_image (d : Draft) (i : Fin 256) :
    Bucket.read d.image i =
      ⟨.ofNat (d.recordEnd + Draft.tablesSize d.width (d.tables.take i)),
        .ofNat (2 * (d.entriesOf i).length)⟩ := by
  have hread := Assembly.getElem_readBuckets (a := d.assembly) d.length_tables i
  have htable : d.assembly.tables.get (i.cast d.length_tables.symm) =
      SlotTable.ofEntries (d.entriesOf i) :=
    d.getElem_tables i (by rw [Draft.length_tables]; exact i.isLt)
  have hbucket : (Header.readBuckets d.image)[i] = Bucket.read d.image i := by
    simp [Header.readBuckets]
  rw [← Draft.image_eq_bytes, Draft.recordEnd_assembly, htable, SlotTable.size_ofEntries] at hread
  exact hbucket.symm.trans hread

/-- A bucket of a build is one of the draft. -/
theorem eq_of_getElem?_buckets {d : Draft} {i : Fin 256} {pending : Array IndexEntry}
    (hpending : (of d).buckets[i.val]? = some pending) : pending = (d.entriesOf i).toArray := by
  rw [buckets_of, getElem?_pendingOf] at hpending
  exact (Option.some.inj hpending).symm

/-- How many bytes the tables of the first buckets take. -/
theorem tablesSize_take (d : Draft) (i : Nat) :
    Draft.tablesSize d.width (d.tables.take i) =
      (((pendingOf d).toList.take i).map fun before => 2 * before.size * d.width.bytes).sum := by
  rw [Draft.tablesSize, ← map_tableOf_pendingOf, ← List.map_take, List.map_map]
  simp only [Function.comp_def, size_tableOf]

section

variable {rs : List Record} (h : Storable rs)

include h

theorem recordEnd_of : (of (ofRecords rs)).recordEnd = (ofRecords rs).recordEnd := by
  rw [recordEnd, toNat_pos_of h, Draft.recordEnd]

theorem width_of : (of (ofRecords rs)).width = (ofRecords rs).width := by
  rw [width, recordEnd_of h, Draft.width]

/-- What is read in the descriptor of a bucket is what was meant. -/
theorem toNat_read_bucket (i : Fin 256) :
    (Bucket.read (ofRecords rs).image i).slots.toNat = 2 * ((ofRecords rs).entriesOf i).length ∧
    (Bucket.read (ofRecords rs).image i).start.toNat = (ofRecords rs).recordEnd +
      Draft.tablesSize (ofRecords rs).width ((ofRecords rs).tables.take i) := by
  have hend := h.addressable.end_lt
  have hslots := h.addressable.slots_lt (SlotTable.ofEntries ((ofRecords rs).entriesOf i))
    (List.mem_map_of_mem (List.mem_finRange i))
  have hsum : Draft.tablesSize (ofRecords rs).width (ofRecords rs).tables =
      Draft.tablesSize (ofRecords rs).width ((ofRecords rs).tables.take i) +
        Draft.tablesSize (ofRecords rs).width ((ofRecords rs).tables.drop i) := by
    simp only [Draft.tablesSize]
    rw [← List.sum_append, ← List.map_append, List.take_append_drop]
  rw [SlotTable.size_ofEntries] at hslots
  rw [read_bucket_image]
  exact ⟨UInt32.toNat_ofNat_of_lt' hslots, UInt64.toNat_ofNat_of_lt' (show _ < 2 ^ 64 by omega)⟩

theorem finished_of :
    Finished (of (ofRecords rs)) rs (ofRecords rs).image (.ofNat (ofRecords rs).image.size) := by
  have hrecords := toNat_records_of h
  have hend := h.addressable.end_lt
  have hsize := (ofRecords rs).size_image
  refine ⟨rfl, ?last, ?size, fun i pending hpending => ?bucket,
    fun hnarrow i pending hpending e he => ?offset, fun i pending hpending e he => ?looks⟩
  case last => exact UInt64.toNat_ofNat_of_lt' (show (ofRecords rs).image.size < 2 ^ 64 by omega)
  case size =>
    rw [hsize, Draft.tablesSize_eq, recordEnd_of h, width_of h, hrecords, Draft.size_ofRecords]
  case bucket =>
    obtain rfl := eq_of_getElem?_buckets hpending
    obtain ⟨hslots, hstart⟩ := toNat_read_bucket h i
    refine ⟨by rw [hslots, List.size_toArray], ?_⟩
    rw [hstart, tablesSize_take, recordEnd_of h, width_of h, buckets_of]
  case offset =>
    rw [width_of h] at hnarrow
    rw [buckets_of] at hpending
    have hseat := seatable_of h (Nat.le_refl _) pending (Array.mem_of_getElem? hpending).val
    have hlt : e.offset.toNat < 2 ^ 32 := hseat.fits e he hnarrow
    apply UInt64.toNat_inj.1
    rw [UInt32.toNat_toUInt64, UInt64.toNat_toUInt32, Nat.mod_eq_of_lt hlt]
  case looks =>
    obtain rfl := eq_of_getElem?_buckets hpending
    obtain ⟨hslots, -⟩ := toNat_read_bucket h i
    have hmem : e ∈ (ofRecords rs).entriesOf i := by simpa using he
    -- A bucket with an entry has slots, so the start slot is one of them.
    have hpos : 0 < (Bucket.read (ofRecords rs).image i).slots.toNat := by
      have hlength := List.length_pos_of_mem hmem
      omega
    have hne : (Bucket.read (ofRecords rs).image i).slots ≠ 0 := by
      intro hzero
      rw [hzero] at hpos
      exact absurd hpos (by decide)
    have hstart := Hash.startSlot_lt e.hash hpos
    have hword := (Bucket.read (ofRecords rs).image i).slots.toNat_lt
    have hfirst : (UInt32.ofNat (Hash.startSlot e.hash
        (Bucket.read (ofRecords rs).image i).slots.toNat)).toNat <
          (Bucket.read (ofRecords rs).image i).slots.toNat := by
      rw [UInt32.toNat_ofNat_of_lt' (show Hash.startSlot e.hash _ < 2 ^ 32 by omega)]
      exact hstart
    exact ⟨_, startSlot_eq e.hash hne,
      fun table u hlooks => ⟨hlooks.lt hfirst, hlooks.exists_add32 hfirst⟩⟩

end

/-- No arithmetic of a build wraps, whatever is offered to it, and however often it refuses
something.  Between two additions the position, the number of records and what each bucket remembers
are exact, and one more record either keeps them so or is refused.  When the build is finished, the
numbers of slots, the starts of the tables and the end of the file are exact too, and no search for
a slot leaves its table.  The file is that of the draft. -/
theorem no_arithmetic_wraps (offered : List Record) :
    ∃ b, offerAll opened offered = .ok b ∧ Exact b (admitted offered) ∧
      (∀ r, if Fits r ∧ (admitted offered).length < Layout.maxRecords then
          ∃ b', b.add r = .ok (.ok b') ∧ Exact b' (admitted offered ++ [r])
        else ∃ e, b.add r = .ok (.error e)) ∧
      ∀ patience, Layout.maxRecords ≤ patience → ∃ file last,
        finish patience b = .ok (some (file, last)) ∧
          Finished b (admitted offered) file last := by
  have h := storable_admitted offered
  refine ⟨_, offerAll_eq offered, exact_of h, fun r => ?add, fun patience hpatience =>
    ⟨_, _, finish_eq h (Nat.le_trans h.length_le hpatience), finished_of h⟩⟩
  case add =>
    split
    · rename_i hadded
      exact ⟨_, add_of_fits h hadded.1 hadded.2, exact_of (h.append hadded.1 hadded.2)⟩
    · rename_i hnot
      exact exists_add_refused h hnot

/-- A build to which two records of one key were offered. -/
theorem no_arithmetic_wraps_pair :
    ∃ b file last, offerAll opened [⟨⟨#[99]⟩, ⟨#[100]⟩⟩, ⟨⟨#[99]⟩, .empty⟩] = .ok b ∧
      b.pos.toNat = 4096 + 19 ∧ b.records.toNat = 2 ∧
      finish Layout.maxRecords b = .ok (some (file, last)) ∧ last.toNat = file.size := by
  obtain ⟨b, hrun, hexact, -, hfinish⟩ :=
    no_arithmetic_wraps [⟨⟨#[99]⟩, ⟨#[100]⟩⟩, ⟨⟨#[99]⟩, .empty⟩]
  obtain ⟨file, last, hfile, hfinished⟩ := hfinish Layout.maxRecords (Nat.le_refl _)
  exact ⟨b, file, last, hrun, hexact.pos_eq, hexact.records_eq, hfile, hfinished.last_eq⟩

end Build

end Machine

end ConstDb
