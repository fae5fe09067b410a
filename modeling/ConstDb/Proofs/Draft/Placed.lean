import ConstDb.Draft
import ConstDb.Except
import ConstDb.Proofs.Layout.Codec

/-! # Where the records of a draft lie

The records of a draft lie one behind the other from the end of the header on.  `Placed.list` gives
each of them its offset; the body of the draft and its index entries are both functions of that
list (`Draft.body_ofRecords`, `Draft.entries_ofRecords`).

## Key results

- `Placed.hasAt_of_mem`: where the records were written, each of them is at its offset
- `Draft.checkSizes_eq_ok`: what a builder accepts
- `Draft.Storable.recordEnd_lt`: the limits of the format keep all offsets far below `2 ^ 64`
-/

namespace ConstDb

/-- A record with its offset in the file. -/
structure Placed where
  offset : Nat
  record : Record

namespace Placed

/-- Where the record lies. -/
def stored (p : Placed) : Stored := p.record.storedAt p.offset

/-- What the index remembers of the record. -/
def entry (p : Placed) : IndexEntry :=
  ⟨Hash.ofBytes p.record.key, UInt32.ofNat p.record.key.size, UInt64.ofNat p.offset⟩

/-- The offset behind the record. -/
def next (p : Placed) : Nat := p.offset + p.record.encode.size

/-- Records one behind the other from `pos` on, each with its offset. -/
def list (pos : Nat) : List Record → List Placed
  | [] => []
  | r :: rest => ⟨pos, r⟩ :: list (pos + r.encode.size) rest

@[simp] theorem list_nil (pos : Nat) : list pos [] = [] := rfl

@[simp] theorem list_cons (pos : Nat) (r : Record) (rest : List Record) :
    list pos (r :: rest) = ⟨pos, r⟩ :: list (pos + r.encode.size) rest := rfl

@[simp] theorem map_record_list (pos : Nat) (rs : List Record) :
    (list pos rs).map record = rs := by
  induction rs generalizing pos with
  | nil => rfl
  | cons r rest ih => rw [list_cons, List.map_cons, ih]

@[simp] theorem length_list (pos : Nat) (rs : List Record) : (list pos rs).length = rs.length := by
  rw [← List.length_map (f := record), map_record_list]

/-- How many bytes the records take. -/
def size (rs : List Record) : Nat := (rs.map fun r => r.encode.size).sum

@[simp] theorem size_nil : size [] = 0 := rfl

@[simp] theorem size_cons (r : Record) (rest : List Record) :
    size (r :: rest) = r.encode.size + size rest := by
  simp [size]

/-- Every record lies between the start of the first and the end of the last. -/
theorem bounds_of_mem {pos : Nat} {rs : List Record} {p : Placed} (h : p ∈ list pos rs) :
    pos ≤ p.offset ∧ p.next ≤ pos + size rs := by
  induction rs generalizing pos with
  | nil => simp at h
  | cons r rest ih =>
    rw [size_cons]
    rcases List.mem_cons.1 h with rfl | h
    · simp only [next]
      omega
    · obtain ⟨hlow, hhigh⟩ := ih h
      omega

/-- Where the records were written, each of them is at its offset. -/
theorem hasAt_of_mem {b : ByteArray} {pos : Nat} {rs : List Record}
    (h : b.HasAt pos (ByteArray.join (rs.map Record.encode))) {p : Placed} (hp : p ∈ list pos rs) :
    b.HasAt p.offset p.record.encode := by
  induction rs generalizing pos with
  | nil => simp at hp
  | cons r rest ih =>
    obtain ⟨hfirst, hrest⟩ := h.append
    rcases List.mem_cons.1 hp with rfl | hp
    · exact hfirst
    · exact ih hrest hp

end Placed

namespace Draft

/-- Adding records appends their bytes. -/
theorem body_foldl_append (rs : List Record) (d : Draft) :
    (rs.foldl append d).body = d.body ++ ByteArray.join (rs.map Record.encode) := by
  induction rs generalizing d with
  | nil => simp
  | cons r rest ih =>
    rw [List.foldl_cons, ih, List.map_cons, ByteArray.join_cons, ← ByteArray.append_assoc]
    rfl

/-- Adding records appends the index entries that their places give. -/
theorem entries_foldl_append (rs : List Record) (d : Draft) :
    (rs.foldl append d).entries.toList =
      d.entries.toList ++ (Placed.list d.position rs).map Placed.entry := by
  induction rs generalizing d with
  | nil => simp
  | cons r rest ih =>
    rw [List.foldl_cons, ih, position_append, ← Record.size_encode, Placed.list_cons, List.map_cons]
    simp [append, Placed.entry]

/-- The records of a list, each with its offset in the file. -/
def placed (rs : List Record) : List Placed := Placed.list Layout.headerSize rs

@[simp] theorem length_placed (rs : List Record) : (placed rs).length = rs.length :=
  Placed.length_list ..

theorem body_ofRecords (rs : List Record) :
    (ofRecords rs).body = ByteArray.join (rs.map Record.encode) := by
  rw [ofRecords, body_foldl_append, empty, ByteArray.empty_append]

theorem entries_ofRecords (rs : List Record) :
    (ofRecords rs).entries.toList = (placed rs).map Placed.entry := by
  rw [ofRecords, entries_foldl_append]
  rfl

/-- The record region without its padding ends behind the last record. -/
theorem position_ofRecords (rs : List Record) :
    (ofRecords rs).position = Layout.headerSize + Placed.size rs := by
  rw [position, body_ofRecords, ByteArray.size_join, List.map_map]
  rfl

/-- A record lies behind the header and ends inside the record region. -/
theorem bounds_of_mem_placed {rs : List Record} {p : Placed} (hp : p ∈ placed rs) :
    Layout.headerSize ≤ p.offset ∧ p.next ≤ (ofRecords rs).position := by
  rw [position_ofRecords]
  exact Placed.bounds_of_mem hp

/-- The entries of a bucket are those of the records whose hash belongs to it. -/
theorem entriesOf_ofRecords (rs : List Record) (i : Fin 256) :
    (ofRecords rs).entriesOf i =
      ((placed rs).filter fun p => decide (p.entry.bucket = i)).map Placed.entry := by
  rw [entriesOf_eq_filter, entries_ofRecords, List.filter_map]
  rfl

/-! ### The limits of the format -/

/-- A record within the limits of the format. -/
structure Fits (r : Record) : Prop where
  key_le : r.key.size ≤ Layout.maxFieldSize
  value_le : r.value.size ≤ Layout.maxFieldSize

/-- Records that one database can have together. -/
structure Storable (rs : List Record) : Prop where
  length_le : rs.length ≤ Layout.maxRecords
  fits : ∀ r ∈ rs, Fits r

theorem storable_nil : Storable [] :=
  ⟨Nat.zero_le _, fun _ h => absurd h List.not_mem_nil⟩

theorem checkSize_eq_ok {what : Quantity} {size bound : Nat} {u : Unit} :
    checkSize what size bound = .ok u ↔ size ≤ bound := by
  unfold checkSize
  split
  · simpa
  · simpa using ‹¬bound < size›

/-- A draft accepts a record just when it is within the limits and there is room for it. -/
theorem checkSizes_eq_ok {d : Draft} {r : Record} :
    d.checkSizes r.key.size r.value.size = .ok () ↔ Fits r ∧ d.size < Layout.maxRecords := by
  rw [checkSizes]
  simp only [bind_eq_ok, checkSize_eq_ok, exists_const]
  exact ⟨fun ⟨hkey, hvalue, hroom⟩ => ⟨⟨hkey, hvalue⟩, hroom⟩,
    fun ⟨hfits, hroom⟩ => ⟨hfits.key_le, hfits.value_le, hroom⟩⟩

/-- A record within the limits is refused only when there is no room for it. -/
theorem checkSizes_of_fits {r : Record} (h : Fits r) (d : Draft) :
    d.checkSizes r.key.size r.value.size =
      if d.size < Layout.maxRecords then .ok ()
      else .error (.limit .recordCount (d.size + 1) Layout.maxRecords) := by
  have hcount : Layout.maxRecords < d.size + 1 ↔ ¬d.size < Layout.maxRecords := by omega
  simp only [checkSizes, checkSize, bind, Except.bind, if_neg (Nat.not_lt.2 h.key_le),
    if_neg (Nat.not_lt.2 h.value_le), hcount, ite_not]

/-- How many bytes one record can take. -/
def maxRecordSize : Nat := Record.encodedSize Layout.maxFieldSize Layout.maxFieldSize

theorem Fits.size_encode_le {r : Record} (h : Fits r) : r.encode.size ≤ maxRecordSize := by
  have hkey := h.key_le
  have hvalue := h.value_le
  rw [Record.size_encode, maxRecordSize, Record.encodedSize, Record.encodedSize]
  omega

/-- The sizes of a record fit into its two lengths. -/
theorem Fits.sizes_lt {r : Record} (h : Fits r) :
    r.key.size < 2 ^ 32 ∧ r.value.size < 2 ^ 32 := by
  have hkey := h.key_le
  have hvalue := h.value_le
  simp only [Layout.maxFieldSize] at hkey hvalue
  omega

private theorem size_le_of_fits {rs : List Record} (h : ∀ r ∈ rs, Fits r) :
    Placed.size rs ≤ rs.length * maxRecordSize := by
  induction rs with
  | nil => simp
  | cons r rest ih =>
    have hfirst := (h r List.mem_cons_self).size_encode_le
    have hrest := ih fun s hs => h s (List.mem_cons_of_mem _ hs)
    rw [Placed.size_cons, List.length_cons, Nat.add_mul, Nat.one_mul]
    omega

namespace Storable

variable {rs : List Record}

/-- The records that can be stored end far below `2 ^ 64`. -/
theorem position_lt (h : Storable rs) : (ofRecords rs).position < 2 ^ 63 := by
  have hsize := size_le_of_fits h.fits
  have hmul := Nat.mul_le_mul_right maxRecordSize h.length_le
  rw [position_ofRecords]
  simp only [Layout.headerSize, Layout.maxRecords, maxRecordSize, Record.encodedSize,
    Record.prologueSize, Layout.maxFieldSize] at *
  omega

/-- So does the padding behind them. -/
theorem recordEnd_lt (h : Storable rs) : (ofRecords rs).recordEnd < 2 ^ 63 + Layout.alignment := by
  have hpos := h.position_lt
  have hpad := Layout.paddingFor_lt (ofRecords rs).position
  rw [recordEnd]
  omega

end Storable

end Draft

end ConstDb
