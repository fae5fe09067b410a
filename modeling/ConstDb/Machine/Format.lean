import ConstDb.Layout.Header
import ConstDb.Layout.Slot
import ConstDb.Machine.Word
import ConstDb.Record

/-! # Reading a file with machine words

Headers, slots and records, read as the machine does it: offsets are words of 64 bits, and every
sum, product and slice may trap.  Where a sum is checked, the result of the check is an error or
nothing, and no trap.  The padding, which stands between the records and the slot tables, is what a
writer computes. -/

namespace ConstDb.Machine

/-! ### Padding -/

/-- How many padding bytes follow a record region that ends at `pos`. -/
def paddingFor (pos : UInt64) : Except Trap UInt64 := do
  let past ← rem64 pos (.ofNat Layout.alignment)
  let gap ← sub64 (.ofNat Layout.alignment) past
  rem64 gap (.ofNat Layout.alignment)

/-- Where a record region that ends at `pos` ends with its padding. -/
def paddedEnd (pos : UInt64) : Except Trap UInt64 := do
  let padding ← paddingFor pos
  add64 pos padding

/-! ### Headers -/

/-- A header as it is held in memory. -/
structure Header where
  buckets : Array Bucket
  width : SlotWidth
  /-- How many records the slot tables have room for. -/
  records : UInt64
deriving DecidableEq

/-- The same header, with machine words. -/
def Header.of (h : ConstDb.Header) : Header := ⟨h.buckets.toArray, h.width, .ofNat h.recordCount⟩

/-- The number of bytes of a file. -/
def fileSize (data : ByteArray) : UInt64 := .ofNat data.size

/-- The binary logarithm of the size of a slot. -/
def shift (width : SlotWidth) : UInt64 := .ofNat width.shift

/-- Reads the descriptor of a bucket. -/
def readBucket (data : ByteArray) (index : UInt64) : Except Trap Bucket := do
  let start ← mul64 index 16
  let stop ← add64 start 16
  let piece ← slice data start stop
  let position ← read64 piece 0
  let slots ← read32 piece 8
  return ⟨position, slots⟩

/-- The width of the slots. -/
def detect (data : ByteArray) : Except Trap SlotWidth :=
  if (fileSize data).toNat < SlotWidth.narrowLimit then .ok .narrow
  else do
    let word ← read32 data 0
    return if word = 0 then .narrow else .wide

/-- Follows the slot tables and adds up their slots. -/
def followTables (width : SlotWidth) (size : UInt64) :
    (index expected total : UInt64) → List Bucket → Except Trap (Except Error (UInt64 × UInt64))
  | _, expected, total, [] => .ok (.ok (expected, total))
  | index, expected, total, b :: rest => do
    let descriptor ← mul64 index 16
    if b.start ≠ expected then
      return .error (.format descriptor.toNat
        (.tableMisplaced index.toNat b.start.toNat expected.toNat))
    else
      let bytes ← shl64 b.slots.toUInt64 (shift width)
      match (checkedAdd64 b.start bytes).filter fun last => decide (last.toNat ≤ size.toNat) with
      | none =>
        return .error (.format descriptor.toNat
          (.tableTooLong index.toNat b.slots.toNat size.toNat))
      | some last =>
        let total ← add64 total b.slots.toUInt64
        let index ← add64 index 1
        followTables width size index last total rest

/-- Accepts descriptors whose tables go from the end of the record region to the end of the file. -/
def accept (data : ByteArray) (width : SlotWidth) (buckets : List Bucket) :
    Except Trap (Except Error Header) := do
  let first ← item buckets.toArray 0
  let recordEnd := first.start
  if recordEnd.toNat < Layout.headerSize ∨ (fileSize data).toNat < recordEnd.toNat then
    return .error (.format 0
      (.recordEndOutside recordEnd.toNat Layout.headerSize (fileSize data).toNat))
  else
    match ← followTables width (fileSize data) 0 recordEnd 0 buckets with
    | .error e => return .error e
    | .ok (last, total) =>
      if last ≠ fileSize data then
        return .error (.format last.toNat (.tablesEndEarly last.toNat (fileSize data).toNat))
      else return .ok ⟨buckets.toArray, width, total / 2⟩

/-- Reads the header of a file, or says what is wrong with it. -/
def parse (data : ByteArray) : Except Trap (Except Error Header) :=
  if data.size < Layout.headerSize then
    .ok (.error (.format 0 (.headerTooSmall (fileSize data).toNat)))
  else do
    let width ← detect data
    let buckets ← (List.range Layout.bucketCount).mapM fun i => readBucket data (.ofNat i)
    accept data width buckets

namespace Header

/-- Where the record region ends. -/
def recordEnd (h : Header) : Except Trap UInt64 := do
  let first ← item h.buckets 0
  return first.start

/-- The descriptor of a bucket. -/
def bucket (h : Header) (index : UInt64) : Except Trap Bucket := item h.buckets index

end Header

/-! ### Slots -/

/-- The slot at a position. -/
def readSlot (data : ByteArray) (pos : UInt64) (width : SlotWidth) :
    Except Trap (Except Error Slot) :=
  match (checkedAdd64 pos (.ofNat width.bytes)).bind fun stop => slice? data pos stop with
  | none => .ok (.error (.format pos.toNat .slotOutside))
  | some piece =>
    match width with
    | .narrow => do
      let hash ← read32 piece 0
      let offset ← read32 piece 4
      return .ok ⟨hash, none, offset.toUInt64⟩
    | .wide => do
      let hash ← read32 piece 0
      let keySize ← read32 piece 4
      let offset ← read64 piece 8
      return .ok ⟨hash, some keySize, offset⟩

/-! ### Records -/

/-- A record that was read, with its bytes. -/
structure Entry where
  offset : UInt64
  key : ByteArray
  value : ByteArray

/-- The stretch of `len` bytes from `offset` on, if it ends before `stop` and inside. -/
def stretch? (data : ByteArray) (offset len stop : UInt64) : Option ByteArray :=
  (checkedAdd64 offset len).bind fun last =>
    if stop.toNat < last.toNat then none else slice? data offset last

/-- The two lengths in front of a record. -/
def readLengths (data : ByteArray) (offset stop : UInt64) :
    Except Trap (Except Error (UInt32 × UInt32)) :=
  match stretch? data offset 8 stop with
  | none => .ok (.error (.format offset.toNat .recordHeaderTruncated))
  | some piece => do
    let keySize ← read32 piece 0
    let valueSize ← read32 piece 4
    return .ok (keySize, valueSize)

/-- The record at an offset.  Every byte of it must lie before `stop`. -/
def readEntry (data : ByteArray) (offset stop : UInt64) :
    Except Trap (Except Error Entry) := do
  match ← readLengths data offset stop with
  | .error e => return .error e
  | .ok (keySize, valueSize) =>
    let keyStart ← add64 offset 8
    match stretch? data keyStart keySize.toUInt64 stop with
    | none => return .error (.format offset.toNat (.keyTruncated keySize.toNat))
    | some key =>
      let valueStart ← add64 keyStart keySize.toUInt64
      match stretch? data valueStart valueSize.toUInt64 stop with
      | none => return .error (.format offset.toNat (.valueTruncated valueSize.toNat))
      | some value => return .ok ⟨offset, key, value⟩

/-- The offset behind a record. -/
def Entry.next (e : Entry) : Except Trap UInt64 := do
  let keyStart ← add64 e.offset 8
  let valueStart ← add64 keyStart (.ofNat e.key.size)
  add64 valueStart (.ofNat e.value.size)

/-- A record that was read lies where it was looked for. -/
theorem offset_of_readEntry {data : ByteArray} {offset stop : UInt64} {e : Entry}
    (h : readEntry data offset stop = .ok (.ok e)) : e.offset = offset := by
  obtain ⟨lengths, -, h⟩ := bind_eq_ok.1 h
  cases lengths with
  | error e => simp at h
  | ok sizes =>
    obtain ⟨keyStart, -, h⟩ := bind_eq_ok.1 h
    split at h
    · simp at h
    · obtain ⟨valueStart, -, h⟩ := bind_eq_ok.1 h
      split at h
      · simp at h
      · cases h
        rfl

/-- The offset behind a record is behind its start. -/
theorem Entry.lt_of_next {e : Entry} {n : UInt64} (h : e.next = .ok n) :
    e.offset.toNat < n.toNat := by
  obtain ⟨keyStart, hkey, h⟩ := bind_eq_ok.1 h
  obtain ⟨valueStart, hvalue, h⟩ := bind_eq_ok.1 h
  have hkeyStart := of_add64_eq_ok hkey
  have hvalueStart := of_add64_eq_ok hvalue
  have hnext := of_add64_eq_ok h
  have height : (8 : UInt64).toNat = 8 := rfl
  omega

end ConstDb.Machine
