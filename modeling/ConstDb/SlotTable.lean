import ConstDb.Hash
import ConstDb.Layout.Slot

/-! # Slot tables

The slot table of a bucket is filled by linear probing: an entry goes to the first vacant slot from
the one that its hash names, and from the last slot on to the first.  A table has two slots for each
entry, so there is always a vacant one, and a search for an absent hash soon meets one.

Entries are placed in the order in which their records were added.  Entries of equal hash therefore
lie along their probe sequence in that order. -/

namespace ConstDb

/-- What the index remembers of a record: the hash and the length of its key, and its offset. -/
structure IndexEntry where
  hash : UInt32
  keySize : UInt32
  offset : UInt64
deriving DecidableEq, Repr

/-- The slot that stores an entry. -/
def IndexEntry.slot (e : IndexEntry) : Slot := ⟨e.hash, some e.keySize, e.offset⟩

/-- The bucket of an entry. -/
def IndexEntry.bucket (e : IndexEntry) : Fin 256 := Hash.bucketOf e.hash

/-- The slots of a bucket. -/
abbrev SlotTable := Array Slot

namespace SlotTable

/-- A table of vacant slots. -/
def vacant (slots : Nat) : SlotTable := Array.replicate slots Slot.vacant

/-- The slot behind slot `i`; the first one is behind the last. -/
def after (t : SlotTable) (i : Nat) : Nat := if i + 1 = t.size then 0 else i + 1

/-- The first vacant slot among the next `count`, from slot `i` on. -/
def vacantFrom? (t : SlotTable) (i : Nat) : (count : Nat) → Option Nat
  | 0 => none
  | count + 1 =>
    if t[i]?.any Slot.isVacant then some i else t.vacantFrom? (t.after i) count

/-- Places an entry into the first vacant slot of its probe sequence.  A full table stays as it
is. -/
def place (t : SlotTable) (e : IndexEntry) : SlotTable :=
  match t.vacantFrom? (Hash.startSlot e.hash t.size) t.size with
  -- Cannot happen in a table with two slots for each entry.
  | none => t
  | some i => t.setIfInBounds i e.slot

/-- The table of a bucket with the given entries. -/
def ofEntries (entries : List IndexEntry) : SlotTable :=
  entries.foldl place (vacant (2 * entries.length))

@[simp] theorem size_place (t : SlotTable) (e : IndexEntry) : (t.place e).size = t.size := by
  unfold place
  split <;> simp

theorem size_foldl_place (entries : List IndexEntry) (t : SlotTable) :
    (entries.foldl place t).size = t.size := by
  induction entries generalizing t with
  | nil => rfl
  | cons e rest ih => rw [List.foldl_cons, ih, size_place]

/-- A table has two slots for each entry. -/
@[simp] theorem size_ofEntries (entries : List IndexEntry) :
    (ofEntries entries).size = 2 * entries.length := by
  rw [ofEntries, size_foldl_place]
  simp [vacant]

/-- The bytes of a table. -/
def encode (t : SlotTable) (width : SlotWidth) : ByteArray :=
  t.foldl (fun bytes s => bytes ++ s.encode width) ByteArray.empty

end SlotTable

end ConstDb
