import ConstDb.Image.Basic
import ConstDb.Layout.Slot

/-! # Probing the index

A probe looks for the records of one key.  It starts at the slot that the hash of the key names in
the table of its bucket and goes from slot to slot, from the last back to the first.  A vacant slot
ends it, and so does having looked at as many entries as the table has slots.  In between it stops
at each record that has the key (a `Hit`), and goes on from there when it is asked again.

Slots may name any offset.  The probe reads a record only when the slot carries the hash of the key,
and a record that does not fit the record region is an error. -/

namespace ConstDb

/-- A record that a probe met, and how many entries it had looked at by then. -/
structure Hit where
  stored : Stored
  probes : Nat

namespace Hit

/-- The value that was found. -/
def value (image : Image) (h : Hit) : ByteArray := h.stored.value image.bytes

end Hit

/-- A search for the records of a key, between two hits.  It holds no key: whoever goes on with it
has to know which one it is for. -/
structure Probe where
  /-- The hash that the probe looks for in the slots, worked out once. -/
  hash : UInt32
  bucket : Bucket
  /-- The slot to look at next. -/
  slot : Nat
  /-- How many entries were looked at. -/
  probed : Nat
deriving DecidableEq, Repr

namespace Probe

/-- How many slots the table has. -/
@[inline] def slotCount (p : Probe) : Nat := p.bucket.slots.toNat

/-- The probe for a key before its first step; none when the bucket of the key has no slots. -/
def start? (image : Image) (key : ByteArray) : Option Probe :=
  let hash := Hash.ofBytes key
  let bucket := image.header.bucket (Hash.bucketOf hash)
  if bucket.slots = 0 then none
  else some ⟨hash, bucket, Hash.startSlot hash bucket.slots.toNat, 0⟩

/-- Where the slot to look at next is stored. -/
@[inline] def slotPosition (p : Probe) (width : SlotWidth) : Nat :=
  p.bucket.start.toNat + p.slot * width.bytes

/-- Turns to the slot behind; the first one is behind the last. -/
@[inline] def turn (p : Probe) : Probe :=
  { p with slot := if p.slot + 1 = p.slotCount then 0 else p.slot + 1 }

/-- Counts an entry that was looked at. -/
@[inline] def tick (p : Probe) : Probe := { p with probed := p.probed + 1 }

/-- The probe that will find nothing more. -/
def exhausted (p : Probe) : Probe := { p with probed := p.slotCount }

/-- Whether the entry of a slot leads to a record with a key of the given hash, and to which. -/
@[inline] def examine (image : Image) (hash : UInt32) (key : ByteArray) (slot : Slot) :
    Except Error (Option Stored) :=
  if slot.hash ≠ hash then .ok none
  else if slot.keySize.any fun size => decide (size.toNat ≠ key.size) then .ok none
  else
    match Stored.announced image.bytes slot.offset.toNat image.recordEnd with
    | .error e => .error e
    | .ok s =>
      -- A key of another length settles it before the fields are looked at, damaged or not.
      if s.keySize ≠ key.size then .ok none
      else
        match s.check image.bytes image.recordEnd with
        | .error e => .error e
        | .ok () => if s.key image.bytes = key then .ok (some s) else .ok none

/-- Goes on to the next record of the key.  The result is that record, or nothing when there is no
more, or the error that was met; and the probe behind it. -/
def next (image : Image) (key : ByteArray) (p : Probe) : Except Error (Option Hit) × Probe :=
  if _h : p.probed < p.slotCount then
    match Slot.read image.bytes (p.slotPosition image.width) image.width with
    | .error e => (.error e, p)
    | .ok slot =>
      -- A vacant slot ends the search and does not count as an entry.
      if slot.isVacant then (.ok none, p.turn.exhausted)
      else
        match examine image p.hash key slot with
        | .error e => (.error e, p.turn.tick)
        | .ok (some stored) => (.ok (some ⟨stored, p.probed + 1⟩), p.turn.tick)
        | .ok none => next image key p.turn.tick
  else (.ok none, p.exhausted)
termination_by p.slotCount - p.probed
decreasing_by
  simp only [slotCount, turn, tick] at *
  omega

/-- A probe that hit stays in its table and has looked at more entries. -/
theorem probed_lt_of_next {image : Image} {key : ByteArray} {p q : Probe} {hit : Hit}
    (h : p.next image key = (.ok (some hit), q)) :
    p.probed < q.probed ∧ q.probed ≤ q.slotCount ∧ q.slotCount = p.slotCount := by
  fun_induction next image key p with
  | case1 => simp at h
  | case2 => simp at h
  | case3 => simp at h
  | case4 p hlt slot _ _ stored _ =>
    simp only [Prod.mk.injEq] at h
    obtain ⟨_, rfl⟩ := h
    exact ⟨Nat.lt_succ_self _, hlt, rfl⟩
  | case5 p hlt slot _ _ _ ih =>
    obtain ⟨hlt', hle, heq⟩ := ih h
    exact ⟨Nat.lt_of_succ_lt hlt', hle, heq⟩
  | case6 => simp at h

/-- All hits of a probe from where it stands. -/
def hits (image : Image) (key : ByteArray) (p : Probe) : Walk Hit :=
  match _h : p.next image key with
  | (.error e, _) => .failed e
  | (.ok none, _) => .empty
  | (.ok (some hit), q) => .cons hit (q.hits image key)
termination_by p.slotCount - p.probed
decreasing_by
  have := probed_lt_of_next _h
  omega

/-- The first hit for which `f` has an answer, without going on behind it. -/
def firstSome {α : Type} (image : Image) (key : ByteArray) (f : Hit → Option α) (p : Probe) :
    Except Error (Option α) :=
  match _h : p.next image key with
  | (.error e, _) => .error e
  | (.ok none, _) => .ok none
  | (.ok (some hit), q) =>
    match f hit with
    | some a => .ok (some a)
    | none => q.firstSome image key f
termination_by p.slotCount - p.probed
decreasing_by
  have := probed_lt_of_next _h
  omega

/-- Stopping early finds what a look through all hits finds. -/
theorem firstSome_eq {α : Type} (image : Image) (key : ByteArray) (f : Hit → Option α)
    (p : Probe) : p.firstSome image key f = (p.hits image key).firstSome f := by
  fun_induction firstSome image key f p with
  | case1 p e q h => rw [hits]; split <;> simp_all
  | case2 p q h => rw [hits]; split <;> simp_all
  | case3 p hit q h a ha => rw [hits]; split <;> simp_all [Walk.firstSome_cons]
  | case4 p hit q h hf ih => rw [hits]; split <;> simp_all [Walk.firstSome_cons]

end Probe

end ConstDb
