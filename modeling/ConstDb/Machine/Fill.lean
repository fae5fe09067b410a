import ConstDb.Machine.Probe
import ConstDb.SlotTable

/-! # Filling a slot table with machine words

A slot table is filled in a buffer of zeros, as the machine does it: the search for a vacant slot
looks at the bytes in the buffer, and the entry is written over them.

The search is a loop without an end of its own: it goes on until it comes to a vacant slot.  Here it
looks at no more slots than its `patience` allows, and gives nothing when that runs out. -/

namespace ConstDb.Machine

/-- The bytes of a slot. -/
def slotPiece (table : ByteArray) (width : SlotWidth) (u : UInt32) : Except Trap ByteArray := do
  let start ← mul64 u.toUInt64 (.ofNat width.bytes)
  let stop ← add64 start (.ofNat width.bytes)
  slice table start stop

/-- Whether the bytes of a slot say that it is vacant. -/
def isVacant (width : SlotWidth) (piece : ByteArray) : Except Trap Bool :=
  match width with
  | .narrow => do
    let offset ← read32 piece 4
    return decide (offset = 0)
  | .wide => do
    let offset ← read64 piece 8
    return decide (offset = 0)

/-- Writes a slot over its bytes. -/
def writeSlot (table : ByteArray) (width : SlotWidth) (u : UInt32) (s : Slot) :
    Except Trap ByteArray := do
  let _ ← slotPiece table width u
  return Slot.write table (u.toNat * width.bytes) width s

/-- The first vacant slot from slot `u` on; the first slot is behind the last. -/
def seek (table : ByteArray) (width : SlotWidth) (slots : UInt32) :
    (patience : Nat) → UInt32 → Except Trap (Option UInt32)
  | 0, _ => .ok none
  | patience + 1, u => do
    let piece ← slotPiece table width u
    if ← isVacant width piece then return some u
    else
      let next ← add32 u 1
      seek table width slots patience (if next = slots then 0 else next)

/-- Writes an entry to the first vacant slot from the start slot of its hash on. -/
def place (width : SlotWidth) (slots : UInt32) (patience : Nat) (table : ByteArray)
    (e : IndexEntry) : Except Trap (Option ByteArray) := do
  let start ← startSlot e.hash slots
  match ← seek table width slots patience start with
  | none => return none
  | some u =>
    let table ← writeSlot table width u e.slot
    return some table

/-- Writes entries one after the other. -/
def placeAll (width : SlotWidth) (slots : UInt32) (patience : Nat) :
    (table : ByteArray) → List IndexEntry → Except Trap (Option ByteArray)
  | table, [] => .ok (some table)
  | table, e :: rest => do
    match ← place width slots patience table e with
    | none => return none
    | some table => placeAll width slots patience table rest

/-- The table of a bucket with the given entries: a buffer with two slots for each of them, in which
they are placed. -/
def fill (width : SlotWidth) (patience : Nat) (entries : List IndexEntry) :
    Except Trap (Option ByteArray) := do
  let slots ← mul32 (.ofNat entries.length) 2
  placeAll width slots patience (ByteArray.replicate (slots.toNat * width.bytes) 0) entries

end ConstDb.Machine
