import ConstDb.Bytes
import ConstDb.Text.Number

/-! # The djb hash

Keys are placed by a 32-bit hash: the state starts at 5381 and every byte `c` turns a state `h` into
`(h * 33) xor c`, modulo `2 ^ 32`.  The low 8 bits of a hash choose one of the 256 buckets
(`bucketOf`), the other bits the slot where the search in that bucket starts (`startSlot`).

Hashing in pieces gives the same as hashing in one go (`update_append`). -/

namespace ConstDb

namespace Hash

/-- The state before any byte. -/
def initial : UInt32 := 5381

/-- Takes one byte into a state. -/
def step (h : UInt32) (c : UInt8) : UInt32 := (h + (h <<< 5)) ^^^ c.toUInt32

/-- Takes all bytes of `bytes` into a state, in order. -/
def update (h : UInt32) (bytes : ByteArray) : UInt32 := bytes.data.foldl step h

/-- The hash of a byte string. -/
def ofBytes (bytes : ByteArray) : UInt32 := update initial bytes

@[simp] theorem update_empty (h : UInt32) : update h ByteArray.empty = h := rfl

theorem update_append (h : UInt32) (a b : ByteArray) :
    update h (a ++ b) = update (update h a) b := by
  simp [update, ByteArray.data_append]

/-- The bucket that a hash belongs to: its low 8 bits. -/
def bucketOf (hash : UInt32) : Fin 256 :=
  ⟨hash.toNat % 256, Nat.mod_lt _ (by decide)⟩

/-- The slot where the search for a hash starts, in a table of `slots` slots. -/
def startSlot (hash : UInt32) (slots : Nat) : Nat := (hash.toNat / 256) % slots

theorem startSlot_lt (hash : UInt32) {slots : Nat} (h : 0 < slots) :
    startSlot hash slots < slots :=
  Nat.mod_lt _ h

end Hash

/-- A hash in the making, for a byte string that arrives in pieces. -/
structure Hasher where
  state : UInt32
deriving DecidableEq, Repr

namespace Hasher

/-- The hasher that has seen no byte. -/
def new : Hasher := ⟨Hash.initial⟩

/-- Feeds one more piece. -/
def update (h : Hasher) (piece : ByteArray) : Hasher := ⟨Hash.update h.state piece⟩

/-- The hash of everything fed so far, widened to 64 bits. -/
def finish (h : Hasher) : UInt64 := h.state.toUInt64

/-- A line that describes a hasher. -/
def describe (h : Hasher) : String :=
  "DjbHasher \x7b state: " ++ Text.hex 8 h.state.toNat ++ " \x7d"

end Hasher

end ConstDb
