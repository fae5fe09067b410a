import ConstDb.Machine.Word
import ConstDb.Settings

/-! # Reading permission bits with machine words

The number that octal digits stand for, added up in a word of 32 bits, as the machine does it.  A
product or a sum that does not fit ends the reading: such digits stand for no word. -/

namespace ConstDb.Machine

/-- The sum of two words of 32 bits, if it fits. -/
def checkedAdd32 (a b : UInt32) : Option UInt32 :=
  if a.toNat + b.toNat < 2 ^ 32 then some (a + b) else none

/-- The product of two words of 32 bits, if it fits. -/
def checkedMul32 (a b : UInt32) : Option UInt32 :=
  if a.toNat * b.toNat < 2 ^ 32 then some (a * b) else none

/-- The word that digits stand for, behind digits that stand for `w`. -/
def wordOfDigits? (base w : UInt32) : List Char → Option UInt32
  | [] => some w
  | c :: rest => do
    let d ← Text.digit? base.toNat c
    let shifted ← checkedMul32 w base
    let w ← checkedAdd32 shifted (.ofNat d)
    wordOfDigits? base w rest

/-- The word that a number in a base stands for.  It has a digit, and may have a plus sign. -/
def wordOfRadix? (base : UInt32) (cs : List Char) : Option UInt32 :=
  match Settings.dropPlus cs with
  | [] => none
  | digits => wordOfDigits? base 0 digits

/-- Permission bits, written in octal. -/
def parseMode (text : String) : Option UInt32 :=
  (wordOfRadix? 8 (Settings.dropOctalMark (Text.trim text.toList))).filter
    fun m => decide (m.toNat ≤ 0o7777)

section

variable {a b : UInt32} {m n : Nat}

theorem checkedAdd32_eq (ha : a.toNat = m) (hb : b.toNat = n) :
    checkedAdd32 a b = if m + n < 2 ^ 32 then some (.ofNat (m + n)) else none := by
  subst ha hb
  have hsum : a + b = .ofNat (a.toNat + b.toNat) := by
    apply UInt32.toNat_inj.1
    rw [UInt32.toNat_add, UInt32.toNat_ofNat']
  rw [checkedAdd32, hsum]

theorem checkedMul32_eq (ha : a.toNat = m) (hb : b.toNat = n) :
    checkedMul32 a b = if m * n < 2 ^ 32 then some (.ofNat (m * n)) else none := by
  subst ha hb
  have hproduct : a * b = .ofNat (a.toNat * b.toNat) := by
    apply UInt32.toNat_inj.1
    rw [UInt32.toNat_mul, UInt32.toNat_ofNat']
  rw [checkedMul32, hproduct]

end

end ConstDb.Machine
