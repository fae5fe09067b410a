/-! # Numbers as text

Hexadecimal texts of a fixed least width, in lower case, and left-justified columns.  Decimal texts
are core's `toString` on natural numbers.

To read, `ofDigits?` says what digits stand for, however many they are.  Where only numbers up to a
limit count, `atMost?` reads the same (`atMost?_eq_filter`), but it stops at the first digit that
goes over the limit, so that a long text costs no more than its characters. -/

namespace ConstDb.Text

/-- Puts `fill` in front of a text until it has at least `width` characters. -/
def padLeft (fill : Char) (width : Nat) (s : String) : String :=
  String.ofList (List.replicate (width - s.length) fill) ++ s

/-- Puts `fill` after a text until it has at least `width` characters. -/
def padRight (fill : Char) (width : Nat) (s : String) : String :=
  s ++ String.ofList (List.replicate (width - s.length) fill)

/-- A number in lower-case hexadecimal, with at least `width` digits, after the mark `0x`. -/
def hex (width n : Nat) : String :=
  "0x" ++ padLeft '0' width (String.ofList (Nat.toDigits 16 n))

/-- The value of a digit in a base of at most ten. -/
def digit? (base : Nat) (c : Char) : Option Nat :=
  if '0'.toNat ≤ c.toNat ∧ c.toNat < '0'.toNat + base then some (c.toNat - '0'.toNat) else none

/-- The number that digits stand for, behind digits that stand for `n`. -/
def ofDigits? (base n : Nat) : List Char → Option Nat
  | [] => some n
  | c :: rest =>
    match digit? base c with
    | none => none
    | some d => ofDigits? base (n * base + d) rest

/-- The number that digits stand for, behind digits that stand for `n`, if it is within a limit. -/
def atMost? (base limit n : Nat) (cs : List Char) : Option Nat :=
  if limit < n then none
  else
    match cs with
    | [] => some n
    | c :: rest =>
      match digit? base c with
      | none => none
      | some d => atMost? base limit (n * base + d) rest

/-- More digits never make a number smaller. -/
theorem le_of_ofDigits?_eq_some {base n m : Nat} {cs : List Char} (hbase : 0 < base)
    (h : ofDigits? base n cs = some m) : n ≤ m := by
  induction cs generalizing n with
  | nil =>
    obtain rfl : n = m := by simpa [ofDigits?] using h
    exact Nat.le_refl n
  | cons c rest ih =>
    rw [ofDigits?] at h
    cases hd : digit? base c with
    | none => simp [hd] at h
    | some d =>
      have hle := ih (by simpa [hd] using h)
      have := Nat.le_mul_of_pos_right n hbase
      omega

/-- Stopping early loses no number that is within the limit. -/
theorem atMost?_eq_filter {base : Nat} (limit n : Nat) (cs : List Char) (hbase : 0 < base) :
    atMost? base limit n cs = (ofDigits? base n cs).filter fun m => decide (m ≤ limit) := by
  induction cs generalizing n with
  | nil => by_cases h : limit < n <;> simp [atMost?, ofDigits?, h, Option.filter]
  | cons c rest ih =>
    rw [atMost?]
    by_cases h : limit < n
    · rw [if_pos h]
      cases hv : ofDigits? base n (c :: rest) with
      | none => rfl
      | some m =>
        have hle := le_of_ofDigits?_eq_some hbase hv
        have hm : ¬ m ≤ limit := by omega
        simp [Option.filter, hm]
    · rw [if_neg h, ofDigits?]
      cases digit? base c with
      | none => rfl
      | some d => exact ih (n * base + d)

end ConstDb.Text
