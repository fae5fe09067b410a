/-! # Blank characters

The characters that count as white space around a setting: those with the Unicode property
`White_Space`.  `trim` removes them from both ends of a text. -/

namespace ConstDb.Text

/-- The ranges of code points with the property `White_Space`, both ends included. -/
def blankRanges : List (Nat × Nat) :=
  [(0x9, 0xd), (0x20, 0x20), (0x85, 0x85), (0xa0, 0xa0), (0x1680, 0x1680), (0x2000, 0x200a),
    (0x2028, 0x2029), (0x202f, 0x202f), (0x205f, 0x205f), (0x3000, 0x3000)]

/-- Whether a character is blank. -/
def isBlank (c : Char) : Bool :=
  blankRanges.any fun range => decide (range.1 ≤ c.toNat ∧ c.toNat ≤ range.2)

/-- Removes blank characters from the front. -/
def trimFront (cs : List Char) : List Char := cs.dropWhile isBlank

/-- Removes blank characters from both ends. -/
def trim (cs : List Char) : List Char := (trimFront (trimFront cs).reverse).reverse

/-- What core takes for white space is blank. -/
theorem isBlank_of_isWhitespace {c : Char} (h : c.isWhitespace = true) : isBlank c = true := by
  simp only [Char.isWhitespace, Bool.or_eq_true, decide_eq_true_eq] at h
  rcases h with ((rfl | rfl) | rfl) | rfl <;> decide

end ConstDb.Text
