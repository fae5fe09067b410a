import ConstDb.Record
import Std.Data.HashSet

/-! # One record for each key

`keepFirst` says which records stay when only the first of each key does.  `distinct` finds the same
records in one pass, with the set of the keys that it has met; `distinct_eq` is the main
statement. -/

namespace ConstDb.Record

/-- The records that are the first of their key, in order. -/
def keepFirst : List Record → List Record
  | [] => []
  | r :: rest => r :: (keepFirst rest).filter fun t => decide (t.key ≠ r.key)

/-- One pass over records: those with a key that is neither among those seen nor that of a record
before, behind the records that are kept already. -/
def distinctFrom (seen : Std.HashSet ByteArray) (kept : Array Record) :
    List Record → List Record
  | [] => kept.toList
  | r :: rest =>
    if seen.contains r.key then distinctFrom seen kept rest
    else distinctFrom (seen.insert r.key) (kept.push r) rest

/-- The first record of each key, in order. -/
def distinct (rs : List Record) : List Record := distinctFrom ∅ #[] rs

theorem distinctFrom_eq (seen : Std.HashSet ByteArray) (kept : Array Record) (rs : List Record) :
    distinctFrom seen kept rs =
      kept.toList ++ (keepFirst rs).filter fun t => !seen.contains t.key := by
  induction rs generalizing seen kept with
  | nil => simp [distinctFrom, keepFirst]
  | cons r rest ih =>
    rw [distinctFrom, keepFirst, List.filter_cons, List.filter_filter]
    by_cases h : seen.contains r.key
    · -- The key of `r` is seen already, so no record with that key is left anyway.
      have hfilter (t : Record) :
          (!seen.contains t.key && decide (t.key ≠ r.key)) = !seen.contains t.key := by
        by_cases ht : t.key = r.key
        · simp [ht, h]
        · simp [ht]
      simp only [h, if_true, ih, hfilter]
      simp
    · have hfilter (t : Record) :
          (!seen.contains t.key && decide (t.key ≠ r.key)) =
            !(seen.insert r.key).contains t.key := by
        rw [Std.HashSet.contains_insert]
        by_cases ht : t.key = r.key
        · simp [ht]
        · have hne : (r.key == t.key) = false := beq_eq_false_iff_ne.2 (Ne.symm ht)
          simp [ht, hne]
      simp only [h, ih, hfilter]
      simp

/-- One pass finds the records that are the first of their key. -/
theorem distinct_eq (rs : List Record) : distinct rs = keepFirst rs := by
  simp [distinct, distinctFrom_eq]

end ConstDb.Record
