import ConstDb.Proofs.RecordText.Grammar

/-! # Readings that give up in time

A reading is prompt if it gives up on a text as soon as it may: behind the first byte with which no
continuation can be read any more, or at the end of a text that still has one.  One reading behind
another is prompt if both are (`Reading.Prompt.andThen`), so it is enough to look at the parts of a
line: lengths, fields and the bytes between them.

## Key results

- `Reading.GivesUp.behind`: giving up behind something that was taken
- `Reading.Prompt.andThen`: prompt readings, one behind the other
- `Source.prompt_lineTail`: all that follows the plus sign of a line
-/

namespace ConstDb

namespace Source

open RecordText

/-- What takes a value from the front of a text. -/
abbrev Reading (α : Type) := Source → Except Error (α × Source)

namespace Reading

variable {α β : Type}

/-- Wherever these bytes stand, they are taken for this value, and nothing behind them is. -/
def Reads (f : Reading α) (taken : List UInt8) (a : α) : Prop :=
  ∀ s bs, s.rest = taken ++ bs → ∃ t, f s = .ok (a, t) ∧ t.rest = bs

/-- Some continuation of these bytes is read. -/
def Continues (f : Reading α) (front : List UInt8) : Prop :=
  ∃ more a, f.Reads (front ++ more) a

/-- No continuation of these bytes is read. -/
def Spoiled (f : Reading α) (front : List UInt8) : Prop :=
  ∀ s more, s.rest = front ++ more → ∀ p, f s ≠ .ok p

/-- How many bytes of a text are looked at until it is given up: all up to the first one that spoils
it, or the whole text if it just ends too early. -/
inductive GivesUp (f : Reading α) : List UInt8 → Nat → Prop where
  | atByte {front back : List UInt8} {b : UInt8} (continues : f.Continues front)
      (spoiled : f.Spoiled (front ++ [b])) : GivesUp f (front ++ b :: back) (front.length + 1)
  | atEnd {text : List UInt8} (continues : f.Continues text) : GivesUp f text text.length

/-- A reading that gives up as soon as it may. -/
structure Prompt (f : Reading α) : Prop where
  continues : f.Continues []
  takes : ∀ {s t a}, f s = .ok (a, t) →
    ∃ taken, s.Takes taken t ∧ t.offset = s.offset + taken.length ∧ f.Reads taken a
  givesUp : ∀ {s e}, s.fault = none → f s = .error e →
    ∃ n reason, e = .format (s.offset + n) reason ∧ f.GivesUp s.rest n

/-- A reading that has to be taken up behind some bytes gives up behind them where the rest does. -/
theorem GivesUp.behind {f : Reading α} {g : Reading β} {text : List UInt8} {n : Nat}
    (h : g.GivesUp text n) (taken : List UInt8)
    (hcontinues : ∀ {front}, g.Continues front → f.Continues (taken ++ front))
    (hspoiled : ∀ {front}, g.Spoiled front → f.Spoiled (taken ++ front)) :
    f.GivesUp (taken ++ text) (taken.length + n) := by
  cases h with
  | @atByte front back b hfront hbyte =>
    have hbyte' := hspoiled hbyte
    rw [← List.append_assoc] at hbyte'
    have h : f.GivesUp (taken ++ front ++ b :: back) _ := .atByte (hcontinues hfront) hbyte'
    rwa [List.append_assoc, List.length_append, Nat.add_assoc] at h
  | atEnd htext =>
    have h := GivesUp.atEnd (hcontinues htext)
    rwa [List.length_append] at h

/-! ### One reading behind another -/

/-- Reads on with what was read. -/
def andThen (f : Reading α) (g : α → Reading β) : Reading β := fun s =>
  match f s with
  | .error e => .error e
  | .ok (a, t) => g a t

section

variable {f : Reading α} {g : α → Reading β} {a : α} {taken front : List UInt8}

theorem Reads.andThen {b : β} {taken' : List UInt8} (hf : f.Reads taken a)
    (hg : (g a).Reads taken' b) : (f.andThen g).Reads (taken ++ taken') b := by
  intro s bs h
  rw [List.append_assoc] at h
  obtain ⟨t, hfirst, hrest⟩ := hf s _ h
  obtain ⟨u, hsecond, hrest'⟩ := hg t bs hrest
  refine ⟨u, ?_, hrest'⟩
  simp only [Reading.andThen, hfirst, hsecond]

/-- What can be continued for the first reading can be continued for both. -/
theorem Continues.andThen (hf : f.Continues front) (hg : ∀ a, (g a).Continues []) :
    (f.andThen g).Continues front := by
  obtain ⟨more, a, hfirst⟩ := hf
  obtain ⟨more', b, hsecond⟩ := hg a
  exact ⟨more ++ more', b, by rw [← List.append_assoc]; exact hfirst.andThen hsecond⟩

theorem Reads.continues_andThen (hf : f.Reads taken a) (hg : (g a).Continues front) :
    (f.andThen g).Continues (taken ++ front) := by
  obtain ⟨more, b, hsecond⟩ := hg
  exact ⟨more, b, by rw [List.append_assoc]; exact hf.andThen hsecond⟩

theorem Spoiled.andThen (hf : f.Spoiled front) : (f.andThen g).Spoiled front := by
  intro s more h p hread
  rw [Reading.andThen] at hread
  split at hread
  · cases hread
  · rename_i hfirst
    exact hf s more h _ hfirst

theorem Reads.spoiled_andThen (hf : f.Reads taken a) (hg : (g a).Spoiled front) :
    (f.andThen g).Spoiled (taken ++ front) := by
  intro s more h p hread
  rw [List.append_assoc] at h
  obtain ⟨t, hfirst, hrest⟩ := hf s _ h
  rw [Reading.andThen, hfirst] at hread
  exact hg t more hrest p hread

/-- Prompt readings, one behind the other, are a prompt reading. -/
theorem Prompt.andThen (hf : f.Prompt) (hg : ∀ a, (g a).Prompt) : (f.andThen g).Prompt where
  continues := hf.continues.andThen fun a => (hg a).continues
  takes {s u b} h := by
    rw [Reading.andThen] at h
    split at h
    · cases h
    · rename_i a t hfirst
      obtain ⟨taken, htakes, hoffset, hreads⟩ := hf.takes hfirst
      obtain ⟨taken', htakes', hoffset', hreads'⟩ := (hg a).takes h
      refine ⟨taken ++ taken', htakes.append htakes', ?_, hreads.andThen hreads'⟩
      rw [hoffset', hoffset, List.length_append, Nat.add_assoc]
  givesUp {s e} hfault h := by
    rw [Reading.andThen] at h
    split at h
    · rename_i e' hfirst
      cases h
      obtain ⟨n, reason, he, hgives⟩ := hf.givesUp hfault hfirst
      -- The flaw lies in the first reading, so nothing is taken in front of it.
      have hboth := hgives.behind (f := f.andThen g) []
        (fun hfront => hfront.andThen fun a => (hg a).continues) Spoiled.andThen
      exact ⟨n, reason, he, by simpa using hboth⟩
    · rename_i a t hfirst
      obtain ⟨taken, htakes, hoffset, hreads⟩ := hf.takes hfirst
      obtain ⟨n, reason, he, hgives⟩ := (hg a).givesUp (htakes.fault_eq.trans hfault) h
      -- The flaw lies in the second reading, behind what the first one took.
      refine ⟨taken.length + n, reason, by rw [he, hoffset, Nat.add_assoc], ?_⟩
      rw [htakes.rest_eq]
      exact hgives.behind taken hreads.continues_andThen hreads.spoiled_andThen

end

/-- Reads nothing. -/
def done (a : α) : Reading α := fun s => .ok (a, s)

theorem reads_done (a : α) : (done a).Reads [] a := fun s _ h => ⟨s, rfl, h⟩

theorem prompt_done (a : α) : (done a).Prompt where
  continues := ⟨[], a, reads_done a⟩
  takes h := by
    cases h
    exact ⟨[], ⟨rfl, rfl⟩, rfl, reads_done a⟩
  givesUp _ h := by cases h

/-! ### Byte by byte -/

/-- Of a text that starts with this byte, one reading takes it and leaves the rest to another. -/
def Passes (f : Reading α) (b : UInt8) (g : Reading α) : Prop :=
  ∀ {s bs}, s.rest = b :: bs → f s = g s.next

section

variable {f g : Reading α} {b : UInt8}

theorem Passes.reads (h : f.Passes b g) {taken : List UInt8} {a : α} (hg : g.Reads taken a) :
    f.Reads (b :: taken) a := by
  intro s bs hs
  rw [h hs]
  exact hg s.next bs (byte_of_rest_eq_cons hs).2

theorem Passes.givesUp (h : f.Passes b g) {text : List UInt8} {n : Nat} (hg : g.GivesUp text n) :
    f.GivesUp (b :: text) (1 + n) := by
  refine hg.behind [b] (fun ⟨more, a, hreads⟩ => ⟨more, a, h.reads hreads⟩) ?_
  intro front hspoiled s more hs
  rw [h hs]
  exact hspoiled s.next more (byte_of_rest_eq_cons hs).2

/-- A reading that fails at the first byte, whatever stands behind it, gives up there. -/
theorem givesUp_first (hcontinues : f.Continues [])
    (h : ∀ {s bs}, s.rest = b :: bs → ∃ e, f s = .error e) {back : List UInt8} :
    f.GivesUp (b :: back) 1 := by
  have hspoiled : f.Spoiled ([] ++ [b]) := by
    intro s more hs p hread
    obtain ⟨e, herror⟩ := h hs
    cases herror.symm.trans hread
  exact .atByte hcontinues hspoiled

end

end Reading

open Reading

variable {s t : Source} {b : UInt8} {bs : List UInt8}

/-- What was taken is as long as the way that the offset went. -/
theorem Takes.offset_eq {taken : List UInt8} (h : s.Takes taken t)
    (hend : t.offset + t.rest.length = s.offset + s.rest.length) :
    t.offset = s.offset + taken.length := by
  rw [h.rest_eq, List.length_append] at hend
  omega

/-- Taking a byte leaves the end of the text where it is. -/
theorem end_next (h : s.offset < s.bytes.size) :
    s.next.offset + s.next.rest.length = s.offset + s.rest.length := by
  have hoffset : s.next.offset = s.offset + 1 := rfl
  rw [rest_eq_cons h, List.length_cons]
  omega

/-! ### The bytes between the fields -/

/-- Takes the byte of a character. -/
def skip (c : Char) : Reading Unit := fun s => (s.expect c).map fun t => ((), t)

/-- What a byte is expected of that starts the text. -/
theorem expect_of_rest_eq_cons (c : Char) (h : s.rest = b :: bs) :
    s.expect c = if b.toNat = c.toNat then .ok s.next
      else .error (.format s.next.offset (.expectedByte c b)) := by
  rw [expect, (byte_of_rest_eq_cons h).1]

/-- And at the end of the text. -/
theorem expect_of_rest_eq_nil (c : Char) (h : s.rest = []) (hfault : s.fault = none) :
    s.expect c = .error (.format s.offset (.endExpectingByte c)) := by
  rw [expect, byte_of_rest_eq_nil h, hfault]

theorem prompt_skip {c : Char} (hc : (byteOf c).toNat = c.toNat) : Prompt (skip c) := by
  -- Of a text that starts with the byte the whole reading is to go on behind it.
  have hpasses : Passes (skip c) (byteOf c) (done ()) := by
    intro s bs h
    rw [skip, expect_of_rest_eq_cons c h, if_pos hc]
    rfl
  have hreads : Reads (skip c) [byteOf c] () := hpasses.reads (reads_done ())
  have hcontinues : Continues (skip c) [] := ⟨_, _, hreads⟩
  refine ⟨hcontinues, fun {s t a} h => ?takes, fun {s e} hfault h => ?givesUp⟩
  case takes =>
    rw [skip] at h
    obtain ⟨u, hexpect, heq⟩ := map_eq_ok.1 h
    cases heq
    have htakes := takes_of_expect hexpect
    rw [expect_of_rest_eq_cons c htakes.rest_eq, if_pos hc] at hexpect
    cases hexpect
    exact ⟨_, htakes, rfl, hreads⟩
  case givesUp =>
    cases hrest : s.rest with
    | nil =>
      rw [skip, expect_of_rest_eq_nil c hrest hfault] at h
      cases h
      exact ⟨0, _, rfl, .atEnd hcontinues⟩
    | cons b bs =>
      have hne : b.toNat ≠ c.toNat := by
        intro heq
        rw [skip, expect_of_rest_eq_cons c hrest, if_pos heq] at h
        cases h
      -- Another byte spoils the text at once, whatever follows.
      have herror {u : Source} {more : List UInt8} (hu : u.rest = b :: more) :
          skip c u = .error (.format u.next.offset (.expectedByte c b)) := by
        rw [skip, expect_of_rest_eq_cons c hu, if_neg hne]
        rfl
      cases h.symm.trans (herror hrest)
      exact ⟨1, _, rfl, givesUp_first hcontinues fun hu => ⟨_, herror hu⟩⟩

/-! ### Lengths -/

section

variable {c : Char} {n : Nat} {seen : Bool}

/-- How a byte that starts the text goes on with a length. -/
theorem lengthFrom_of_rest_eq_cons (h : s.rest = b :: bs) :
    lengthFrom c s n seen =
      match digit? b with
      | some d =>
        if 0x100000000 ≤ n * 10 + d then .error (.format s.next.offset .lengthOverflow)
        else lengthFrom c s.next (n * 10 + d) true
      | none =>
        if b.toNat = c.toNat ∧ seen = true then .ok (n, s.next)
        else .error (.format s.next.offset (.expectedDigit c b)) := by
  have hlt : s.offset < s.bytes.size := by
    have hlength := congrArg List.length h
    rw [length_rest, left, List.length_cons] at hlength
    omega
  rw [rest_eq_cons hlt] at h
  obtain ⟨rfl, -⟩ := List.cons.inj h
  rw [lengthFrom]
  exact dif_pos hlt

/-- The digits of a length are taken with a terminator. -/
theorem reads_lengthFrom (hc : (byteOf c).toNat = c.toNat) (hdigit : digit? (byteOf c) = none)
    {ds : List UInt8} (hds : ∀ d ∈ ds, IsDigit d) (hfits : valueFrom n ds < 0x100000000)
    (hseen : seen = true ∨ ds ≠ []) :
    Reads (fun s => lengthFrom c s n seen) (ds ++ [byteOf c]) (valueFrom n ds) := by
  intro s bs h
  rw [List.append_assoc] at h
  exact lengthFrom_of_rest h hds hc hdigit hfits hseen

/-- The end of the text stays where it is while a length is taken. -/
theorem end_of_lengthFrom {m : Nat} (h : lengthFrom c s n seen = .ok (m, t)) :
    t.offset + t.rest.length = s.offset + s.rest.length := by
  fun_induction lengthFrom c s n seen with
  | case1 => cases h
  | case2 s n seen hlt b d hd hsmall ih => exact (ih h).trans (end_next hlt)
  | case3 s n seen hlt =>
    cases h
    exact end_next hlt
  | case4 => cases h
  | case5 => cases h
  | case6 => cases h

/-- Some length can always be read, as long as the digits before fit. -/
theorem continues_lengthFrom (hc : (byteOf c).toNat = c.toNat)
    (hdigit : digit? (byteOf c) = none) (hn : n < 0x100000000) (hseen : seen = true ∨ n = 0) :
    Continues (fun s => lengthFrom c s n seen) [] := by
  obtain hseen | rfl := hseen
  · have hnone : ∀ d ∈ ([] : List UInt8), IsDigit d := fun d hd => absurd hd List.not_mem_nil
    exact ⟨_, _, reads_lengthFrom hc hdigit hnone hn (.inl hseen)⟩
  · -- Without a digit before there has to be one, and zero will do.
    have hzero : ∀ d ∈ [byteOf '0'], IsDigit d := List.forall_mem_singleton.2 (by decide)
    have hreads : Reads (fun s => lengthFrom c s 0 seen) _ _ :=
      reads_lengthFrom hc hdigit hzero (by decide) (.inr (by simp))
    exact ⟨_, _, hreads⟩

theorem givesUp_lengthFrom (hc : (byteOf c).toNat = c.toNat) (hdigit : digit? (byteOf c) = none)
    (hn : n < 0x100000000) (hseen : seen = true ∨ n = 0) (hfault : s.fault = none) {e : Error}
    (h : lengthFrom c s n seen = .error e) :
    ∃ k reason, e = .format (s.offset + k) reason ∧
      GivesUp (fun s => lengthFrom c s n seen) s.rest k := by
  -- A digit that fits passes the question on to the rest; every other way to fail decides at once.
  fun_induction lengthFrom c s n seen with
  | case1 s n seen hlt b d hd hbig =>
    cases h
    have herror {u : Source} {more : List UInt8} (hu : u.rest = b :: more) :
        lengthFrom c u n seen = .error (.format u.next.offset .lengthOverflow) := by
      rw [lengthFrom_of_rest_eq_cons hu, hd]
      exact if_pos hbig
    rw [rest_eq_cons hlt]
    exact ⟨1, _, rfl, givesUp_first (continues_lengthFrom hc hdigit hn hseen) fun hu =>
      ⟨_, herror hu⟩⟩
  | case2 s n seen hlt b d hd hsmall ih =>
    obtain ⟨k, reason, rfl, hgives⟩ := ih (Nat.lt_of_not_le hsmall) (.inl rfl) hfault h
    have hpasses : Passes (fun s => lengthFrom c s n seen) b
        (fun s => lengthFrom c s (n * 10 + d) true) := by
      intro u more hu
      show lengthFrom c u n seen = lengthFrom c u.next (n * 10 + d) true
      rw [lengthFrom_of_rest_eq_cons hu, hd]
      exact if_neg hsmall
    rw [rest_eq_cons hlt]
    exact ⟨1 + k, reason, by rw [next, Nat.add_assoc], hpasses.givesUp hgives⟩
  | case3 => cases h
  | case4 s n seen hlt b hd hend =>
    cases h
    have herror {u : Source} {more : List UInt8} (hu : u.rest = b :: more) :
        lengthFrom c u n seen = .error (.format u.next.offset (.expectedDigit c b)) := by
      rw [lengthFrom_of_rest_eq_cons hu, hd]
      exact if_neg hend
    rw [rest_eq_cons hlt]
    exact ⟨1, _, rfl, givesUp_first (continues_lengthFrom hc hdigit hn hseen) fun hu =>
      ⟨_, herror hu⟩⟩
  | case5 s n seen hlt hnone =>
    cases h
    have hrest : s.rest = [] := by
      apply List.eq_nil_of_length_eq_zero
      rw [length_rest, left]
      omega
    rw [hrest]
    exact ⟨0, _, rfl, .atEnd (continues_lengthFrom hc hdigit hn hseen)⟩
  | case6 s n seen hlt f hf => cases hf.symm.trans hfault

end

theorem prompt_length {c : Char} (hc : (byteOf c).toNat = c.toNat)
    (hdigit : digit? (byteOf c) = none) : Prompt (length c) := by
  refine ⟨continues_lengthFrom hc hdigit (by decide) (.inr rfl), fun {s t n} h => ?takes,
    fun hfault h => givesUp_lengthFrom hc hdigit (by decide) (.inr rfl) hfault h⟩
  case takes =>
    obtain ⟨ds, htakes, hds⟩ := takes_of_length h
    refine ⟨_, htakes, htakes.offset_eq (end_of_lengthFrom h), fun u bs hu => ?_⟩
    rw [List.append_assoc] at hu
    exact length_of_rest hu hds hc hdigit

/-! ### Fields -/

/-- Any bytes are read as a field of their number. -/
theorem reads_field (bytes : List UInt8) :
    Reads (fun s => s.field bytes.length) bytes ⟨bytes.toArray⟩ := by
  intro s bs h
  obtain ⟨field, t, hfield, hbytes, hrest, -⟩ := field_of_rest_eq_append h
  obtain rfl : field = ⟨bytes.toArray⟩ := ByteArray.ext (Array.toList_inj.1 hbytes)
  exact ⟨t, hfield, hrest⟩

/-- Too few bytes can be filled up. -/
theorem continues_field {n : Nat} {front : List UInt8} (h : front.length ≤ n) :
    Continues (fun s => s.field n) front := by
  have hlength : (front ++ List.replicate (n - front.length) 0).length = n := by
    rw [List.length_append, List.length_replicate]
    omega
  have hreads := reads_field (front ++ List.replicate (n - front.length) 0)
  rw [hlength] at hreads
  exact ⟨_, _, hreads⟩

theorem prompt_field (n : Nat) : Prompt fun s => s.field n := by
  refine ⟨continues_field (Nat.zero_le n), fun {s t a} h => ?takes, fun {s e} hfault h => ?givesUp⟩
  case takes =>
    obtain ⟨htakes, rfl⟩ := takes_of_field h
    refine ⟨_, htakes, ?_, reads_field _⟩
    obtain ⟨_, u, hread, -, -, hoffset, -⟩ := field_of_rest_eq_append htakes.rest_eq
    cases h.symm.trans hread
    exact hoffset
  case givesUp =>
    unfold field at h
    rw [hfault] at h
    split at h
    · rename_i hshort
      cases h
      rw [← length_rest] at hshort ⊢
      exact ⟨_, _, rfl, .atEnd (continues_field (Nat.le_of_lt hshort))⟩
    · cases h

/-! ### A line -/

theorem andThen_eq_bind {α β : Type} (f : Reading α) (g : α → Reading β) (s : Source) :
    andThen f g s = f s >>= fun p => g p.1 p.2 := by
  rw [andThen]
  cases f s <;> rfl

theorem skip_bind {β : Type} (c : Char) (s : Source) (k : Unit × Source → Except Error β) :
    (skip c s >>= k) = s.expect c >>= fun t => k ((), t) := by
  rw [skip]
  cases s.expect c <;> rfl

/-- What follows the plus sign of a line is read part by part. -/
theorem lineTail_eq :
    lineTail = andThen (length ',') fun keySize => andThen (length ':') fun valueSize =>
      andThen (fun s => s.field keySize) fun key => andThen (skip '-') fun _ =>
      andThen (skip '>') fun _ => andThen (fun s => s.field valueSize) fun value =>
      andThen (skip '\n') fun _ => done ⟨key, value⟩ := by
  funext s
  simp only [andThen_eq_bind, skip_bind, done]
  rfl

/-- It is given up as soon as it may. -/
theorem prompt_lineTail : Prompt lineTail := by
  rw [lineTail_eq]
  apply (prompt_length (by decide) (by decide)).andThen
  intro keySize
  apply (prompt_length (by decide) (by decide)).andThen
  intro valueSize
  apply (prompt_field keySize).andThen
  intro key
  apply (prompt_skip (by decide)).andThen
  intro _
  apply (prompt_skip (by decide)).andThen
  intro _
  apply (prompt_field valueSize).andThen
  intro value
  apply (prompt_skip (by decide)).andThen
  intro _
  exact prompt_done _

end Source

end ConstDb
