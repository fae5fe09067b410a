import ConstDb.Proofs.RecordText.Prompt
import ConstDb.RecordText.Intake

/-! # Taking and reading

What is taken from an input, call by call, is what is read of the text that the input amounts to.
The input may deliver the text in any pieces and interrupt it anywhere, and a field may be asked for
in any parts.

A taking also tells how far the text was asked for.  That is where faults are met: if a text without
faults is cut off somewhere and a fault is put there, then the fault is met by a reading just if the
taking asks for that position.  Otherwise the reading comes out as before.

Both are shown of one byte and of one field, and from there of all that a line is made of, one
taking behind the other (`Intake.Matches.bind`).

## Key results

- `Intake.retry_of_at`, `Intake.fill_of_at`: what calls give
- `Intake.Agrees`, `Intake.Matches`: a taking and the reading that it comes to
- `Intake.matches_line`: a line
-/

namespace ConstDb

namespace Input

variable {size : Nat} {input rest : Input} {piece : ByteArray} {f : Fault}

/-- A call gives the first bytes of the text that an input amounts to, or none at its end. -/
theorem gather_of_read_ok (hsize : 0 < size) (h : input.read size = .ok piece rest) :
    piece.size ≤ size ∧
      gather .empty input = (piece ++ (gather .empty rest).1, (gather .empty rest).2) ∧
      (piece.size = 0 → gather .empty input = (.empty, none)) := by
  -- Pieces without bytes are passed over, so the induction is on what the input still does.
  induction input with
  | nil =>
    cases h
    exact ⟨Nat.zero_le _, rfl, fun _ => rfl⟩
  | cons event events ih =>
    cases event with
    | fault g => cases h
    | bytes first =>
      rw [read] at h
      rw [gather, ByteArray.empty_append]
      split at h
      · rename_i hempty
        rw [ByteArray.size_eq_zero_iff.1 hempty]
        exact ih h
      · rename_i hne
        split at h
        · rename_i hle
          cases h
          exact ⟨hle, gather_eq _ _, fun h => absurd h hne⟩
        · cases h
          have hfirst : (first.extract 0 size).size = size := by
            rw [ByteArray.size_extract]
            omega
          -- What the call did not take stays in front of the rest.
          have hsplit : first = first.extract 0 size ++ first.extract size first.size := by
            rw [← ByteArray.extract_eq_extract_append_extract size (Nat.zero_le _) (by omega),
              ByteArray.extract_zero_size]
          refine ⟨Nat.le_of_eq hfirst, ?_, fun h => absurd h (by omega)⟩
          rw [gather, ByteArray.empty_append, gather_eq first, gather_eq (first.extract size _),
            ← ByteArray.append_assoc, ← hsplit]

/-- A call that fails was interrupted, or it meets the fault behind the text. -/
theorem gather_of_read_error (h : input.read size = .error f rest) :
    gather .empty input =
      if f.kind = .interrupted then gather .empty rest else (.empty, some f) := by
  induction input with
  | nil => cases h
  | cons event events ih =>
    cases event with
    | fault g =>
      cases h
      rfl
    | bytes first =>
      rw [read] at h
      rw [gather, ByteArray.empty_append]
      split at h
      · rename_i hempty
        rw [ByteArray.size_eq_zero_iff.1 hempty]
        exact ih h
      · split at h <;> cases h

end Input

namespace Source

variable {s s' : Source} {p : Nat}

/-- A text that is cut off behind its first `p` bytes, where a fault is met. -/
def cut (s : Source) (p : Nat) (f : Fault) : Source :=
  { bytes := s.bytes.extract 0 p, offset := s.offset, fault := some f }

theorem size_cut (hp : p ≤ s.bytes.size) (f : Fault) : (s.cut p f).bytes.size = p := by
  rw [cut, ByteArray.size_extract]
  omega

/-- The bytes in front of the fault are read as before. -/
theorem byte_cut (hp : p ≤ s.bytes.size) (f : Fault) :
    (s.cut p f).byte =
      if s.offset < p then s.byte.map fun (b, t) => (b, t.cut p f) else .error (.stream f) := by
  have hsize := size_cut hp f
  by_cases hlt : s.offset < p
  · rw [if_pos hlt, byte, byte, dif_pos (by rw [hsize]; exact hlt),
      dif_pos (Nat.lt_of_lt_of_le hlt hp)]
    simp only [cut, ByteArray.getElem_extract, Nat.zero_add]
    rfl
  · rw [if_neg hlt, byte, dif_neg (by rw [hsize]; exact hlt)]
    rfl

/-- So is a field that ends in front of the fault. -/
theorem field_cut (hle : s.offset ≤ p) (hp : p ≤ s.bytes.size) (f : Fault) (n : Nat) :
    (s.cut p f).field n =
      if p < s.offset + n then .error (.stream f)
      else .ok (s.bytes.extract s.offset (s.offset + n),
        cut { s with offset := s.offset + n } p f) := by
  have hleft : (s.cut p f).left = p - s.offset := by
    rw [left, size_cut hp f]
    rfl
  rw [field, hleft]
  by_cases hlt : p < s.offset + n
  · rw [if_pos (by omega), if_pos hlt]
    rfl
  · rw [if_neg (by omega), if_neg hlt]
    simp only [cut, ByteArray.extract_extract, Nat.zero_add]
    rw [Nat.min_eq_left (by omega)]

/-- Whether a text is another one that was read on. -/
structure Follows (s' s : Source) : Prop where
  bytes_eq : s'.bytes = s.bytes
  fault_eq : s'.fault = s.fault

theorem Follows.trans {s'' : Source} (h : s'.Follows s) (h' : s''.Follows s') : s''.Follows s :=
  ⟨h'.bytes_eq.trans h.bytes_eq, h'.fault_eq.trans h.fault_eq⟩

/-! ### Readings byte by byte -/

namespace Reading

variable {α : Type}

/-- Gives up, and says where. -/
def fail (reason : Reason) : Reading α := fun s => .error (.format s.offset reason)

end Reading

open Reading

/-- A byte is expected by taking any byte. -/
theorem skip_eq (c : Char) :
    skip c = andThen byte fun
      | none => fail (.endExpectingByte c)
      | some b => if b.toNat = c.toNat then done () else fail (.expectedByte c b) := by
  funext s
  unfold skip expect andThen
  cases s.byte with
  | error e => rfl
  | ok p =>
    obtain ⟨_ | b, t⟩ := p
    · rfl
    · by_cases h : b.toNat = c.toNat <;> simp [h, Except.map, done, fail]

/-- So is a length. -/
theorem lengthFrom_eq (c : Char) (n : Nat) (seen : Bool) :
    (fun s => lengthFrom c s n seen) = andThen byte fun
      | none => fail .endInLength
      | some b =>
        match digit? b with
        | some d =>
          if 0x100000000 ≤ n * 10 + d then fail .lengthOverflow
          else fun s => lengthFrom c s (n * 10 + d) true
        | none =>
          if b.toNat = c.toNat ∧ seen = true then done n else fail (.expectedDigit c b) := by
  funext s
  rw [lengthFrom, andThen, byte]
  by_cases hlt : s.offset < s.bytes.size
  · simp only [dif_pos hlt]
    cases digit? s.bytes[s.offset] with
    | none => simp only; split <;> rfl
    | some d => simp only; split <;> rfl
  · simp only [dif_neg hlt]
    cases s.fault <;> rfl

/-- The next line, as a reading that also ends somewhere if there is none. -/
def lineReading : Reading (Option Record) :=
  andThen byte fun
    | none => done none
    | some b =>
      if b.toNat = '\n'.toNat then done none
      else if b.toNat ≠ '+'.toNat then fail (.expectedRecord b)
      else andThen lineTail fun r => done (some r)

theorem line_eq (s : Source) :
    s.line = match lineReading s with
      | .error e => .error e
      | .ok (none, _) => .ok none
      | .ok (some r, t) => .ok (some (r, t)) := by
  unfold line lineReading andThen
  cases s.byte with
  | error e => rfl
  | ok p =>
    obtain ⟨_ | b, t⟩ := p
    · rfl
    · simp only
      by_cases hnewline : b.toNat = '\n'.toNat
      · simp only [hnewline, if_true]
        rfl
      · by_cases hsign : b.toNat ≠ '+'.toNat
        · simp only [if_neg hnewline, if_pos hsign]
          rfl
        · simp only [if_neg hnewline, if_neg hsign]
          cases t.lineTail <;> rfl

end Source

namespace Intake

variable {t u : Intake} {s s' : Source} {f : Fault} {p size : Nat}

/-- Whether an intake has come as far as the reading of a text.  It may have asked for the next
position already, but for none behind that. -/
structure At (t : Intake) (s : Source) : Prop where
  offset : t.offset = s.offset
  le_asked : s.offset ≤ t.asked
  asked_le : t.asked ≤ s.offset + 1
  rest : Input.gather .empty t.events = (s.bytes.extract s.offset s.bytes.size, s.fault)

/-- What is read of the back of a text, and what is left of it. -/
private theorem extract_eq_append {b piece more : ByteArray} {i : Nat}
    (h : b.extract i b.size = piece ++ more) (hpiece : 0 < piece.size) :
    i + piece.size ≤ b.size ∧ piece = b.extract i (i + piece.size) ∧
      more = b.extract (i + piece.size) b.size := by
  have hsize := congrArg ByteArray.size h
  rw [ByteArray.size_extract, ByteArray.size_append, Nat.min_self] at hsize
  have hle : i + piece.size ≤ b.size := by omega
  refine ⟨hle, ?_, ?_⟩
  · have hfront : (piece ++ more).extract 0 piece.size = piece :=
      ByteArray.extract_append_eq_left rfl
    rw [← h, ByteArray.extract_extract, Nat.add_zero, Nat.min_eq_left hle] at hfront
    exact hfront.symm
  · have hback : (piece ++ more).extract piece.size (piece ++ more).size = more := by
      rw [ByteArray.size_append]
      exact ByteArray.extract_append_eq_right rfl rfl
    rw [← h, ByteArray.extract_extract, ByteArray.size_extract, Nat.min_self,
      Nat.min_eq_right (by omega)] at hback
    exact hback.symm

/-- The text is read on where the intake is, or its end or its fault is met. -/
theorem retry_of_at (hsize : 0 < size) (h : t.At s) :
    (∃ k u, 0 < k ∧ k ≤ size ∧ s.offset + k ≤ s.bytes.size ∧
      retry size t = .ok (s.bytes.extract s.offset (s.offset + k)) u ∧
      u.At { s with offset := s.offset + k } ∧ u.asked = s.offset + k) ∨
    s.bytes.size ≤ s.offset ∧ ∃ u, u.asked = s.offset + 1 ∧
      ((s.fault = none ∧ u.At s ∧ retry size t = .ok .empty u) ∨
        ∃ f, s.fault = some f ∧ retry size t = .error f u) := by
  -- The induction is on what the input still does, because every interruption uses up a fault.
  induction hn : t.events.length using Nat.strongRecOn generalizing t with
  | ind n ih =>
    subst hn
    obtain ⟨hoffset, hle_asked, hasked_le, hrest⟩ := h
    have hempty (h : s.bytes.extract s.offset s.bytes.size = .empty) :
        s.bytes.size ≤ s.offset := by
      have hsize := congrArg ByteArray.size h
      rw [ByteArray.size_extract, Nat.min_self, ByteArray.size_empty] at hsize
      omega
    rw [retry]
    unfold read
    cases hcall : t.events.read size with
    | ok piece events =>
      obtain ⟨hle, hgather, hend⟩ := Input.gather_of_read_ok hsize hcall
      rw [hrest] at hgather hend
      obtain ⟨hbytes, hfault⟩ := Prod.mk.inj hgather
      rcases Nat.eq_zero_or_pos piece.size with hzero | hpos
      · obtain ⟨hnone, hfault'⟩ := Prod.mk.inj (hend hzero)
        obtain rfl := ByteArray.size_eq_zero_iff.1 hzero
        rw [ByteArray.empty_append] at hbytes
        refine .inr ⟨hempty hnone, ⟨events, t.offset + 0, max t.asked (t.offset + 1)⟩,
          by simp only; omega, .inl ⟨hfault', ?_, rfl⟩⟩
        exact ⟨hoffset, by simp only; omega, by simp only; omega, Prod.ext hbytes.symm hfault.symm⟩
      · obtain ⟨hroom, hpiece, hmore⟩ := extract_eq_append hbytes hpos
        refine .inl ⟨piece.size, ⟨events, t.offset + piece.size,
          max t.asked (t.offset + max 1 piece.size)⟩, hpos, hle, hroom, by rw [← hpiece], ?_,
          by simp only; omega⟩
        exact ⟨by simp only; omega, by simp only; omega, by simp only; omega,
          Prod.ext hmore hfault.symm⟩
    | error f events =>
      have hgather := Input.gather_of_read_error hcall
      rw [hrest] at hgather
      simp only
      by_cases hf : f.kind = .interrupted
      · rw [if_pos hf] at hgather ⊢
        exact ih _ (Input.length_lt_of_read hcall)
          ⟨hoffset, by simp only; omega, by simp only; omega, hgather.symm⟩ rfl
      · rw [if_neg hf] at hgather ⊢
        obtain ⟨hnone, hfault⟩ := Prod.mk.inj hgather
        exact .inr ⟨hempty hnone, _, by simp only; omega, .inr ⟨f, hfault, rfl⟩⟩

/-- A field is filled from the text, or its end or its fault is met before. -/
theorem fill_of_at (ask : Nat → Nat) (limit : Nat) (buffer : ByteArray) (h : t.At s) :
    (limit ≤ s.left ∧ ∃ u, u.At { s with offset := s.offset + limit } ∧
      u.asked = max t.asked (s.offset + limit) ∧
      fill ask limit buffer t =
        .ok (buffer ++ s.bytes.extract s.offset (s.offset + limit)) u) ∨
    s.left < limit ∧ ∃ u, u.asked = s.offset + s.left + 1 ∧
      ((s.fault = none ∧ u.offset = s.offset + s.left ∧
          fill ask limit buffer t = .ok (buffer ++ s.bytes.extract s.offset s.bytes.size) u) ∨
        ∃ f, s.fault = some f ∧ fill ask limit buffer t = .error f u) := by
  induction limit using Nat.strongRecOn generalizing buffer t s with
  | ind limit ih =>
    rw [fill]
    split
    · rename_i hzero
      subst hzero
      refine .inl ⟨Nat.zero_le _, t, h, ?_, by simp⟩
      exact (Nat.max_eq_left h.le_asked).symm
    · rename_i hlimit
      have hask : 0 < min limit (ask t.offset + 1) := by omega
      have hasked_le := h.asked_le
      rcases retry_of_at hask h with
        ⟨k, u, hpos, hle, hroom, hretry, hat, hasked⟩ | ⟨hend, u, hasked, hstop⟩
      · have hsize : (s.bytes.extract s.offset (s.offset + k)).size = k := by
          rw [ByteArray.size_extract]
          omega
        have hjoin (j : Nat) (hj : s.offset + k ≤ j) :
            buffer ++ s.bytes.extract s.offset (s.offset + k) ++ s.bytes.extract (s.offset + k) j =
              buffer ++ s.bytes.extract s.offset j := by
          rw [ByteArray.append_assoc,
            ← ByteArray.extract_eq_extract_append_extract _ (Nat.le_add_right ..) hj]
        have hmore : s.offset + k + (limit - k) = s.offset + limit := by omega
        have hless : s.offset + k + (s.bytes.size - (s.offset + k)) =
            s.offset + (s.bytes.size - s.offset) := by omega
        rw [hretry]
        simp only [hsize, if_neg (Nat.ne_of_gt hpos)]
        -- The calls that follow take the rest of the field from where this one ended.
        rcases ih (limit - k) (by omega) _ hat with
          ⟨hleft, v, hat', hasked', hfill⟩ | ⟨hleft, v, hasked', hstop⟩
        · simp only [Source.left, hmore] at hleft hat' hasked' hfill
          refine .inl ⟨by rw [Source.left]; omega, v, hat', by omega, ?_⟩
          rw [hfill, hjoin _ (by omega)]
        · simp only [Source.left, hless] at hleft hasked' hstop
          refine .inr ⟨by rw [Source.left]; omega, v, hasked', ?_⟩
          rw [hjoin _ hroom] at hstop
          exact hstop
      · have hleft : s.left = 0 := by
          rw [Source.left]
          omega
        have hnone : s.bytes.extract s.offset s.bytes.size = .empty := by
          rw [← ByteArray.size_eq_zero_iff, ByteArray.size_extract]
          omega
        refine .inr ⟨by omega, u, by omega, ?_⟩
        obtain ⟨hfault, hat, hretry⟩ | ⟨f, hfault, hretry⟩ := hstop
        · rw [hretry, hnone, ByteArray.append_empty]
          exact .inl ⟨hfault, by rw [hleft]; exact hat.offset, rfl⟩
        · rw [hretry]
          exact .inr ⟨f, hfault, rfl⟩

/-! ### Takings and readings -/

open Source (Reading)
open Source.Reading (andThen done)

/-- Whether a fault can be met at a position of a text without faults that an intake has come to:
one that was not asked for yet.  The end of the text is such a position too. -/
structure Faces (t : Intake) (s : Source) (p : Nat) : Prop where
  fault_eq : s.fault = none
  asked_le : t.asked ≤ p
  le_size : p ≤ s.bytes.size

/-- A fault that is not met is one that can be met further on. -/
theorem Faces.behind (hp : Faces t s p) (hfollows : s'.Follows s) (hle : ¬p < u.asked) :
    Faces u s' p where
  fault_eq := hfollows.fault_eq.trans hp.fault_eq
  asked_le := Nat.le_of_not_lt hle
  le_size := by
    rw [hfollows.bytes_eq]
    exact hp.le_size

/-- Whether taking a value from an intake comes to the same as reading it from the text that the
intake has come to.  Moreover a fault at a position that is asked for is met, and one at a position
that is not asked for is not. -/
inductive Agrees {α : Type} (f : Reading α) (t : Intake) (s : Source) :
    EStateM.Result Error Intake α → Prop
  | ok {a : α} {u : Intake} {s' : Source} (hread : f s = .ok (a, s')) (hat : u.At s')
      (hfollows : s'.Follows s) (hasked : t.asked ≤ u.asked)
      (hcut : ∀ p g, Faces t s p → f (s.cut p g) =
        if p < u.asked then .error (.stream g) else .ok (a, s'.cut p g)) : Agrees f t s (.ok a u)
  | error {e : Error} {u : Intake} (hread : f s = .error e) (hasked : t.asked ≤ u.asked)
      (hcut : ∀ p g, Faces t s p → f (s.cut p g) =
        if p < u.asked then .error (.stream g) else .error e) : Agrees f t s (.error e u)

/-- Whether a way to take values comes to the same as a reading, wherever it starts. -/
def Matches {α : Type} (F : Taking α) (f : Reading α) : Prop :=
  ∀ t s, At t s → Agrees f t s (F t)

section

variable {α β : Type} {f : Reading α} {F : Taking α} {g : α → Reading β} {G : α → Taking β}

/-- What agrees still does so with something behind it that agrees where it starts. -/
theorem Agrees.bind (hF : Agrees f t s (F t))
    (hG : ∀ {a u s'}, f s = .ok (a, s') → At u s' → Agrees (g a) u s' (G a u)) :
    Agrees (f.andThen g) t s ((F >>= G) t) := by
  change Agrees _ t s (EStateM.bind F G t)
  unfold EStateM.bind
  generalize F t = first at hF
  cases hF with
  | @error e u hread hasked hcut =>
    refine .error (by rw [andThen, hread]) hasked fun p g hp => ?_
    rw [andThen, hcut p g hp]
    by_cases hlt : p < u.asked <;> simp only [hlt, if_true, if_false]
  | @ok a u s' hread hat hfollows hasked hcut =>
    -- A fault that the first part does not meet is one that the second part faces.
    have hsecond := hG hread hat
    simp only
    generalize G a u = second at hsecond
    cases hsecond with
    | @error e v hread' hasked' hcut' =>
      refine .error (by rw [andThen, hread]; exact hread') (Nat.le_trans hasked hasked')
        fun p g hp => ?_
      rw [andThen, hcut p g hp]
      by_cases hlt : p < u.asked
      · rw [if_pos hlt, if_pos (Nat.lt_of_lt_of_le hlt hasked')]
      · rw [if_neg hlt]
        exact hcut' p g (hp.behind hfollows hlt)
    | @ok b v s'' hread' hat' hfollows' hasked' hcut' =>
      refine .ok (by rw [andThen, hread]; exact hread') hat' (hfollows.trans hfollows')
        (Nat.le_trans hasked hasked') fun p g hp => ?_
      rw [andThen, hcut p g hp]
      by_cases hlt : p < u.asked
      · rw [if_pos hlt, if_pos (Nat.lt_of_lt_of_le hlt hasked')]
      · rw [if_neg hlt]
        exact hcut' p g (hp.behind hfollows hlt)

theorem Matches.bind (hF : Matches F f) (hG : ∀ a, Matches (G a) (g a)) :
    Matches (F >>= G) (f.andThen g) :=
  fun t s hat => (hF t s hat).bind fun _ hat' => hG _ _ _ hat'

theorem matches_pure (a : α) : Matches (pure a) (done a) := by
  intro t s hat
  refine .ok rfl hat ⟨rfl, rfl⟩ (Nat.le_refl _) fun p g hp => ?_
  rw [if_neg (Nat.not_lt.2 hp.asked_le)]
  rfl

theorem matches_fail (reason : Reason) :
    Matches (fail reason : Taking α) (Source.Reading.fail reason) := by
  intro t s hat
  refine .error (by rw [Source.Reading.fail, hat.offset]) (Nat.le_refl _) fun p g hp => ?_
  rw [if_neg (Nat.not_lt.2 hp.asked_le), hat.offset]
  rfl

/-- A choice agrees if both branches do. -/
theorem Matches.ite {c : Prop} [Decidable c] {F' : Taking α} {f' : Reading α} (hF : Matches F f)
    (hF' : Matches F' f') : Matches (if c then F else F') (if c then f else f') := by
  split
  · exact hF
  · exact hF'

end

theorem matches_byte : Matches byte Source.byte := by
  intro t s hat
  have hle_asked := hat.le_asked
  have hasked_le := hat.asked_le
  unfold byte
  rcases retry_of_at Nat.one_pos hat with
    ⟨k, u, hpos, hle, hroom, hretry, hnext, hasked⟩ |
    ⟨hend, u, hasked, ⟨hfault, hat', hretry⟩ | ⟨f, hfault, hretry⟩⟩
  · obtain rfl : k = 1 := Nat.le_antisymm hle hpos
    have hlt : s.offset < s.bytes.size := hroom
    have hsize : 0 < (s.bytes.extract s.offset (s.offset + 1)).size := by
      rw [ByteArray.size_extract]
      omega
    have hfirst : (s.bytes.extract s.offset (s.offset + 1)).data[0]? = some s.bytes[s.offset] :=
      (Array.getElem?_eq_getElem hsize).trans (congrArg some (ByteArray.getElem_extract hsize))
    have hread : s.byte = .ok (some s.bytes[s.offset], s.next) := by rw [Source.byte, dif_pos hlt]
    simp only [hretry, hfirst]
    refine .ok hread hnext ⟨rfl, rfl⟩ (by omega) fun p g hp => ?_
    rw [Source.byte_cut hp.le_size, hasked]
    by_cases hlt : p < s.offset + 1
    · rw [if_pos hlt, if_neg (by omega)]
    · rw [if_neg hlt, if_pos (by omega), hread]
      rfl
  · have hread : s.byte = .ok (none, s) := by
      rw [Source.byte, dif_neg (Nat.not_lt.2 hend), hfault]
    simp only [hretry]
    refine .ok hread hat' ⟨rfl, rfl⟩ (by omega) fun p g hp => ?_
    -- The only position that is left is the end of the text.
    have := hp.le_size
    rw [Source.byte_cut hp.le_size, if_neg (by omega), if_pos (by omega)]
  · simp only [hretry]
    refine .error (by rw [Source.byte, dif_neg (Nat.not_lt.2 hend), hfault]) (by omega)
      fun p g hp => ?_
    exact absurd (hfault.symm.trans hp.fault_eq) (by simp)

theorem matches_expect (c : Char) : Matches (expect c) (Source.skip c) := by
  rw [Source.skip_eq]
  refine matches_byte.bind fun b => ?_
  cases b with
  | none => exact matches_fail _
  | some b => exact (matches_pure ()).ite (matches_fail _)

/-- A length is taken by taking a byte. -/
theorem lengthFrom_eq (c : Char) (n : Nat) (seen : Bool) :
    lengthFrom c n seen = byte >>= fun
      | none => fail .endInLength
      | some b =>
        match Source.digit? b with
        | some d =>
          if 0x100000000 ≤ n * 10 + d then fail .lengthOverflow
          else lengthFrom c (n * 10 + d) true
        | none =>
          if b.toNat = c.toNat ∧ seen = true then pure n else fail (.expectedDigit c b) := by
  funext t
  change _ = EStateM.bind byte _ t
  rw [lengthFrom, EStateM.bind]
  split <;> rename_i hbyte <;> simp only [hbyte]
  rename_i b u
  cases Source.digit? b with
  | none => simp only; split <;> rfl
  | some d => simp only; split <;> rfl

theorem matches_length (c : Char) : Matches (length c) (Source.length c) := by
  -- Each digit is a byte of the text, so the induction is on the bytes that are left.
  have hfrom (n : Nat) (seen : Bool) (t : Intake) (s : Source) (hat : t.At s) :
      Agrees (fun s => Source.lengthFrom c s n seen) t s (lengthFrom c n seen t) := by
    induction hn : s.left using Nat.strongRecOn generalizing n seen t s with
    | ind left ih =>
      subst hn
      rw [Source.lengthFrom_eq, lengthFrom_eq]
      refine (matches_byte t s hat).bind fun {b u s'} hbyte hat' => ?_
      cases b with
      | none => exact matches_fail _ u s' hat'
      | some b =>
        cases hd : Source.digit? b with
        | some d =>
          by_cases hbig : 0x100000000 ≤ n * 10 + d
          · simp only [hd, if_pos hbig]
            exact matches_fail _ u s' hat'
          · simp only [hd, if_neg hbig]
            exact ih _ (Source.left_lt_of_byte hbyte) _ _ _ _ hat' rfl
        | none =>
          simp only [hd]
          exact (matches_pure n).ite (matches_fail _) u s' hat'
  exact hfrom 0 false

theorem matches_field (ask : Nat → Nat) (n : Nat) : Matches (field ask n) fun s => s.field n := by
  intro t s hat
  have hle_asked := hat.le_asked
  have hasked_le := hat.asked_le
  unfold field
  rcases fill_of_at ask n .empty hat with
    ⟨hleft, u, hat', hasked, hfill⟩ |
    ⟨hleft, u, hasked, ⟨hfault, hoffset, hfill⟩ | ⟨f, hfault, hfill⟩⟩
  · have hsize : (s.bytes.extract s.offset (s.offset + n)).size = n := by
      rw [Source.left] at hleft
      rw [ByteArray.size_extract]
      omega
    simp only [hfill, ByteArray.empty_append, hsize, if_true]
    refine .ok (by rw [Source.field, if_neg (Nat.not_lt.2 hleft)]) hat' ⟨rfl, rfl⟩ (by omega)
      fun p g hp => ?_
    have hp' := hp.asked_le
    rw [Source.field_cut (by omega) hp.le_size]
    by_cases hlt : p < s.offset + n
    · rw [if_pos hlt, if_pos (by omega)]
    · rw [if_neg hlt, if_neg (by omega)]
  · have hsize : (s.bytes.extract s.offset s.bytes.size).size = s.left := by
      rw [ByteArray.size_extract, Nat.min_self, Source.left]
    simp only [hfill, ByteArray.empty_append, hsize, if_neg (Nat.ne_of_lt hleft)]
    refine .error (by rw [Source.field, if_pos hleft, hfault, hoffset]) (by omega) fun p g hp => ?_
    -- Whoever asks for more bytes than there are asks for all of them, and for the end.
    have hle := hp.le_size
    have hp' := hp.asked_le
    rw [Source.left] at hleft hasked
    rw [Source.field_cut (by omega) hp.le_size, if_pos (by omega), if_pos (by omega)]
  · simp only [hfill]
    refine .error (by rw [Source.field, if_pos hleft, hfault]) (by omega) fun p g hp => ?_
    exact absurd (hfault.symm.trans hp.fault_eq) (by simp)

theorem matches_lineTail (ask : Nat → Nat) : Matches (lineTail ask) Source.lineTail := by
  rw [Source.lineTail_eq]
  apply (matches_length ',').bind
  intro keySize
  apply (matches_length ':').bind
  intro valueSize
  apply (matches_field ask keySize).bind
  intro key
  apply (matches_expect '-').bind
  intro _
  apply (matches_expect '>').bind
  intro _
  apply (matches_field ask valueSize).bind
  intro value
  apply (matches_expect '\n').bind
  intro _
  exact matches_pure _

theorem matches_line (ask : Nat → Nat) : Matches (line ask) Source.lineReading := by
  refine matches_byte.bind fun b => ?_
  cases b with
  | none => exact matches_pure none
  | some b =>
    refine (matches_pure none).ite ((matches_fail _).ite ?_)
    exact (matches_lineTail ask).bind fun r => matches_pure (some r)

end Intake

end ConstDb
