import ConstDb.Machine.Feed
import ConstDb.Proofs.Image.Queries

/-! # Feeds that give walks

A feed gives a walk when its calls hand out the items of the walk, then the error that ended it, and
then nothing.  A loop over such a feed does what the same loop over the walk does, as long as its
body does not trap.

## Key results

- `Machine.Feed.Gives.calls_eq`: what the calls give
- `Machine.Feed.Gives.forEach_eq`: what a loop gives
- `Walk.finish_loop_fold`, `Walk.finish_loop_first`, `Walk.finish_loop_all`,
  `Walk.finish_loop_step`, `Walk.finish_loop_nth`: what some loops over walks come to
-/

namespace ConstDb

open Machine

variable {S α β γ σ τ : Type}

/-! ### Loops over walks -/

/-- A turn whose work may fail. -/
def Machine.Turn.ofStep : Except Error σ → Turn σ β
  | .error e => .stop (.error e)
  | .ok y => .more y

/-- A turn that goes on as long as something holds. -/
def Machine.Turn.ofCheck : Except Error Bool → Turn Unit Bool
  | .error e => .stop (.error e)
  | .ok b => if b then .more () else .stop (.ok false)

namespace Walk

/-- Goes through items until the body of the loop leaves it, and meets a failure behind them. -/
def loopOver (body : σ → α → Turn σ β) (failure : Option Error) (x : σ) : List α → Exit σ β
  | [] => ⟨x, failure.map .error⟩
  | a :: rest =>
    match body x a with
    | .stop r => ⟨x, some r⟩
    | .more y => loopOver body failure y rest

/-- Goes through the items of a walk until the body of the loop leaves it. -/
def loop (body : σ → α → Turn σ β) (x : σ) (w : Walk α) : Exit σ β :=
  loopOver body w.failure x w.items

/-- A loop that takes in all items. -/
theorem loop_fold (f : σ → α → σ) (x : σ) (w : Walk α) :
    (w.loop (fun x a => .more (f x a)) x : Exit σ β) =
      ⟨w.items.foldl f x, w.failure.map .error⟩ := by
  obtain ⟨items, failure⟩ := w
  induction items generalizing x with
  | nil => rfl
  | cons a rest ih => exact ih (f x a)

/-- A loop that takes in all items gives what it took in, unless the walk failed. -/
theorem finish_loop_fold (f : σ → α → σ) (g : σ → β) (x : σ) (w : Walk α) :
    (w.loop (fun x a => .more (f x a)) x).finish g =
      w.toExcept.map fun items => g (items.foldl f x) := by
  rw [loop_fold, Exit.finish, toExcept]
  cases w.failure <;> rfl

/-- A loop that looks for an item finds the first one. -/
theorem finish_loop_first (p : α → Prop) [DecidablePred p] (f : α → β) (w : Walk α) :
    (w.loop (fun () a => if p a then .stop (.ok (some (f a))) else .more ()) ()).finish
        (fun () => none) =
      w.firstSome fun a => if p a then some (f a) else none := by
  obtain ⟨items, failure⟩ := w
  induction items with
  | nil => cases failure <;> rfl
  | cons a rest ih =>
    have hcons := firstSome_cons (fun a => if p a then some (f a) else none) a ⟨rest, failure⟩
    rw [cons] at hcons
    rw [hcons, ← ih, loop, loopOver]
    by_cases h : p a
    · rw [if_pos h, if_pos h]
      rfl
    · rw [if_neg h, if_neg h]
      rfl

private theorem allM_go_eq (f : α → Except Error Bool) {w w' : Walk α}
    (h : w.failure = w'.failure) (items : List α) : allM.go f w items = allM.go f w' items := by
  induction items with
  | nil => rw [allM.go, allM.go, h]
  | cons a rest ih => rw [allM.go, allM.go, ih]

/-- A loop that asks something of each item finds out whether it holds of all. -/
theorem finish_loop_all (f : α → Except Error Bool) (w : Walk α) :
    (w.loop (fun () a => .ofCheck (f a)) ()).finish (fun () => true) = w.allM f := by
  obtain ⟨items, failure⟩ := w
  induction items with
  | nil => cases failure <;> rfl
  | cons a rest ih =>
    simp only [allM, allM.go, loop, loopOver] at ih ⊢
    cases f a with
    | error e => rfl
    | ok b =>
      cases b with
      | false => rfl
      | true =>
        have htail : allM.go f ⟨rest, failure⟩ rest = allM.go f ⟨a :: rest, failure⟩ rest := by
          apply allM_go_eq
          rfl
        exact ih.trans htail

/-- A loop whose body may fail. -/
theorem finish_loop_step (f : σ → α → Except Error σ) (g : σ → β) (x : σ) (w : Walk α) :
    (w.loop (fun x a => .ofStep (f x a)) x).finish g = (w.foldM f x).map g := by
  obtain ⟨items, failure⟩ := w
  induction items generalizing x with
  | nil => cases failure <;> rfl
  | cons a rest ih =>
    simp only [foldM, loop, loopOver, List.foldlM_cons] at ih ⊢
    cases f x a with
    | error e => rfl
    | ok y => exact ih y

/-- A loop that counts up to `n` finds the item at that place. -/
theorem finish_loop_nth (n : Nat) (w : Walk α) :
    (w.loop (fun i a => if i = n then .stop (.ok (some a)) else .more (i + 1)) 0).finish
        (fun _ => none) =
      w.get? n := by
  obtain ⟨items, failure⟩ := w
  -- The loop has passed `i` items and looks for the one `k` places further on.
  suffices h : ∀ (k i : Nat), i + k = n →
      (loop (fun i a => if i = n then .stop (.ok (some a)) else .more (i + 1)) i
        ⟨items, failure⟩).finish (fun _ => none) = get? ⟨items, failure⟩ k from
    h n 0 (Nat.zero_add n)
  intro k i hk
  induction items generalizing i k with
  | nil => cases failure <;> rfl
  | cons a rest ih =>
    rw [loop, loopOver]
    cases k with
    | zero =>
      rw [if_pos (by omega)]
      rfl
    | succ k =>
      rw [if_neg (by omega)]
      exact ih k (i + 1) (by omega)

end Walk

namespace Machine

/-- The same turn, with another form of the state. -/
def Turn.map (f : σ → τ) : Turn σ β → Turn τ β
  | .more x => .more (f x)
  | .stop r => .stop r

/-- The same exit, with another form of the state. -/
def Exit.map (f : σ → τ) (x : Exit σ β) : Exit τ β := ⟨f x.state, x.result⟩

theorem Exit.finish_map (f : σ → τ) (g : τ → β) (x : Exit σ β) :
    (x.map f).finish g = x.finish (g ∘ f) := by
  obtain ⟨state, result⟩ := x
  cases result <;> rfl

namespace Feed

/-- The feed has nothing more, and still has nothing when it is asked again. -/
def Ends (feed : Feed S α) (s : S) : Prop :=
  ∃ t u, feed.next s = .ok (none, t) ∧ feed.next t = .ok (none, u)

/-- The feed gives items in the form that `f` makes of them, then a failure, then nothing. -/
def Gives (feed : Feed S α) (f : β → α) (failure : Option Error) : S → List β → Prop
  | s, [] =>
    match failure with
    | none => feed.Ends s
    | some e => ∃ t, feed.next s = .ok (some (.error e), t) ∧ feed.Ends t
  | s, b :: rest => ∃ t, feed.next s = .ok (some (.ok (f b)), t) ∧ Gives feed f failure t rest

variable {feed : Feed S α} {f : β → α} {failure : Option Error} {s : S} {items : List β}
  {w : Walk β}

theorem Ends.calls_eq (h : feed.Ends s) : feed.calls s = .ok [none, none] := by
  obtain ⟨t, u, hs, ht⟩ := h
  rw [calls]
  split
  · simp_all
  · simp_all
  · simp_all

/-- The calls of a feed give what those of an iterator over its walk give. -/
theorem Gives.calls_eq (h : feed.Gives f w.failure s w.items) :
    feed.calls s = .ok (w.outcomes.map fun call => call.map (·.map f)) := by
  obtain ⟨items, failure⟩ := w
  induction items generalizing s with
  | nil =>
    cases failure with
    | none => exact Ends.calls_eq h
    | some e =>
      obtain ⟨t, hs, ht⟩ := h
      have hends := Ends.calls_eq ht
      rw [calls]
      split <;> simp_all [Walk.outcomes, Except.map]
  | cons b rest ih =>
    obtain ⟨t, hs, ht⟩ := h
    have hrest := ih ht
    rw [calls]
    split <;> simp_all [Walk.outcomes, Except.map]

/-- A loop over a feed does what the same loop over its walk does.  The state of the loop takes
another form, and an invariant of it and the items to come keeps the body from trapping. -/
theorem Gives.forEach_eq {body : τ → α → Except Trap (Turn τ γ)} (step : σ → β → Turn σ γ)
    (form : σ → τ) (inv : σ → List β → Prop)
    (hbody : ∀ x b rest, b ∈ w.items → inv x (b :: rest) →
      body (form x) (f b) = .ok ((step x b).map form))
    (hinv : ∀ x b rest y, inv x (b :: rest) → step x b = .more y → inv y rest)
    (h : feed.Gives f w.failure s w.items) {x : σ} (hx : inv x w.items) :
    feed.forEach body (form x) s = .ok ((w.loop step x).map form) := by
  -- The induction is on the items to come, and each turn of the body leaves the invariant for the
  -- rest.
  obtain ⟨items, failure⟩ := w
  induction items generalizing s x with
  | nil =>
    cases failure with
    | none =>
      obtain ⟨t, u, hs, -⟩ := h
      rw [forEach]
      split <;> simp_all [Walk.loop, Walk.loopOver, Exit.map]
    | some e =>
      obtain ⟨t, hs, -⟩ := h
      rw [forEach]
      split <;> simp_all [Walk.loop, Walk.loopOver, Exit.map]
  | cons b rest ih =>
    obtain ⟨t, hs, ht⟩ := h
    have hturn := hbody x b rest List.mem_cons_self hx
    have hnext (y : σ) := hinv x b rest y hx
    rw [forEach, Walk.loop, Walk.loopOver]
    split
    · simp_all
    · simp_all
    · simp_all
    · rename_i hs'
      rw [hs] at hs'
      cases hs'
      rw [hturn]
      cases hstep : step x b with
      | stop r => rfl
      | more y =>
        exact ih (fun x b rest hb => hbody x b rest (List.mem_cons_of_mem _ hb)) ht (hnext y hstep)

/-- Items that are made of others. -/
theorem Gives.map_items {g : γ → β} {items : List γ}
    (h : feed.Gives (fun c => f (g c)) failure s items) :
    feed.Gives f failure s (items.map g) := by
  induction items generalizing s with
  | nil => exact h
  | cons c rest ih =>
    obtain ⟨t, hs, ht⟩ := h
    exact ⟨t, hs, ih ht⟩

/-- A feed that makes something else of its items gives the walk made of them. -/
theorem Gives.through {g : α → Except Trap γ} {k : β → γ} (hg : ∀ b ∈ items, g (f b) = .ok (k b))
    (h : feed.Gives f failure s items) : (feed.through g).Gives k failure s items := by
  have hends {s : S} (h : feed.Ends s) : (feed.through g).Ends s := by
    obtain ⟨t, u, hs, ht⟩ := h
    refine ⟨t, u, ?_, ?_⟩
    · simp only [Feed.through, nextThrough, hs]
    · simp only [Feed.through, nextThrough, ht]
  induction items generalizing s with
  | nil =>
    cases failure with
    | none => exact hends h
    | some e =>
      obtain ⟨t, hs, ht⟩ := h
      refine ⟨t, ?_, hends ht⟩
      simp only [Feed.through, nextThrough, hs]
  | cons b rest ih =>
    obtain ⟨t, hs, ht⟩ := h
    refine ⟨t, ?_, ih (fun b hb => hg b (List.mem_cons_of_mem _ hb)) ht⟩
    simp only [Feed.through, nextThrough, hs, hg b List.mem_cons_self]

end Feed

end Machine

end ConstDb
