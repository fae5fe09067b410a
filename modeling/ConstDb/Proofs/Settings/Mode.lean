import ConstDb.Machine.Radix
import Mathlib.Data.Nat.Digits.Defs

/-! # What the environment may say

Permission bits are an octal number with or without a plus sign, and with or without the mark `0o`
in front of that, between blanks.  The number counts as it stands, however long it is: zeros in
front change nothing, and a number beyond the limit is no permission bits, whatever it would be in a
word.

## Key results

- `Text.ofDigits?_eq_some_iff`: the number that digits stand for
- `Text.trim_surrounded`, `Text.exists_trim`: what trimming takes away
- `Machine.wordOfDigits?_eq`: adding up in a word loses no number that fits
- `Settings.parseMode_iff`, `Settings.parseMode_surrounded`: the grammar of permission bits
- `Settings.variables_are_read`: both variables
-/

namespace ConstDb

namespace Text

/-! ### Digits -/

/-- The digits of a base of at most ten. -/
def IsDigit (base : Nat) (c : Char) : Prop :=
  '0'.toNat ≤ c.toNat ∧ c.toNat < '0'.toNat + base

/-- The number that digits stand for, the first of them counting most. -/
def numberOf (base : Nat) (digits : List Char) : Nat :=
  Nat.ofDigits base (digits.map fun c => c.toNat - '0'.toNat).reverse

theorem numberOf_cons (base : Nat) (c : Char) (rest : List Char) :
    numberOf base (c :: rest) =
      numberOf base rest + base ^ rest.length * (c.toNat - '0'.toNat) := by
  rw [numberOf, List.map_cons, Nat.ofDigits_reverse_cons, List.length_map, numberOf]

/-- Zeros in front count nothing. -/
theorem numberOf_zeros (base k : Nat) (digits : List Char) :
    numberOf base (List.replicate k '0' ++ digits) = numberOf base digits := by
  rw [numberOf, List.map_append, List.map_replicate, List.reverse_append, List.reverse_replicate,
    Nat.sub_self, Nat.ofDigits_append_replicate_zero, numberOf]

/-- Digits are read as the number that they stand for, however many they are. -/
theorem ofDigits?_eq_some_iff {base n m : Nat} {cs : List Char} :
    ofDigits? base n cs = some m ↔
      (∀ c ∈ cs, IsDigit base c) ∧ m = n * base ^ cs.length + numberOf base cs := by
  induction cs generalizing n with
  | nil => simp [ofDigits?, numberOf, eq_comm]
  | cons c rest ih =>
    rw [ofDigits?, List.forall_mem_cons]
    by_cases hc : IsDigit base c
    · have hdigit : digit? base c = some (c.toNat - '0'.toNat) := if_pos hc
      have hshift : n * (base ^ rest.length * base) = n * base * base ^ rest.length := by
        rw [Nat.mul_comm (base ^ rest.length) base, Nat.mul_assoc]
      rw [hdigit]
      simp only [ih, hc, true_and]
      rw [numberOf_cons, List.length_cons, Nat.pow_succ, Nat.add_mul, hshift,
        Nat.mul_comm (c.toNat - '0'.toNat), Nat.add_assoc,
        Nat.add_comm (base ^ rest.length * (c.toNat - '0'.toNat))]
    · have hdigit : digit? base c = none := if_neg hc
      rw [hdigit]
      simp [hc]

/-! ### Blanks -/

/-- What trimming takes away is blank. -/
theorem exists_trim (cs : List Char) : ∃ front back, cs = front ++ trim cs ++ back ∧
    (∀ c ∈ front, isBlank c = true) ∧ ∀ c ∈ back, isBlank c = true := by
  have hsplit (l : List Char) : l.takeWhile isBlank ++ trimFront l = l :=
    List.takeWhile_append_dropWhile
  have hblank (l : List Char) : ∀ c ∈ l.takeWhile isBlank, isBlank c = true := fun c hc =>
    List.all_eq_true.1 (List.all_takeWhile) c hc
  refine ⟨cs.takeWhile isBlank, ((trimFront cs).reverse.takeWhile isBlank).reverse, ?_,
    hblank cs, fun c hc => hblank _ c (List.mem_reverse.1 hc)⟩
  rw [trim, List.append_assoc, ← List.reverse_append, hsplit, List.reverse_reverse, hsplit]

/-- Nothing is removed in front of a character that is not blank. -/
private theorem trimFront_append {word : List Char} (hne : word ≠ [])
    (hword : ∀ c ∈ word, isBlank c = false) (rest : List Char) :
    trimFront (word ++ rest) = word ++ rest := by
  cases word with
  | nil => exact absurd rfl hne
  | cons c word =>
    rw [trimFront, List.cons_append, List.dropWhile_cons_of_neg]
    simp [hword c List.mem_cons_self]

/-- A word without blanks is what trimming leaves of it between blanks. -/
theorem trim_surrounded {front word back : List Char} (hfront : ∀ c ∈ front, isBlank c = true)
    (hword : ∀ c ∈ word, isBlank c = false) (hback : ∀ c ∈ back, isBlank c = true) :
    trim (front ++ word ++ back) = word := by
  have hdrop {blanks : List Char} (h : ∀ c ∈ blanks, isBlank c = true) (rest : List Char) :
      trimFront (blanks ++ rest) = trimFront rest := List.dropWhile_append_of_pos h
  have hback' : ∀ c ∈ back.reverse, isBlank c = true := fun c hc => hback c (List.mem_reverse.1 hc)
  rw [trim, List.append_assoc, hdrop hfront]
  by_cases hne : word = []
  · subst hne
    have hnone := hdrop hback []
    rw [List.append_nil] at hnone
    rw [List.nil_append, hnone]
    rfl
  · have hreverse := trimFront_append (mt List.reverse_eq_nil_iff.1 hne)
      (fun c hc => hword c (List.mem_reverse.1 hc)) []
    rw [List.append_nil] at hreverse
    rw [trimFront_append hne hword, List.reverse_append, hdrop hback', hreverse,
      List.reverse_reverse]

/-- An octal digit is no blank, no sign and no mark. -/
theorem IsDigit.of_octal {c : Char} (h : IsDigit 8 c) : isBlank c = false ∧ c ≠ '+' ∧ c ≠ 'o' := by
  obtain ⟨hlow, hhigh⟩ := h
  have hzero : '0'.toNat = 48 := rfl
  refine ⟨?_, ?_, ?_⟩
  · simp only [isBlank, blankRanges, List.any_cons, List.any_nil, Bool.or_false,
      Bool.or_eq_false_iff, decide_eq_false_iff_not]
    omega
  · rintro rfl
    exact absurd hlow (by decide)
  · rintro rfl
    exact absurd hhigh (by decide)

/-- A digit counts less than the base. -/
theorem lt_of_digit? {base d : Nat} {c : Char} (h : digit? base c = some d) : d < base := by
  unfold digit? at h
  split at h
  · cases h
    omega
  · cases h

end Text

/-! ### Words -/

/-- Digits are added up in a word as long as a word has room for what they stand for. -/
theorem Machine.wordOfDigits?_eq (base w : UInt32) (cs : List Char) :
    wordOfDigits? base w cs =
      (Text.atMost? base.toNat (2 ^ 32 - 1) w.toNat cs).map .ofNat := by
  induction cs generalizing w with
  | nil =>
    have hlt := w.toNat_lt
    rw [wordOfDigits?, Text.atMost?, if_neg (by omega), Option.map_some, UInt32.ofNat_toNat]
  | cons c rest ih =>
    have hlt := w.toNat_lt
    rw [wordOfDigits?, Text.atMost?, if_neg (by omega)]
    cases hd : Text.digit? base.toNat c with
    | none => rfl
    | some d =>
      have hdigit : (UInt32.ofNat d).toNat = d :=
        UInt32.toNat_ofNat_of_lt' (Nat.lt_trans (Text.lt_of_digit? hd) base.toNat_lt)
      -- Where a step does not fit, the number is beyond the limit already.
      have hover (h : 2 ^ 32 ≤ w.toNat * base.toNat + d) :
          Text.atMost? base.toNat (2 ^ 32 - 1) (w.toNat * base.toNat + d) rest = none := by
        rw [Text.atMost?.eq_def, if_pos (by omega)]
      simp only [bind, Option.bind_some]
      rw [checkedMul32_eq rfl rfl]
      by_cases hmul : w.toNat * base.toNat < 2 ^ 32
      · rw [if_pos hmul, Option.bind_some,
          checkedAdd32_eq (UInt32.toNat_ofNat_of_lt' hmul) hdigit]
        by_cases hadd : w.toNat * base.toNat + d < 2 ^ 32
        · rw [if_pos hadd, Option.bind_some, ih, UInt32.toNat_ofNat_of_lt' hadd]
        · rw [if_neg hadd, hover (Nat.le_of_not_lt hadd)]
          rfl
      · rw [if_neg hmul, hover (by omega)]
        rfl

namespace Settings

/-! ### Permission bits -/

/-- Permission bits as a number in octal, with a plus sign or without. -/
def SpellsMode (word : List Char) (m : Nat) : Prop :=
  ∃ sign digits, word = sign ++ digits ∧ (sign = [] ∨ sign = ['+']) ∧ digits ≠ [] ∧
    (∀ c ∈ digits, Text.IsDigit 8 c) ∧ m = Text.numberOf 8 digits ∧ m ≤ 0o7777

theorem exists_dropPlus (word : List Char) :
    ∃ sign, (sign = [] ∨ sign = ['+']) ∧ word = sign ++ dropPlus word := by
  unfold dropPlus
  split
  · exact ⟨['+'], .inr rfl, rfl⟩
  · exact ⟨[], .inl rfl, rfl⟩

theorem exists_dropOctalMark (word : List Char) :
    ∃ mark, (mark = [] ∨ mark = ['0', 'o']) ∧ word = mark ++ dropOctalMark word := by
  unfold dropOctalMark
  split
  · exact ⟨['0', 'o'], .inr rfl, rfl⟩
  · exact ⟨[], .inl rfl, rfl⟩

section

variable {sign digits : List Char} (hsign : sign = [] ∨ sign = ['+'])
  (hdigits : ∀ c ∈ digits, Text.IsDigit 8 c)

include hsign hdigits

/-- A sign is dropped, and no digit is. -/
theorem dropPlus_append : dropPlus (sign ++ digits) = digits := by
  rcases hsign with rfl | rfl
  · cases digits with
    | nil => rfl
    | cons c rest =>
      have hplus := (hdigits c List.mem_cons_self).of_octal.2.1
      rw [List.nil_append, dropPlus]
      rintro rest' ⟨⟩
      exact hplus rfl
  · rfl

/-- A mark is dropped, and no digit is. -/
theorem dropOctalMark_append {mark : List Char} (hmark : mark = [] ∨ mark = ['0', 'o']) :
    dropOctalMark (mark ++ (sign ++ digits)) = sign ++ digits := by
  rcases hmark with rfl | rfl
  · rw [List.nil_append, dropOctalMark]
    rintro rest' heq
    rcases hsign with rfl | rfl
    · rw [List.nil_append] at heq
      have ho : 'o' ∈ digits := by simp [heq]
      exact (hdigits 'o' ho).of_octal.2.2 rfl
    · cases heq
  · rfl

end

/-- A number is read just when it is octal and within the limit. -/
private theorem read_iff (word : List Char) (m : Nat) :
    (match dropPlus word with
      | [] => none
      | digits => Text.atMost? 8 0o7777 0 digits) = some m ↔ SpellsMode word m := by
  have hread {digits : List Char} : Text.atMost? 8 0o7777 0 digits = some m ↔
      (∀ c ∈ digits, Text.IsDigit 8 c) ∧ m = Text.numberOf 8 digits ∧ m ≤ 0o7777 := by
    rw [Text.atMost?_eq_filter _ _ _ (by decide), Option.filter_eq_some_iff,
      Text.ofDigits?_eq_some_iff, Nat.zero_mul, Nat.zero_add, decide_eq_true_eq, and_assoc]
  constructor
  · intro h
    obtain ⟨sign, hsign, hword⟩ := exists_dropPlus word
    cases hdigits : dropPlus word with
    | nil => simp [hdigits] at h
    | cons c rest =>
      rw [hdigits] at h hword
      exact ⟨sign, c :: rest, hword, hsign, List.cons_ne_nil _ _, hread.1 h⟩
  · rintro ⟨sign, digits, rfl, hsign, hne, hdigits, hm⟩
    rw [dropPlus_append hsign hdigits]
    cases digits with
    | nil => exact absurd rfl hne
    | cons c rest => exact hread.2 ⟨hdigits, hm⟩

/-- Permission bits are what stands between blanks behind the mark, if that is an octal number
within the limit. -/
theorem parseMode_iff {text : String} {m : Nat} :
    parseMode text = some m ↔ SpellsMode (dropOctalMark (Text.trim text.toList)) m := by
  rw [parseMode]
  exact read_iff _ m

/-- The machine reads the same permission bits. -/
theorem machine_parseMode_eq (text : String) :
    (Machine.parseMode text).map UInt32.toNat = parseMode text := by
  rw [Machine.parseMode, Machine.wordOfRadix?, parseMode]
  cases dropPlus (dropOctalMark (Text.trim text.toList)) with
  | nil => rfl
  | cons c rest =>
    have height : (8 : UInt32).toNat = 8 := rfl
    have hzero : (0 : UInt32).toNat = 0 := rfl
    simp only
    rw [Machine.wordOfDigits?_eq, height, hzero, Text.atMost?_eq_filter _ _ _ (by decide),
      Text.atMost?_eq_filter _ _ _ (by decide)]
    cases Text.ofDigits? 8 0 (c :: rest) with
    | none => rfl
    | some n =>
      by_cases hroom : n ≤ 4294967295
      · have hword : (UInt32.ofNat n).toNat = n :=
          UInt32.toNat_ofNat_of_lt' (show n < 2 ^ 32 by omega)
        by_cases hn : n ≤ 4095 <;> simp [Option.filter_some, hroom, hword, hn]
      · have hn : ¬n ≤ 4095 := by omega
        simp [Option.filter_some, hroom, hn]

/-- Neither a mark nor a sign is blank. -/
private theorem isBlank_of_mem {mark sign : List Char} (hmark : mark = [] ∨ mark = ['0', 'o'])
    (hsign : sign = [] ∨ sign = ['+']) {c : Char} (hc : c ∈ mark ++ sign) :
    Text.isBlank c = false := by
  have hall : ∀ c ∈ ['0', 'o', '+'], Text.isBlank c = false :=
    List.forall_mem_cons.2 ⟨rfl, List.forall_mem_cons.2 ⟨rfl, List.forall_mem_singleton.2 rfl⟩⟩
  have hsub : mark ++ sign ⊆ ['0', 'o', '+'] := by
    rcases hmark with rfl | rfl <;> rcases hsign with rfl | rfl <;> simp
  exact hall c (hsub hc)

section

variable {front mark sign digits back : List Char}
  (hfront : ∀ c ∈ front, Text.isBlank c = true) (hback : ∀ c ∈ back, Text.isBlank c = true)
  (hmark : mark = [] ∨ mark = ['0', 'o']) (hsign : sign = [] ∨ sign = ['+'])
  (hdigits : ∀ c ∈ digits, Text.IsDigit 8 c)

include hfront hback hmark hsign hdigits

/-- What is left of a number between blanks, when blanks and mark are gone. -/
theorem dropOctalMark_trim :
    dropOctalMark (Text.trim (front ++ (mark ++ (sign ++ digits)) ++ back)) = sign ++ digits := by
  have hword : ∀ c ∈ mark ++ (sign ++ digits), Text.isBlank c = false := by
    intro c hc
    rw [← List.append_assoc] at hc
    rcases List.mem_append.1 hc with hc | hc
    · exact isBlank_of_mem hmark hsign hc
    · exact (hdigits c hc).of_octal.1
  rw [Text.trim_surrounded hfront hword hback, dropOctalMark_append hsign hdigits hmark]

/-- A number in octal between blanks is read as what it stands for, if that is within the limit. -/
theorem parseMode_surrounded (hne : digits ≠ []) :
    parseMode (.ofList (front ++ (mark ++ (sign ++ digits)) ++ back)) =
      if Text.numberOf 8 digits ≤ 0o7777 then some (Text.numberOf 8 digits) else none := by
  have hnumber : Text.ofDigits? 8 0 digits = some (Text.numberOf 8 digits) := by
    rw [Text.ofDigits?_eq_some_iff, Nat.zero_mul, Nat.zero_add]
    exact ⟨hdigits, rfl⟩
  rw [parseMode, String.toList_ofList, dropOctalMark_trim hfront hback hmark hsign hdigits,
    dropPlus_append hsign hdigits]
  cases digits with
  | nil => exact absurd rfl hne
  | cons c rest =>
    simp only
    rw [Text.atMost?_eq_filter _ _ _ (by decide), hnumber, Option.filter_some]
    simp only [decide_eq_true_eq]

end

/-- Zeros in front of a number change nothing. -/
theorem parseMode_zeros {front mark sign digits back : List Char}
    (hfront : ∀ c ∈ front, Text.isBlank c = true) (hback : ∀ c ∈ back, Text.isBlank c = true)
    (hmark : mark = [] ∨ mark = ['0', 'o']) (hsign : sign = [] ∨ sign = ['+'])
    (hdigits : ∀ c ∈ digits, Text.IsDigit 8 c) (hne : digits ≠ []) (zeros : Nat) :
    parseMode (.ofList
        (front ++ (mark ++ (sign ++ (List.replicate zeros '0' ++ digits))) ++ back)) =
      parseMode (.ofList (front ++ (mark ++ (sign ++ digits)) ++ back)) := by
  have hall : ∀ c ∈ List.replicate zeros '0' ++ digits, Text.IsDigit 8 c := by
    intro c hc
    rcases List.mem_append.1 hc with hzero | hc
    · obtain rfl := List.eq_of_mem_replicate hzero
      exact ⟨Nat.le_refl _, by decide⟩
    · exact hdigits c hc
  have hne' : List.replicate zeros '0' ++ digits ≠ [] := by simp [hne]
  rw [parseMode_surrounded hfront hback hmark hsign hall hne',
    parseMode_surrounded hfront hback hmark hsign hdigits hne, Text.numberOf_zeros]

/-- The texts that spell permission bits, from their first character to the last. -/
theorem parseMode_iff_exists {text : String} {m : Nat} :
    parseMode text = some m ↔ ∃ front mark word back,
      text.toList = front ++ (mark ++ word) ++ back ∧ (∀ c ∈ front, Text.isBlank c = true) ∧
        (∀ c ∈ back, Text.isBlank c = true) ∧ (mark = [] ∨ mark = ['0', 'o']) ∧
        SpellsMode word m := by
  rw [parseMode_iff]
  constructor
  · intro h
    obtain ⟨front, back, htext, hfront, hback⟩ := Text.exists_trim text.toList
    obtain ⟨mark, hmark, htrim⟩ := exists_dropOctalMark (Text.trim text.toList)
    refine ⟨front, mark, dropOctalMark (Text.trim text.toList), back, ?_, hfront, hback, hmark, h⟩
    rw [← htrim]
    exact htext
  · rintro ⟨front, mark, word, back, htext, hfront, hback, hmark, h⟩
    obtain ⟨sign, digits, rfl, hsign, -, hdigits, -⟩ := id h
    rw [htext, dropOctalMark_trim hfront hback hmark hsign hdigits]
    exact h

/-- A text with any other character behind its sign is refused. -/
theorem parseMode_eq_none {text : String} {c : Char}
    (hc : c ∈ dropPlus (dropOctalMark (Text.trim text.toList))) (hother : ¬Text.IsDigit 8 c) :
    parseMode text = none := by
  cases h : parseMode text with
  | none => rfl
  | some m =>
    obtain ⟨sign, digits, hword, hsign, -, hdigits, -⟩ := parseMode_iff.1 h
    rw [hword, dropPlus_append hsign hdigits] at hc
    exact absurd (hdigits c hc) hother

/-! ### Both variables -/

/-- The data is not forced to stable storage just when the variable says so. -/
theorem sync_eq_false_iff (mode sync : Option String) :
    (ofVariables mode sync).sync = false ↔
      ∃ text, sync = some text ∧ Text.trim text.toList = "false".toList := by
  have hflag (text : String) : parseFlag text = some false ↔
      Text.trim text.toList = "false".toList := by
    have hword (word : String) : String.ofList (Text.trim text.toList) = word ↔
        Text.trim text.toList = word.toList := by
      rw [← String.toList_inj, String.toList_ofList]
    simp only [parseFlag, hword]
    by_cases htrue : Text.trim text.toList = "true".toList
    · rw [if_pos htrue, htrue]
      decide
    · rw [if_neg htrue]
      split <;> simp_all
  cases sync with
  | none => simp [ofVariables]
  | some text =>
    simp only [ofVariables, Option.bind_some, Option.some.injEq, exists_eq_left', ← hflag]
    cases parseFlag text with
    | none => simp
    | some b => simp

/-- What the two variables say.  Permission bits are an octal number, behind an optional sign and an
optional mark and between blanks, that is within the limit as it stands; a word of 32 bits finds the
same number.  Anything else counts as unset, and so does whatever is neither `true` nor `false` for
the other variable. -/
theorem variables_are_read :
    (∀ text m, parseMode text = some m ↔
      SpellsMode (dropOctalMark (Text.trim text.toList)) m) ∧
    (∀ text m, parseMode text = some m ↔ ∃ front mark word back,
      text.toList = front ++ (mark ++ word) ++ back ∧ (∀ c ∈ front, Text.isBlank c = true) ∧
        (∀ c ∈ back, Text.isBlank c = true) ∧ (mark = [] ∨ mark = ['0', 'o']) ∧
        SpellsMode word m) ∧
    (∀ text, (Machine.parseMode text).map UInt32.toNat = parseMode text) ∧
    (∀ front mark sign digits back, (∀ c ∈ front, Text.isBlank c = true) →
      (∀ c ∈ back, Text.isBlank c = true) → (mark = [] ∨ mark = ['0', 'o']) →
      (sign = [] ∨ sign = ['+']) → (∀ c ∈ digits, Text.IsDigit 8 c) → digits ≠ [] → ∀ zeros,
      parseMode (.ofList
          (front ++ (mark ++ (sign ++ (List.replicate zeros '0' ++ digits))) ++ back)) =
        parseMode (.ofList (front ++ (mark ++ (sign ++ digits)) ++ back))) ∧
    (∀ text, ∀ c ∈ dropPlus (dropOctalMark (Text.trim text.toList)), ¬Text.IsDigit 8 c →
      parseMode text = none) ∧
    (∀ mode sync m, (ofVariables mode sync).mode = some m ↔
      ∃ text, mode = some text ∧ SpellsMode (dropOctalMark (Text.trim text.toList)) m) ∧
    ∀ mode sync, (ofVariables mode sync).sync = false ↔
      ∃ text, sync = some text ∧ Text.trim text.toList = "false".toList := by
  refine ⟨fun _ _ => parseMode_iff, fun _ _ => parseMode_iff_exists, machine_parseMode_eq,
    fun _ _ _ _ _ hfront hback hmark hsign hdigits hne =>
      parseMode_zeros hfront hback hmark hsign hdigits hne,
    fun _ _ hc hother => parseMode_eq_none hc hother, fun mode sync m => ?_, sync_eq_false_iff⟩
  rw [ofVariables, Option.bind_eq_some_iff]
  simp only [parseMode_iff]

/-- A hundred zeros in front of permission bits, and a second mark. -/
theorem variables_are_read_zeros :
    parseMode (.ofList ([' '] ++ (['0', 'o'] ++ (['+'] ++ (List.replicate 100 '0' ++
      ['6', '4', '4']))) ++ ['\n'])) = some 0o644 ∧
    parseMode "0o0o644" = none := by
  obtain ⟨-, -, -, hzeros, hother, -⟩ := variables_are_read
  have hdigits : ∀ c ∈ ['6', '4', '4'], Text.IsDigit 8 c := by
    refine List.forall_mem_cons.2 ⟨?_, List.forall_mem_cons.2 ⟨?_, List.forall_mem_singleton.2 ?_⟩⟩
      <;> exact ⟨by decide, by decide⟩
  constructor
  · rw [hzeros [' '] ['0', 'o'] ['+'] ['6', '4', '4'] ['\n'] (List.forall_mem_singleton.2 rfl)
      (List.forall_mem_singleton.2 rfl) (.inr rfl) (.inr rfl) hdigits (List.cons_ne_nil _ _) 100]
    decide +kernel
  · exact hother "0o0o644" 'o' (by decide +kernel) fun h => h.of_octal.2.2 rfl

end Settings

end ConstDb
