import Installer.Version
import Mathlib.Data.Nat.Digits.Defs
import Mathlib.Tactic.Common
import Mathlib.Tactic.Ring

/-! # Numbers and versions in texts

What texts denote, said without the functions that read them. A run of digits denotes the number that it
is in positional notation (`Text.decimal`), with any number of zeros in front, and a sign may stand before
it (`Text.Denotes`). A version is made of one to four runs of digits with dots between them
(`Version.IsDotted`), maybe behind a letter that marks it (`Version.HasMark`). The readers of the language
accept just these texts: `Text.natural?_eq_some_iff`, `Text.int64?_eq_some_iff`,
`Version.isVersionChars_iff` and `Version.isMarked_iff`. -/

namespace Installer

/-! ### Digits -/

namespace Text

/-- The number that a run of decimal digits denotes. -/
def decimal (cs : List Char) : Nat := Nat.ofDigits 10 (cs.reverse.map fun c => c.toNat - '0'.toNat)

/-- A run of decimal digits that is not empty. -/
def IsDigits (cs : List Char) : Prop := cs ≠ [] ∧ ∀ c ∈ cs, c.isDigit

variable {cs : List Char}

@[simp] theorem decimal_nil : decimal [] = 0 := rfl

/-- The first digit of a number in positional notation counts most. -/
theorem ofDigits_reverse_cons (base : Nat) (value : Char → Nat) (c : Char) (cs : List Char) :
    Nat.ofDigits base ((c :: cs).reverse.map value) =
      value c * base ^ cs.length + Nat.ofDigits base (cs.reverse.map value) := by
  simp only [List.reverse_cons, List.map_append, List.map_cons, List.map_nil, Nat.ofDigits_append,
    List.length_map, List.length_reverse, Nat.ofDigits_singleton]
  ring

/-- The digits behind some that have been read push these up by as many places. -/
theorem digitsFrom?_eq_some_iff {base : Nat} {value : Char → Nat} {isDigit : Char → Bool}
    (h : ∀ c, digitIn? base c = if isDigit c then some (value c) else none) {n m : Nat} :
    digitsFrom? base n cs = some m ↔ (∀ c ∈ cs, isDigit c) ∧
      n * base ^ cs.length + Nat.ofDigits base (cs.reverse.map value) = m := by
  induction cs generalizing n with
  | nil => simp [digitsFrom?]
  | cons c cs ih =>
    rw [digitsFrom?, h, List.forall_mem_cons, ofDigits_reverse_cons, List.length_cons]
    split_ifs with hc
    · have hplaces : (n * base + value c) * base ^ cs.length +
          Nat.ofDigits base (cs.reverse.map value) = n * base ^ (cs.length + 1) +
            (value c * base ^ cs.length + Nat.ofDigits base (cs.reverse.map value)) := by
        ring
      rw [Option.bind_some, ih, hplaces]
      simp [hc]
    · simp [hc]

theorem digitIn?_ten (c : Char) :
    digitIn? 10 c = if c.isDigit then some (c.toNat - '0'.toNat) else none := by
  have hval : ∀ d : Char, d.toNat = d.val.toNat := fun _ => rfl
  unfold digitIn? digit?
  delta Char.isDigit
  simp only [Char.le_def, Bool.and_eq_true, decide_eq_true_eq, ge_iff_le, UInt32.le_iff_toNat_le,
    Char.reduceVal, UInt32.reduceToNat, Char.reduceToNat, ← hval]
  -- the other digits stand for ten and more
  split_ifs <;> simp [Option.filter]
  omega

theorem natural?_eq_some_iff {n : Nat} : natural? 10 cs = some n ↔ IsDigits cs ∧ decimal cs = n := by
  unfold natural? IsDigits
  split_ifs with h
  · simp [List.isEmpty_iff.mp h]
  · rw [digitsFrom?_eq_some_iff digitIn?_ten, Nat.zero_mul, Nat.zero_add, ← decimal]
    simp [List.isEmpty_iff.not.mp h]

/-! ### Signs -/

/-- A text denotes a number by digits with at most one sign in front. -/
inductive Denotes : List Char → Int → Prop
  | unsigned {cs : List Char} (h : IsDigits cs) : Denotes cs (decimal cs)
  | plus {cs : List Char} (h : IsDigits cs) : Denotes ('+' :: cs) (decimal cs)
  | minus {cs : List Char} (h : IsDigits cs) : Denotes ('-' :: cs) (-decimal cs)

theorem IsDigits.head {c : Char} (h : IsDigits (c :: cs)) : c.isDigit := h.2 c List.mem_cons_self

theorem signed?_eq_some_iff {n : Int} : signed? cs = some n ↔ Denotes cs n := by
  constructor
  · intro h
    unfold signed? at h
    split at h
    all_goals
      obtain ⟨m, hm, rfl⟩ := Option.map_eq_some_iff.mp h
      obtain ⟨hdigits, rfl⟩ := natural?_eq_some_iff.mp hm
    · exact .plus hdigits
    · exact .minus hdigits
    · exact .unsigned hdigits
  · intro h
    cases h with
    | unsigned hdigits =>
      unfold signed?
      split
      · cases hdigits.head
      · cases hdigits.head
      · rw [natural?_eq_some_iff.mpr ⟨hdigits, rfl⟩]
        rfl
    | plus hdigits =>
      rw [signed?, natural?_eq_some_iff.mpr ⟨hdigits, rfl⟩]
      rfl
    | minus hdigits =>
      rw [signed?, natural?_eq_some_iff.mpr ⟨hdigits, rfl⟩]
      rfl

/-- A number that can be stored in 64 bits with a sign. -/
def InInt64 (n : Int) : Prop := -9223372036854775808 ≤ n ∧ n ≤ 9223372036854775807

theorem int64?_eq_some_iff {s : String} {n : Int} :
    int64? s = some n ↔ Denotes s.toList n ∧ InInt64 n := by
  simp [int64?, integer?, signed?_eq_some_iff, InInt64]

/-- A text that denotes a number of 64 bits. -/
def IsInt64 (s : String) : Prop := ∃ n, Denotes s.toList n ∧ InInt64 n

theorem isSome_int64?_iff {s : String} : (int64? s).isSome ↔ IsInt64 s := by
  simp only [Option.isSome_iff_exists, int64?_eq_some_iff, IsInt64]

end Text

/-! ### Versions -/

namespace Version

/-- One to four numbers of 32 bits with dots between them. -/
def IsDotted (cs : List Char) : Prop :=
  ∃ parts : List (List Char), 1 ≤ parts.length ∧ parts.length ≤ 4 ∧
    (∀ p ∈ parts, Text.IsDigits p ∧ Text.decimal p ≤ 4294967295) ∧ cs = ['.'].intercalate parts

theorem isPart_iff {cs : List Char} :
    isPart cs ↔ Text.IsDigits cs ∧ Text.decimal cs ≤ 4294967295 := by
  unfold isPart
  split
  · next n hn =>
    obtain ⟨hdigits, rfl⟩ := Text.natural?_eq_some_iff.mp hn
    simp only [hdigits, true_and, decide_eq_true_eq]
    omega
  · next hn =>
    have hnot : ¬ Text.IsDigits cs := fun h => by
      rw [Text.natural?_eq_some_iff.mpr ⟨h, rfl⟩] at hn
      cases hn
    simp [hnot]

/-- Digits are not dots, so that the parts between the dots are the numbers. -/
theorem isVersionChars_iff {cs : List Char} : isVersionChars cs ↔ IsDotted cs := by
  unfold isVersionChars
  simp only [Bool.and_eq_true, decide_eq_true_eq, List.all_eq_true, isPart_iff]
  rw [← List.splitOn_eq_splitOnP]
  constructor
  · rintro ⟨hlength, hparts⟩
    exact ⟨_, List.length_pos_iff.mpr (List.splitOn_ne_nil _ _), hlength, hparts,
      (List.intercalate_splitOn '.').symm⟩
  · rintro ⟨parts, hpos, hlength, hparts, rfl⟩
    have hdots : ∀ p ∈ parts, '.' ∉ p := by
      intro p hp hmem
      cases (hparts p hp).1.2 _ hmem
    rw [List.splitOn_intercalate '.' hdots (List.length_pos_iff.mp hpos)]
    exact ⟨hlength, hparts⟩

/-- A version behind the letter that marks it. -/
def HasMark (s : String) : Prop :=
  ∃ mark cs, s.toList = mark :: cs ∧ (mark = 'v' ∨ mark = 'V') ∧ IsDotted cs

theorem isMarked_iff {s : String} : isMarked s ↔ HasMark s := by
  unfold isMarked HasMark
  split
  · next cs hs => simp [hs, isVersionChars_iff]
  · next cs hs => simp [hs, isVersionChars_iff]
  · next hlower hupper =>
    simp only [Bool.false_eq_true, false_iff]
    rintro ⟨mark, cs, hs, rfl | rfl, -⟩
    · exact hlower cs hs
    · exact hupper cs hs

theorem isVersion_iff {s : String} : isVersion s ↔ IsDotted s.toList := isVersionChars_iff

/-- A marked version is no number. -/
theorem HasMark.not_isInt64 {s : String} (h : HasMark s) : ¬ Text.IsInt64 s := by
  rintro ⟨n, hn, -⟩
  obtain ⟨mark, cs, hs, hmark, -⟩ := h
  rw [hs] at hn
  cases hn with
  | unsigned hdigits =>
    have hdigit := hdigits.head
    rcases hmark with rfl | rfl <;> cases hdigit
  | plus _ => simp at hmark
  | minus _ => simp at hmark

end Version

end Installer
