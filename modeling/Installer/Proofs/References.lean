import Installer.Document.Reading
import Mathlib

/-! # What references stand for

A reference names one of five entities, or gives the number of a character in decimal or hexadecimal
digits (`Entity.Denotes`). In a value the digits come alone, and no character has the number zero
(`Entity.inValue_eq_ok_iff`); in content a plus sign may stand before them, and the letter of
hexadecimal numbers may be a capital one (`Entity.inContent_eq_ok_iff`). So whatever a reference stands
for in a value it stands for in content too, and the other way round just without these liberties
(`Entity.content_agrees_with_value`). -/

namespace Installer.Markup.Entity

/-! ### Numbers -/

/-- Digits read so far do not lose their value. -/
theorem le_of_digitsFrom? {base n m : Nat} (hb : 0 < base) {cs : List Char}
    (h : Text.digitsFrom? base n cs = some m) : n ≤ m := by
  induction cs generalizing n with
  | nil => exact (Option.some.inj h).le
  | cons c cs ih =>
    obtain ⟨d, -, h⟩ := Option.bind_eq_some_iff.mp h
    calc n ≤ n * base := Nat.le_mul_of_pos_right n hb
      _ ≤ n * base + d := Nat.le_add_right _ d
      _ ≤ m := ih h

/-- To stop at the first digit that is too much is to read a number that is not too large. -/
theorem readDigits_eq_ok_iff {base n m : Nat} (hb : 0 < base) (hn : n < 4294967296)
    {cs : List Char} : readDigits base n cs = .ok m ↔
      Text.digitsFrom? base n cs = some m ∧ m < 4294967296 := by
  induction cs generalizing n with
  | nil =>
    simp only [readDigits, Text.digitsFrom?, Except.ok.injEq, Option.some.injEq]
    exact ⟨fun h => ⟨h, h ▸ hn⟩, And.left⟩
  | cons c cs ih =>
    rw [readDigits, Text.digitsFrom?]
    cases hd : Text.digitIn? base c with
    | none => simp
    | some d =>
      simp only [Option.bind_some]
      split_ifs with hsmall
      · exact ih hsmall
      · refine ⟨nofun, fun ⟨h, hm⟩ => ?_⟩
        have := le_of_digitsFrom? hb h
        omega

theorem natural?_sign {base : Nat} {sign : Char} (h : sign = '+' ∨ sign = '-') (cs : List Char) :
    Text.natural? base (sign :: cs) = none := by
  have hdigit : Text.digit? sign = none := by rcases h with rfl | rfl <;> decide
  simp [Text.natural?, Text.digitsFrom?, Text.digitIn?, hdigit]

theorem readNumber_eq_ok_iff {base n : Nat} (hb : 0 < base) (cs : List Char) :
    readNumber base cs = .ok n ↔ Text.natural? base cs = some n ∧ n < 4294967296 := by
  unfold readNumber
  split
  · simp [Text.natural?]
  · simp [natural?_sign (.inl rfl)]
  · simp [natural?_sign (.inr rfl)]
  · next hne _ _ =>
    rw [readDigits_eq_ok_iff hb (by omega), Text.natural?, if_neg (by simpa using hne)]

/-- A number without the plus sign before it. -/
def dropPlus : List Char → List Char
  | '+' :: digits => digits
  | cs => cs

theorem lenientNumber?_eq_some_iff {base n : Nat} (cs : List Char) :
    lenientNumber? base cs = some n ↔ Text.natural? base (dropPlus cs) = some n ∧ n < 4294967296 := by
  unfold lenientNumber? dropPlus
  split <;> simp [Option.filter_eq_some_iff]

theorem scalar?_eq_some_iff {n : Nat} {c : Char} : scalar? n = some c ↔ n = c.toNat := by
  unfold scalar?
  split_ifs with h
  · rw [Option.some_inj]
    constructor
    · rintro rfl
      rfl
    · intro hn
      exact Char.toNat_inj.mp hn
  · simp only [false_iff]
    rintro rfl
    exact h c.valid

theorem toNat_lt (c : Char) : c.toNat < 4294967296 := c.val.toNat_lt

theorem toNat_ne_zero_iff {c : Char} : c.toNat ≠ 0 ↔ c ≠ Char.ofNat 0 := by
  rw [not_iff_not, ← Char.toNat_inj]
  rfl

/-! ### Names -/

/-- The name of a reference denotes a character: it is the name of an entity or the number of the
character, in hexadecimal digits behind one of the given letters. What may stand before the digits is
removed by `strip`. -/
inductive Denotes (letters : List Char) (strip : List Char → List Char) : List Char → Char → Prop
  | named {name : String} {c : Char} (h : (name, c) ∈ named) : Denotes letters strip name.toList c
  | decimal {number : List Char} {c : Char} (h : Text.natural? 10 (strip number) = some c.toNat) :
      Denotes letters strip ('#' :: number) c
  | hexadecimal {x : Char} {number : List Char} {c : Char} (hx : x ∈ letters)
      (h : Text.natural? 16 (strip number) = some c.toNat) :
      Denotes letters strip ('#' :: x :: number) c

theorem lookup_named_iff {name : List Char} {c : Char} :
    named.lookup (String.ofList name) = some c ↔ ∃ s, (s, c) ∈ named ∧ s.toList = name := by
  have hunique : ∀ p ∈ named, named.lookup p.1 = some p.2 := by decide
  constructor
  · intro h
    obtain ⟨l, l', hl, -⟩ := List.lookup_eq_some_iff.mp h
    exact ⟨String.ofList name, by rw [hl]; simp, by simp⟩
  · rintro ⟨s, hs, rfl⟩
    rw [String.ofList_toList]
    exact hunique _ hs

theorem lookup_named_number (number : List Char) :
    named.lookup (String.ofList ('#' :: number)) = none := by
  have hstart : ∀ p ∈ named, p.1.toList.head? ≠ some '#' := by decide
  refine Option.eq_none_iff_forall_ne_some.mpr fun c hc => ?_
  obtain ⟨s, hs, heq⟩ := lookup_named_iff.mp hc
  exact hstart _ hs (by rw [heq]; rfl)

section
variable {letters : List Char} {strip : List Char → List Char} {c : Char}

/-- The number after a number sign is no name of an entity. -/
theorem denotes_number_iff {number : List Char} : Denotes letters strip ('#' :: number) c ↔
    Text.natural? 10 (strip number) = some c.toNat ∨
      ∃ x ∈ letters, ∃ hex, number = x :: hex ∧ Text.natural? 16 (strip hex) = some c.toNat := by
  constructor
  · intro h
    generalize hname : '#' :: number = name at h
    cases h with
    | @named name c h =>
      have := lookup_named_iff.mpr ⟨name, h, rfl⟩
      rw [← hname, lookup_named_number] at this
      cases this
    | decimal h =>
      cases hname
      exact .inl h
    | hexadecimal hx h =>
      cases hname
      exact .inr ⟨_, hx, _, rfl, h⟩
  · rintro (h | ⟨x, hx, hex, rfl, h⟩)
    · exact .decimal h
    · exact .hexadecimal hx h

theorem denotes_name_iff {name : List Char} (h : name.head? ≠ some '#') :
    Denotes letters strip name c ↔ named.lookup (String.ofList name) = some c := by
  constructor
  · intro hd
    cases hd with
    | named hmem => exact lookup_named_iff.mpr ⟨_, hmem, rfl⟩
    | decimal _ | hexadecimal _ _ => simp at h
  · intro hl
    obtain ⟨s, hs, rfl⟩ := lookup_named_iff.mp hl
    exact .named hs

end

/-! ### References in values -/

theorem natural?_letter {x : Char} (h : x = 'x' ∨ x = 'X') (cs : List Char) :
    Text.natural? 10 (x :: cs) = none := by
  have hdigit : Text.digit? x = none := by rcases h with rfl | rfl <;> decide
  simp [Text.natural?, Text.digitsFrom?, Text.digitIn?, hdigit]

/-- The character with the given number in a value. -/
def characterOf (n : Nat) : Except NumberFault Char :=
  if n = 0 then .error .zero
  else
    match scalar? n with
    | some c => .ok c
    | none => .error (.notScalar n)

theorem bind_characterOf_iff {read : Except NumberFault Nat} {c : Char} :
    read.bind characterOf = .ok c ↔ read = .ok c.toNat ∧ c.toNat ≠ 0 := by
  cases read with
  | error fault => simp [Except.bind]
  | ok n =>
    have hscalar : scalar? n = some c ↔ n = c.toNat := scalar?_eq_some_iff
    rw [Except.bind, characterOf, Except.ok.injEq, ← hscalar]
    split_ifs with hn
    · subst hn
      simp [hscalar, eq_comm]
    · have hc : ∀ c, scalar? n = some c → c.toNat ≠ 0 :=
        fun c hc => scalar?_eq_some_iff.mp hc ▸ hn
      cases hd : scalar? n with
      | none => simp
      | some d => simpa using fun hdc => hc c (hd.trans (congrArg some hdc))

theorem numbered_hexadecimal (hex : List Char) :
    numbered ('x' :: hex) = (readNumber 16 hex).bind characterOf := by
  rw [numbered]
  cases readNumber 16 hex <;> rfl

theorem numbered_decimal {number : List Char} (h : ∀ hex, number ≠ 'x' :: hex) :
    numbered number = (readNumber 10 number).bind characterOf := by
  unfold numbered
  split
  · exact absurd rfl (h _)
  · cases readNumber 10 number <;> rfl

theorem numbered_eq_ok_iff (number : List Char) (c : Char) :
    numbered number = .ok c ↔ Denotes ['x'] id ('#' :: number) c ∧ c.toNat ≠ 0 := by
  rw [denotes_number_iff]
  by_cases h : ∃ hex, number = 'x' :: hex
  · obtain ⟨hex, rfl⟩ := h
    rw [numbered_hexadecimal, bind_characterOf_iff, readNumber_eq_ok_iff (by decide)]
    simp [natural?_letter (.inl rfl), toNat_lt]
  · push Not at h
    rw [numbered_decimal h, bind_characterOf_iff, readNumber_eq_ok_iff (by decide)]
    simp [toNat_lt, h]

/-- **A reference in a value** denotes a character other than the one with the number zero. The number
has no sign, and the letter of hexadecimal numbers is a small one. -/
theorem inValue_eq_ok_iff (start : Nat) (name : List Char) (c : Char) :
    inValue start name = .ok c ↔ Denotes ['x'] id name c ∧ c.toNat ≠ 0 := by
  have hnamed : ∀ p ∈ named, p.2.toNat ≠ 0 := by decide
  unfold inValue
  split
  · next number =>
    rw [← numbered_eq_ok_iff]
    cases numbered number <;> simp
  · next hname =>
    have hhead : name.head? ≠ some '#' := by
      cases name with
      | nil => simp
      | cons d ds => exact fun hd => hname ds (by rw [Option.some.inj hd])
    rw [denotes_name_iff hhead]
    cases hl : named.lookup (String.ofList name) with
    | none => simp
    | some d =>
      obtain ⟨s, hs, -⟩ := lookup_named_iff.mp hl
      simp only [Except.ok.injEq, Option.some.injEq, iff_self_and]
      rintro rfl
      exact hnamed _ hs

/-! ### References in content -/

theorem bind_scalar?_iff {code : Option Nat} {c : Char} :
    code.bind scalar? = some c ↔ code = some c.toNat := by
  simp [Option.bind_eq_some_iff, scalar?_eq_some_iff]

theorem natural?_dropPlus_letter {x : Char} (h : x = 'x' ∨ x = 'X') (cs : List Char) :
    Text.natural? 10 (dropPlus (x :: cs)) = none := by
  rcases h with rfl | rfl <;> exact natural?_letter (by decide) cs

/-- The number that a name in content gives. -/
def contentNumber? (number : List Char) : Option Nat :=
  match number with
  | 'x' :: hex | 'X' :: hex => lenientNumber? 16 hex
  | _ => lenientNumber? 10 number

theorem contentNumber?_eq_some_iff (number : List Char) (c : Char) :
    contentNumber? number = some c.toNat ↔ Denotes ['x', 'X'] dropPlus ('#' :: number) c := by
  rw [denotes_number_iff]
  -- A number behind a letter is never read as a decimal one, so the two ways exclude one another.
  unfold contentNumber?
  split
  · simp [lenientNumber?_eq_some_iff, natural?_dropPlus_letter, toNat_lt]
  · simp [lenientNumber?_eq_some_iff, natural?_dropPlus_letter, toNat_lt]
  · next hx hX =>
    have hletter : ∀ x ∈ ['x', 'X'], ∀ hex, number ≠ x :: hex := by
      simpa using ⟨hx, hX⟩
    rw [lenientNumber?_eq_some_iff, and_iff_left (toNat_lt c)]
    refine ⟨.inl, fun h => h.elim id ?_⟩
    rintro ⟨x, hmem, hex, heq, -⟩
    exact absurd heq (hletter x hmem hex)

theorem inContent_number (number : List Char) (c : Char) :
    inContent ('#' :: number) = .ok c ↔ contentNumber? number = some c.toNat := by
  have hcontent : inContent ('#' :: number) = match (contentNumber? number).bind scalar? with
      | some c => .ok c
      | none => .error (.invalidReference (String.ofList ('#' :: number))) := by
    unfold inContent
    rw [lookup_named_number]
    rfl
  rw [← bind_scalar?_iff, hcontent]
  cases (contentNumber? number).bind scalar? <;> simp

/-- **A reference in content** denotes a character. Its number may have a plus sign, and the letter of
hexadecimal numbers may be a capital one. -/
theorem inContent_eq_ok_iff (name : List Char) (c : Char) :
    inContent name = .ok c ↔ Denotes ['x', 'X'] dropPlus name c := by
  by_cases hhead : name.head? = some '#'
  · obtain ⟨number, rfl⟩ := List.head?_eq_some_iff.mp hhead
    rw [inContent_number, contentNumber?_eq_some_iff]
  · rw [denotes_name_iff hhead]
    unfold inContent
    cases named.lookup (String.ofList name) with
    | some d => simp
    | none =>
      dsimp only
      split
      · simp at hhead
      · simp

/-! ### References in both places -/

/-- A name with a plus sign before its digits. -/
def isSigned : List Char → Bool
  | '#' :: '+' :: _ | '#' :: 'x' :: '+' :: _ | '#' :: 'X' :: '+' :: _ => true
  | _ => false

/-- The name with a small letter before hexadecimal digits. -/
def smallLetter : List Char → List Char
  | '#' :: 'X' :: hex => '#' :: 'x' :: hex
  | name => name

theorem dropPlus_of_ne {cs : List Char} (h : ∀ digits, cs ≠ '+' :: digits) : dropPlus cs = cs := by
  unfold dropPlus
  split
  · exact absurd rfl (h _)
  · rfl

/-- A number that can be read has no sign to be removed. -/
theorem natural?_dropPlus {base n : Nat} {cs : List Char} (h : Text.natural? base cs = some n) :
    Text.natural? base (dropPlus cs) = some n := by
  rw [dropPlus_of_ne, h]
  rintro digits rfl
  rw [natural?_sign (.inl rfl)] at h
  cases h

theorem Denotes.lenient {name : List Char} {c : Char} (h : Denotes ['x'] id name c) :
    Denotes ['x', 'X'] dropPlus name c := by
  cases h with
  | named h => exact .named h
  | decimal h => exact .decimal (natural?_dropPlus h)
  | hexadecimal hx h =>
    exact .hexadecimal (List.mem_cons.mpr (.inl (List.mem_singleton.mp hx))) (natural?_dropPlus h)

/-- What is written without a plus sign denotes the same in content and, with a small letter, in a
value. -/
theorem denotes_smallLetter_iff {name : List Char} (h : isSigned name = false) (c : Char) :
    Denotes ['x', 'X'] dropPlus name c ↔ Denotes ['x'] id (smallLetter name) c := by
  unfold smallLetter
  split
  · next hex =>
    have hplus : dropPlus hex = hex := dropPlus_of_ne (by rintro digits rfl; cases h)
    simp [denotes_number_iff, natural?_letter, natural?_dropPlus_letter, hplus]
  · next hcapital =>
    refine ⟨fun hd => ?_, Denotes.lenient⟩
    cases hd with
    | named hmem => exact .named hmem
    | @decimal number _ hn =>
      have hplus : dropPlus number = number := dropPlus_of_ne (by rintro digits rfl; cases h)
      exact .decimal (hplus ▸ hn)
    | @hexadecimal x hex _ hx hn =>
      obtain rfl : x = 'x' := by
        rcases List.mem_cons.mp hx with hx | hx
        · exact hx
        · exact absurd (by rw [List.mem_singleton.mp hx]) (hcapital hex)
      have hplus : dropPlus hex = hex := dropPlus_of_ne (by rintro digits rfl; cases h)
      exact .hexadecimal (List.mem_singleton.mpr rfl) (hplus ▸ hn)

/-- What denotes a character in a value has no plus sign and no capital letter. -/
theorem Denotes.strict {name : List Char} {c : Char} (h : Denotes ['x'] id name c) :
    isSigned name = false ∧ smallLetter name = name := by
  have hnamed : ∀ p ∈ Entity.named, isSigned p.1.toList = false ∧
      smallLetter p.1.toList = p.1.toList := by
    decide
  have hsign : ∀ base digits, Text.natural? base ('+' :: digits) ≠ some c.toNat := by
    simp [natural?_sign]
  have hletter : ∀ x, x = 'x' ∨ x = 'X' → ∀ hex, Text.natural? 10 (x :: hex) ≠ some c.toNat := by
    intro x hx hex
    simp [natural?_letter hx]
  cases h with
  | named h => exact hnamed _ h
  | decimal h =>
    constructor
    · unfold isSigned
      split
      · next heq => cases heq; exact absurd h (hsign _ _)
      · next heq => cases heq; exact absurd h (hletter _ (.inl rfl) _)
      · next heq => cases heq; exact absurd h (hletter _ (.inr rfl) _)
      · rfl
    · unfold smallLetter
      split
      · next heq => cases heq; exact absurd h (hletter _ (.inr rfl) _)
      · rfl
  | hexadecimal hx h =>
    rw [List.mem_singleton.mp hx]
    refine ⟨?_, rfl⟩
    unfold isSigned
    split
    · next heq => cases heq
    · next heq => cases heq; exact absurd h (hsign _ _)
    · next heq => cases heq
    · rfl

/-- A value that is a single reference. -/
theorem unescape_reference {name : List Char} (h : ∀ c ∈ name, isReferenceMark c = false) :
    unescape ('&' :: (name ++ [';'])) = (inValue 1 name).map ([·]) := by
  have hpos : ∀ c ∈ name, (!isReferenceMark c) = true := fun c hc => by simp [h c hc]
  have htake : (name ++ [';']).takeWhile (!isReferenceMark ·) = name := by
    rw [List.takeWhile_append_of_pos hpos]
    simp [isReferenceMark]
  have hdrop : (name ++ [';']).dropWhile (!isReferenceMark ·) = [';'] := by
    rw [List.dropWhile_append_of_pos hpos]
    simp [isReferenceMark]
  rw [unescape, unescapeFrom, htake]
  split
  · next rest heq =>
    obtain rfl : rest = [] := (List.cons.inj (heq.symm.trans hdrop)).2
    cases inValue (0 + 1) name with
    | error fault => rfl
    | ok c => simp [unescapeFrom, Except.map]
  · next heq => exact absurd hdrop (heq [])

/-- **One reference, one meaning.** A reference stands for a character in a value just if it stands for
it in content, the character is not the one with the number zero, and the name has no plus sign and no
capital letter before its digits. What has such a letter in content can be written with a small one
in a value. In a value that consists of the reference alone, the character is the whole text. -/
theorem content_agrees_with_value (start : Nat) (name : List Char) :
    (∀ c, inValue start name = .ok c ↔ inContent name = .ok c ∧ c ≠ Char.ofNat 0 ∧
      isSigned name = false ∧ smallLetter name = name) ∧
    (isSigned name = false → ∀ c, c ≠ Char.ofNat 0 →
      (inContent name = .ok c ↔ inValue start (smallLetter name) = .ok c)) ∧
    ((∀ c ∈ name, isReferenceMark c = false) →
      unescape ('&' :: (name ++ [';'])) = (inValue 1 name).map ([·])) := by
  refine ⟨fun c => ?_, fun hsigned c hc => ?_, unescape_reference⟩
  · rw [inValue_eq_ok_iff, inContent_eq_ok_iff, ← toNat_ne_zero_iff]
    constructor
    · exact fun ⟨hd, hc⟩ => ⟨hd.lenient, hc, hd.strict⟩
    · rintro ⟨hd, hc, hsigned, hsmall⟩
      rw [denotes_smallLetter_iff hsigned, hsmall] at hd
      exact ⟨hd, hc⟩
  · rw [inValue_eq_ok_iff, inContent_eq_ok_iff, denotes_smallLetter_iff hsigned,
      and_iff_left (toNat_ne_zero_iff.mpr hc)]

/-- A capital letter in content is read as a small one in a value, where it is refused itself. -/
theorem content_agrees_with_value_letter :
    isSigned "#X3B1".toList = false ∧ inContent "#X3B1".toList = .ok 'α' ∧
      inValue 1 "#x3B1".toList = .ok 'α' ∧ inContent "#x3B1".toList = .ok 'α' ∧
      unescape ('&' :: ("#X3B1".toList ++ [';'])) = .error (.badNumber .digit) := by
  have hsigned : isSigned "#X3B1".toList = false := by decide
  have hcontent : inContent "#X3B1".toList = .ok 'α' := by decide +kernel
  have hvalue : inValue 1 "#x3B1".toList = .ok 'α' :=
    ((content_agrees_with_value 1 "#X3B1".toList).2.1 hsigned 'α' (by decide)).mp hcontent
  have hwhole := (content_agrees_with_value 1 "#X3B1".toList).2.2 (by simp [isReferenceMark])
  exact ⟨hsigned, hcontent, hvalue, (((content_agrees_with_value 1 "#x3B1".toList).1 'α').mp hvalue).1,
    hwhole.trans (by decide +kernel)⟩

/-- A reference with a plus sign, or to the character with the number zero, is malformed and refused in a
value, but content accepts it. -/
theorem sign_and_zero_in_content_only :
    (inContent "#+65".toList = .ok 'A' ∧ inValue 1 "#+65".toList = .error (.badNumber .sign) ∧
      (Element.parse "<a>&#+65;</a>").toOption.map (·.text) = some "A" ∧
      (Element.parse "<a b='&#+65;'/>").toOption.isNone) ∧
    (inContent "#0".toList = .ok (Char.ofNat 0) ∧ inValue 1 "#0".toList = .error (.badNumber .zero) ∧
      (Element.parse "<a>&#0;</a>").toOption.map (·.text) = some (String.singleton (Char.ofNat 0)) ∧
      (Element.parse "<a b='&#0;'/>").toOption.isNone) := by
  refine ⟨⟨?_, ?_, ?_, ?_⟩, ?_, ?_, ?_, ?_⟩ <;> decide +kernel

end Installer.Markup.Entity
