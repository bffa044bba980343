import Installer.Proofs.Domains
import Installer.Proofs.Numerals
import Mathlib.Data.List.SplitLengths

/-! # The notations of GUIDs

What texts denote a number of 128 bits, said without the functions that read them: five groups of
hexadecimal digits in either letter case (`Text.hexadecimal`), put together in one of four ways
(`Guid.Written`). A GUID is read from just these texts (`Guid.digits?_eq_some_iff`), and what it comes to
is the text `Guid.normalOf` of the number that is denoted (`Guid.normalize?_eq_some_iff`), which denotes
this number too (`Guid.denotes_normalOf`). So there is one normal form for each number. -/

namespace Installer

/-! ### Digits -/

namespace Text

/-- The digits to the base 16, in both letter cases. -/
def hexadecimals : List Char := "0123456789abcdefABCDEF".toList

/-- The value of a digit to the base 16. -/
def hexValue (c : Char) : Nat := "0123456789abcdef".toList.idxOf c.toLower

/-- The number that digits denote to the base 16. -/
def hexadecimal (cs : List Char) : Nat := Nat.ofDigits 16 (cs.reverse.map hexValue)

theorem isSome_digit?_iff {c : Char} : (digit? c).isSome ↔ c ∈ hexadecimals := by
  have hdigits : ∀ n < 128, (digit? (Char.ofNat n)).isSome = decide (Char.ofNat n ∈ hexadecimals) := by
    decide +kernel
  have hascii : (hexadecimals.all fun d => d.toNat < 128) = true := by decide
  by_cases hc : c.toNat < 128
  · have h := hdigits c.toNat hc
    rw [Char.ofNat_toNat] at h
    rw [h, decide_eq_true_iff]
  · refine iff_of_false (fun h => hc ?_) fun h => hc ?_
    · unfold digit? at h
      delta Char.isDigit at h
      simp only [Char.le_def, Bool.and_eq_true, decide_eq_true_eq, ge_iff_le, UInt32.le_iff_toNat_le,
        Char.reduceVal, UInt32.reduceToNat] at h
      change c.val.toNat < 128
      grind
    · exact of_decide_eq_true (List.all_eq_true.mp hascii c h)

/-- The letter case of a digit does not matter to its value, and the value tells its capital form. -/
theorem hexValue_spec {c : Char} (h : c ∈ hexadecimals) :
    hexValue c < 16 ∧ c.toUpper ∈ hexadecimals ∧ hexValue c.toUpper = hexValue c ∧
      c.toUpper = "0123456789ABCDEF".toList.getD (hexValue c) '0' := by
  have hall : (hexadecimals.all fun c => hexValue c < 16 ∧ c.toUpper ∈ hexadecimals ∧
      hexValue c.toUpper = hexValue c ∧
        c.toUpper = "0123456789ABCDEF".toList.getD (hexValue c) '0') = true := by decide +kernel
  exact of_decide_eq_true (List.all_eq_true.mp hall c h)

theorem digitIn?_sixteen (c : Char) :
    digitIn? 16 c = if hexadecimals.contains c then some (hexValue c) else none := by
  have hall : (hexadecimals.all fun c => digitIn? 16 c = some (hexValue c)) = true := by
    decide +kernel
  split_ifs with hc
  · exact of_decide_eq_true (List.all_eq_true.mp hall c (by simpa using hc))
  · have hnone : digit? c = none :=
      Option.not_isSome_iff_eq_none.mp (mt isSome_digit?_iff.mp (by simpa using hc))
    rw [digitIn?, hnone]
    rfl

theorem hexDigit_spec {n : Nat} (h : n < 16) :
    hexDigit n ∈ hexadecimals ∧ hexValue (hexDigit n) = n := by
  have hall : ∀ n < 16, hexDigit n ∈ hexadecimals ∧ hexValue (hexDigit n) = n := by decide +kernel
  exact hall n h

theorem mem_hexadecimals_of_mem_hexDigits {k n : Nat} {c : Char} (h : c ∈ hexDigits k n) :
    c ∈ hexadecimals := by
  induction k generalizing n with
  | zero => cases h
  | succ k ih =>
    rcases List.mem_append.mp h with h | h
    · exact ih h
    · rw [List.mem_singleton.mp h]
      exact (hexDigit_spec (Nat.mod_lt n (by decide))).1

/-- The digits of a number denote it, if there are enough of them. -/
theorem hexadecimal_hexDigits {k n : Nat} (h : n < 16 ^ k) : hexadecimal (hexDigits k n) = n := by
  induction k generalizing n with
  | zero => simp_all [hexadecimal, hexDigits]
  | succ k ih =>
    have hrest := ih (n := n / 16) (Nat.div_lt_of_lt_mul (by rw [Nat.pow_succ] at h; omega))
    simp only [hexadecimal] at hrest
    simp only [hexadecimal, hexDigits, List.reverse_append, List.reverse_singleton,
      List.singleton_append, List.map_cons, Nat.ofDigits_cons, hrest,
      (hexDigit_spec (Nat.mod_lt n (by decide))).2]
    omega

variable {cs ds : List Char} (hcs : ∀ c ∈ cs, c ∈ hexadecimals)
include hcs

theorem hexValue_lt_of_mem : ∀ n ∈ cs.reverse.map hexValue, n < 16 := by
  simpa using fun c hc => (hexValue_spec (hcs c hc)).1

theorem hexadecimal_lt : hexadecimal cs < 16 ^ cs.length := by
  simpa [hexadecimal] using Nat.ofDigits_lt_base_pow_length (by decide) (hexValue_lt_of_mem hcs)

theorem hexadecimal_map_toUpper : hexadecimal (cs.map Char.toUpper) = hexadecimal cs := by
  have hvalues : (cs.map Char.toUpper).map hexValue = cs.map hexValue := by
    rw [List.map_map]
    exact List.map_congr_left fun c hc => (hexValue_spec (hcs c hc)).2.2.1
  rw [hexadecimal, hexadecimal, List.map_reverse, List.map_reverse, hvalues]

/-- As many digits denote the same number just if they are the same but for their letter case. -/
theorem hexadecimal_eq_iff (hds : ∀ c ∈ ds, c ∈ hexadecimals) (hlen : cs.length = ds.length) :
    hexadecimal cs = hexadecimal ds ↔ cs.map Char.toUpper = ds.map Char.toUpper := by
  have hcapital : ∀ {l : List Char}, (∀ c ∈ l, c ∈ hexadecimals) → l.map Char.toUpper =
      (l.map hexValue).map fun n => "0123456789ABCDEF".toList.getD n '0' := by
    intro l hl
    rw [List.map_map]
    exact List.map_congr_left fun c hc => (hexValue_spec (hl c hc)).2.2.2
  constructor
  · intro h
    have hrev := Nat.ofDigits_inj_of_len_eq (by decide) (by simpa using hlen)
      (hexValue_lt_of_mem hcs) (hexValue_lt_of_mem hds) h
    rw [List.map_reverse, List.map_reverse, List.reverse_inj] at hrev
    rw [hcapital hcs, hcapital hds, hrev]
  · intro h
    rw [← hexadecimal_map_toUpper hcs, h, hexadecimal_map_toUpper hds]

end Text

namespace Guid

/-! ### Notations -/

/-- The ways to write groups of digits: one after the other, with hyphens between them, and with hyphens
in braces or behind a word in any letter case. -/
inductive Written (groups : List (List Char)) : List Char → Prop
  | plain : Written groups groups.flatten
  | hyphenated : Written groups (['-'].intercalate groups)
  | braced : Written groups (['{'] ++ ['-'].intercalate groups ++ ['}'])
  | urn {word : List Char} (h : word.map Char.toLower = "urn:uuid:".toList) :
      Written groups (word ++ ['-'].intercalate groups)

/-- The text denotes the number. -/
def Denotes (s : String) (v : BitVec 128) : Prop :=
  ∃ groups : List (List Char), groups.map List.length = [8, 4, 4, 4, 12] ∧
    (∀ c ∈ groups.flatten, c ∈ Text.hexadecimals) ∧ Written groups s.toList ∧
      Text.hexadecimal groups.flatten = v.toNat

/-! ### Reading -/

/-- Groups are read from the texts with hyphens between groups of the given sizes. -/
theorem groups?_eq_some_iff {sizes : List Nat} (hne : sizes ≠ []) {cs : List Char}
    {groups : List (List Char)} : groups? sizes cs = some groups ↔
      groups.map List.length = sizes ∧ cs = ['-'].intercalate groups := by
  induction sizes generalizing cs groups with
  | nil => exact absurd rfl hne
  | cons n sizes ih =>
    cases sizes with
    | nil =>
      rw [groups?]
      constructor
      · intro h
        obtain ⟨hn, heq⟩ := Option.ite_none_right_eq_some.mp h
        cases heq
        simp [hn]
      · rintro ⟨hlen, rfl⟩
        obtain ⟨g, rfl⟩ := List.length_eq_one_iff.mp (by simpa using congrArg List.length hlen)
        simpa using hlen
    | cons m sizes =>
      have hrest : m :: sizes ≠ [] := List.cons_ne_nil _ _
      constructor
      · intro h
        refine ⟨length_groups? h, ?_⟩
        simp only [groups?] at h
        split at h
        · next rest hdrop =>
          obtain ⟨gs, hgs, rfl⟩ := Option.map_eq_some_iff.mp h
          obtain ⟨hlen, rfl⟩ := (ih hrest).mp hgs
          rw [List.intercalate_cons_of_ne_nil (by rintro rfl; cases hlen), List.append_assoc,
            List.singleton_append, ← hdrop, List.take_append_drop]
        · cases h
      · rintro ⟨hlen, rfl⟩
        obtain ⟨g, gs, rfl, rfl, hgs⟩ := List.map_eq_cons_iff.mp hlen
        rw [List.intercalate_cons_of_ne_nil (by rintro rfl; cases hgs)]
        simp [groups?, (ih hrest).mpr ⟨hgs, rfl⟩]

theorem unbrace?_eq_some_iff {cs inner : List Char} :
    unbrace? cs = some inner ↔ cs = ['{'] ++ inner ++ ['}'] := by
  unfold unbrace?
  split
  · next cs =>
    rw [Option.ite_none_right_eq_some, Option.some_inj, List.cons_append, List.nil_append,
      List.cons_append, List.cons.injEq]
    constructor
    · rintro ⟨hlast, rfl⟩
      obtain ⟨front, rfl⟩ := List.getLast?_eq_some_iff.mp hlast
      simp
    · rintro ⟨-, rfl⟩
      simp
  · next hne =>
    exact iff_of_false nofun fun h => hne (inner ++ ['}']) h

theorem dropWord?_eq_some_iff {word cs rest : List Char} : dropWord? word cs = some rest ↔
    ∃ front : List Char, front.map Char.toLower = word ∧ cs = front ++ rest := by
  fun_induction dropWord? word cs with
  | case1 cs => simp [eq_comm]
  | case2 word c cs ih =>
    rw [ih]
    constructor
    · rintro ⟨front, rfl, rfl⟩
      exact ⟨c :: front, rfl, rfl⟩
    · rintro ⟨front, hfront, heq⟩
      obtain ⟨d, front, rfl, -, rfl⟩ := List.map_eq_cons_iff.mp hfront
      exact ⟨front, rfl, (List.cons.inj heq).2⟩
  | case3 w word c cs hne =>
    refine iff_of_false nofun ?_
    rintro ⟨front, hfront, heq⟩
    obtain ⟨d, front, rfl, rfl, -⟩ := List.map_eq_cons_iff.mp hfront
    exact hne (by rw [(List.cons.inj heq).1])
  | case4 w word =>
    refine iff_of_false nofun ?_
    rintro ⟨front, hfront, heq⟩
    obtain ⟨d, front, rfl, -⟩ := List.map_eq_cons_iff.mp hfront
    cases heq

/-- The lengths by which the notations are told apart. -/
theorem length_of_groups {groups : List (List Char)} (h : groups.map List.length = groupSizes) :
    groups.flatten.length = 32 ∧ (['-'].intercalate groups).length = 36 := by
  constructor
  · rw [List.length_flatten, h]
    rfl
  · obtain ⟨g₁, _, rfl, h₁, h⟩ := List.map_eq_cons_iff.mp h
    obtain ⟨g₂, _, rfl, h₂, h⟩ := List.map_eq_cons_iff.mp h
    obtain ⟨g₃, _, rfl, h₃, h⟩ := List.map_eq_cons_iff.mp h
    obtain ⟨g₄, _, rfl, h₄, h⟩ := List.map_eq_cons_iff.mp h
    obtain ⟨g₅, _, rfl, h₅, h⟩ := List.map_eq_cons_iff.mp h
    obtain rfl := List.map_eq_nil_iff.mp h
    simp [h₁, h₂, h₃, h₄, h₅]

/-- Digits can be put into groups. -/
theorem exists_groups (ds : List Char) (h : ds.length = 32) : ∃ groups : List (List Char),
    groups.map List.length = groupSizes ∧ groups.flatten = ds :=
  ⟨groupSizes.splitLengths ds, List.map_splitLengths_length _ _ h.ge,
    List.flatten_splitLengths _ _ h.le⟩

/-- **The digits of a GUID are read from its notations**, and from no other text. -/
theorem digits?_eq_some_iff {cs ds : List Char} : digits? cs = some ds ↔
    ∃ groups : List (List Char), groups.map List.length = groupSizes ∧
      (∀ c ∈ groups.flatten, c ∈ Text.hexadecimals) ∧ Written groups cs ∧ groups.flatten = ds := by
  have hgroups := @groups?_eq_some_iff groupSizes (by decide)
  simp only [digits?, Option.filter_eq_some_iff, List.all_eq_true, Text.isSome_digit?_iff]
  constructor
  · rintro ⟨h, hdigits⟩
    split_ifs at h with h32 h36 h38
    · cases h
      obtain ⟨groups, hlen, rfl⟩ := exists_groups _ h32
      exact ⟨groups, hlen, hdigits, .plain, rfl⟩
    · obtain ⟨groups, hg, rfl⟩ := Option.map_eq_some_iff.mp h
      obtain ⟨hlen, rfl⟩ := hgroups.mp hg
      exact ⟨groups, hlen, hdigits, .hyphenated, rfl⟩
    · obtain ⟨groups, hbind, rfl⟩ := Option.map_eq_some_iff.mp h
      obtain ⟨inner, hinner, hg⟩ := Option.bind_eq_some_iff.mp hbind
      obtain ⟨hlen, rfl⟩ := hgroups.mp hg
      obtain rfl := unbrace?_eq_some_iff.mp hinner
      exact ⟨groups, hlen, hdigits, .braced, rfl⟩
    · obtain ⟨groups, hbind, rfl⟩ := Option.map_eq_some_iff.mp h
      obtain ⟨rest, hrest, hg⟩ := Option.bind_eq_some_iff.mp hbind
      obtain ⟨hlen, rfl⟩ := hgroups.mp hg
      obtain ⟨front, hfront, rfl⟩ := dropWord?_eq_some_iff.mp hrest
      exact ⟨groups, hlen, hdigits, .urn hfront, rfl⟩
  · rintro ⟨groups, hlen, hdigits, hwritten, rfl⟩
    refine ⟨?_, hdigits⟩
    obtain ⟨h32, h36⟩ := length_of_groups hlen
    have hread : groups? groupSizes (['-'].intercalate groups) = some groups := hgroups.mpr ⟨hlen, rfl⟩
    cases hwritten with
    | plain => rw [if_pos h32]
    | hyphenated => simp [h36, hread]
    | braced =>
      have hinner := unbrace?_eq_some_iff.mpr (rfl : ['{'] ++ ['-'].intercalate groups ++ ['}'] = _)
      have h38 : (['{'] ++ ['-'].intercalate groups ++ ['}']).length = 38 := by simp [h36]
      rw [h38, hinner, Option.bind_some, hread]
      rfl
    | @urn word hword =>
      have hrest := dropWord?_eq_some_iff.mpr ⟨word, hword, (rfl : word ++ ['-'].intercalate groups = _)⟩
      have h9 : word.length = 9 := by simpa using congrArg List.length hword
      have h45 : (word ++ ['-'].intercalate groups).length = 45 := by simp [h9, h36]
      rw [h45, hrest, Option.bind_some, hread]
      rfl

/-! ### Normal forms -/

/-- The normal form of the GUID with the given number. -/
def normalOf (v : BitVec 128) : String := braced (Text.hexDigits 32 v.toNat)

theorem hyphenate_flatten {groups : List (List Char)} {sizes : List Nat}
    (h : groups.map List.length = sizes) : hyphenate sizes groups.flatten = ['-'].intercalate groups := by
  induction groups generalizing sizes with
  | nil =>
    subst h
    rfl
  | cons g groups ih =>
    subst h
    cases groups with
    | nil => simp [hyphenate]
    | cons g' groups =>
      rw [List.intercalate_cons_cons, ← ih rfl]
      simp [hyphenate]

section Digits
variable {ds : List Char} (hlen : ds.length = 32) (hds : ∀ c ∈ ds, c ∈ Text.hexadecimals)
include hlen hds

/-- Reading the normal form gives the digits in upper case. -/
theorem digits?_braced : digits? (braced ds).toList = some (ds.map Char.toUpper) := by
  obtain ⟨groups, hsizes, hflat⟩ := exists_groups (ds.map Char.toUpper) (by simpa using hlen)
  refine digits?_eq_some_iff.mpr ⟨groups, hsizes, ?_, ?_, hflat⟩
  · rw [hflat]
    simpa using fun c hc => (Text.hexValue_spec (hds c hc)).2.1
  · have htext : (braced ds).toList = ['{'] ++ ['-'].intercalate groups ++ ['}'] := by
      rw [← hyphenate_flatten hsizes, hflat]
      simp [braced]
    exact htext ▸ .braced

/-- The normal form is that of the number that the digits denote. -/
theorem braced_eq_normalOf {v : BitVec 128} (hv : Text.hexadecimal ds = v.toNat) :
    braced ds = normalOf v := by
  have hlt : v.toNat < 16 ^ 32 := v.isLt
  have hdigits : Text.hexadecimal ds = Text.hexadecimal (Text.hexDigits 32 v.toNat) := by
    rw [hv, Text.hexadecimal_hexDigits hlt]
  rw [normalOf, braced, braced, (Text.hexadecimal_eq_iff hds
    (fun c => Text.mem_hexadecimals_of_mem_hexDigits) (by simpa using hlen)).mp hdigits]

end Digits

theorem denotes_iff {s : String} {v : BitVec 128} :
    Denotes s v ↔ ∃ ds, digits? s.toList = some ds ∧ Text.hexadecimal ds = v.toNat := by
  constructor
  · rintro ⟨groups, hlen, hdigits, hwritten, hv⟩
    exact ⟨_, digits?_eq_some_iff.mpr ⟨groups, hlen, hdigits, hwritten, rfl⟩, hv⟩
  · rintro ⟨ds, hds, hv⟩
    obtain ⟨groups, hlen, hdigits, hwritten, rfl⟩ := digits?_eq_some_iff.mp hds
    exact ⟨groups, hlen, hdigits, hwritten, hv⟩

theorem digits_of_digits? {cs ds : List Char} (h : digits? cs = some ds) :
    ds.length = 32 ∧ ∀ c ∈ ds, c ∈ Text.hexadecimals := by
  simpa only [Text.isSome_digit?_iff] using digits?_spec h

/-- The number that is read from a text is the one that it denotes. -/
theorem value?_eq_some_iff {s : String} {v : BitVec 128} :
    value? s = some v.toNat ↔ Denotes s v := by
  rw [denotes_iff, value?, Option.bind_eq_some_iff]
  refine exists_congr fun ds => and_congr_right fun hds => ?_
  obtain ⟨hlen, hdigits⟩ := digits_of_digits? hds
  have hne : ds.isEmpty = false := by cases ds <;> simp_all
  rw [Text.natural?, hne, if_neg Bool.false_ne_true,
    Text.digitsFrom?_eq_some_iff Text.digitIn?_sixteen, Nat.zero_mul, Nat.zero_add, ← Text.hexadecimal]
  exact and_iff_right fun c hc => by simpa using hdigits c hc

/-- A text denotes at most one number. -/
theorem Denotes.unique {s : String} {v w : BitVec 128} (hv : Denotes s v) (hw : Denotes s w) :
    v = w := by
  obtain ⟨ds, hds, hv⟩ := denotes_iff.mp hv
  obtain ⟨ds', hds', hw⟩ := denotes_iff.mp hw
  cases hds.symm.trans hds'
  exact BitVec.eq_of_toNat_eq (hv.symm.trans hw)

theorem denotes_braced {ds : List Char} (hlen : ds.length = 32)
    (hds : ∀ c ∈ ds, c ∈ Text.hexadecimals) {v : BitVec 128} (hv : Text.hexadecimal ds = v.toNat) :
    Denotes (braced ds) v := by
  refine denotes_iff.mpr ⟨_, digits?_braced hlen hds, ?_⟩
  rw [Text.hexadecimal_map_toUpper hds, hv]

theorem denotes_normalOf (v : BitVec 128) : Denotes (normalOf v) v :=
  denotes_braced (Text.length_hexDigits 32 v.toNat)
    (fun _ => Text.mem_hexadecimals_of_mem_hexDigits) (Text.hexadecimal_hexDigits v.isLt)

/-- **The normal form of a GUID is that of the number it denotes.** -/
theorem normalize?_eq_some_iff {s g : String} :
    normalize? s = some g ↔ ∃ v, Denotes s v ∧ normalOf v = g := by
  constructor
  · intro h
    obtain ⟨ds, hds, rfl⟩ := Option.map_eq_some_iff.mp h
    obtain ⟨hlen, hdigits⟩ := digits_of_digits? hds
    have hlt := Text.hexadecimal_lt hdigits
    rw [hlen, show 16 ^ 32 = 2 ^ 128 from rfl] at hlt
    have hv : Text.hexadecimal ds = (BitVec.ofNat 128 (Text.hexadecimal ds)).toNat := by
      rw [BitVec.toNat_ofNat, Nat.mod_eq_of_lt hlt]
    exact ⟨_, denotes_iff.mpr ⟨ds, hds, hv⟩, (braced_eq_normalOf hlen hdigits hv).symm⟩
  · rintro ⟨v, hv, rfl⟩
    obtain ⟨ds, hds, hv⟩ := denotes_iff.mp hv
    obtain ⟨hlen, hdigits⟩ := digits_of_digits? hds
    rw [normalize?, hds, Option.map_some, braced_eq_normalOf hlen hdigits hv]

theorem normalOf_inj {v w : BitVec 128} : normalOf v = normalOf w ↔ v = w := by
  refine ⟨fun h => ?_, congrArg normalOf⟩
  have hv := denotes_normalOf v
  rw [h] at hv
  exact hv.unique (denotes_normalOf w)

end Guid

end Installer
