import Installer.Proofs.LetterCase
import Installer.Proofs.Occurrences
import Installer.Proofs.Reserved
import Mathlib.Data.List.TakeWhile

/-! # File names

The classes of file names are nested and compose (`FileName.classes_nest`). A short name is measured in
characters and a long one in bytes, but the characters of short names take one byte each
(`FileName.isShortChar_plain`). A path is cut at its separators, which no long name has, so that the parts
of a path are paths and its last name is a long name.

Every file name gives an identifier (`Identifier.ofFileName_usable`): the characters that stand for those of
the file name make a name in lower case, maybe behind an underscore, and such a name stands for itself
(`Identifier.ofFileName_eq_self`). -/

namespace Installer

namespace FileName

/-! ### Short names -/

/-- A character of one byte that long names may have, and that is not blank. -/
def IsPlain (c : Char) : Prop :=
  c.utf8Size = 1 ∧ Text.isBlank c = false ∧ Text.isControl c = false ∧ illegalChars.contains c = false

instance : DecidablePred IsPlain := fun c =>
  inferInstanceAs (Decidable (c.utf8Size = 1 ∧ _ = false ∧ _ = false ∧ _ = false))

theorem toNat_lt_of_isShortChar {c : Char} (h : isShortChar c) : c.toNat < 128 := by
  have hextras : (shortExtras.all fun c => c.toNat < 128) = true := by decide +kernel
  rcases (Bool.or_eq_true _ _).mp h with h | h
  · have hval : c.toNat = c.val.toNat := rfl
    simp only [Char.isAlphanum, Char.isAlpha, Char.isUpper, Char.isLower, Char.isDigit, Bool.or_eq_true,
      Bool.and_eq_true, decide_eq_true_eq, ge_iff_le, UInt32.le_iff_toNat_le, Char.reduceVal,
      UInt32.reduceToNat] at h
    omega
  · simpa using List.all_eq_true.mp hextras c (by simpa using h)

theorem isShortChar_plain {c : Char} (h : isShortChar c) : IsPlain c ∧ c ≠ '.' := by
  have hall : ∀ n < 128, isShortChar (Char.ofNat n) → IsPlain (Char.ofNat n) ∧ Char.ofNat n ≠ '.' := by
    decide +kernel
  have hc := hall c.toNat (toNat_lt_of_isShortChar h)
  rw [Char.ofNat_toNat] at hc
  exact hc h

theorem byteLength_eq_length {cs : List Char} (h : ∀ c ∈ cs, IsPlain c) :
    Text.byteLength cs = cs.length := by
  induction cs with
  | nil => rfl
  | cons c cs ih =>
    obtain ⟨hc, hcs⟩ := List.forall_mem_cons.mp h
    rw [Text.byteLength_cons, ih hcs, hc.1, List.length_cons, Nat.add_comm]

/-- The legal characters have one byte each, so that bytes and characters count the same. -/
theorem isShortPart_iff {most : Nat} {cs : List Char} : isShortPart most cs ↔
    1 ≤ cs.length ∧ cs.length ≤ most ∧ ∀ c ∈ cs, isShortChar c := by
  have hbytes : (∀ c ∈ cs, isShortChar c) → Text.byteLength cs = cs.length :=
    fun h => byteLength_eq_length fun c hc => (isShortChar_plain (h c hc)).1
  simp only [isShortPart, Bool.and_eq_true, decide_eq_true_eq, List.all_eq_true]
  constructor
  · rintro ⟨⟨hpos, hmost⟩, hshort⟩
    rw [hbytes hshort] at hpos hmost
    exact ⟨hpos, hmost, hshort⟩
  · rintro ⟨hpos, hmost, hshort⟩
    rw [hbytes hshort]
    exact ⟨⟨hpos, hmost⟩, hshort⟩

/-- A short name is a part of at most eight characters, maybe with a dot and up to three more. -/
theorem exists_parts_of_isShort {s : String} (h : isShort s) : ∃ base rest, s.toList = base ++ rest ∧
    isShortPart 8 base ∧ (rest = [] ∨ ∃ extension, rest = '.' :: extension ∧ isShortPart 3 extension) := by
  simp only [isShort] at h
  refine ⟨s.toList.takeWhile (· != '.'), s.toList.dropWhile (· != '.'),
    List.takeWhile_append_dropWhile.symm, ?_⟩
  split at h
  · next hrest => exact ⟨h, .inl hrest⟩
  · next dot extension hrest =>
    obtain ⟨hbase, hextension⟩ := (Bool.and_eq_true _ _).mp h
    have hdot := List.head?_dropWhile_not (· != '.') s.toList
    rw [hrest] at hdot ⊢
    exact ⟨hbase, .inr ⟨extension, by rw [bne_eq_false_iff_eq.mp hdot], hextension⟩⟩

theorem isLongChars_iff {cs : List Char} : isLongChars cs ↔
    Text.byteLength cs ≤ 259 ∧ cs ≠ ['.'] ∧ cs ≠ ['.', '.'] ∧ (∃ c ∈ cs, Text.isBlank c = false) ∧
      ∀ c ∈ cs, Text.isControl c = false ∧ illegalChars.contains c = false := by
  simp [isLongChars, and_assoc]

/-- The characters of a short name take one byte each, and the first one is neither a dot nor blank. -/
theorem isLongChars_of_isShort {s : String} (h : isShort s) : isLongChars s.toList := by
  obtain ⟨base, rest, hs, hbase, hrest⟩ := exists_parts_of_isShort h
  obtain ⟨hpos, hbase, hshort⟩ := isShortPart_iff.mp hbase
  have hlength : rest.length ≤ 4 := by
    rcases hrest with rfl | ⟨extension, rfl, hextension⟩
    · exact Nat.zero_le _
    · have := (isShortPart_iff.mp hextension).2.1
      rw [List.length_cons]
      omega
  have hplain : ∀ c ∈ base ++ rest, IsPlain c := by
    rw [List.forall_mem_append]
    refine ⟨fun c hc => (isShortChar_plain (hshort c hc)).1, ?_⟩
    rcases hrest with rfl | ⟨extension, rfl, hextension⟩
    · simp
    · rw [List.forall_mem_cons]
      exact ⟨by decide +kernel, fun c hc => (isShortChar_plain ((isShortPart_iff.mp hextension).2.2 c hc)).1⟩
  obtain ⟨c, base, rfl⟩ := List.exists_cons_of_length_pos hpos
  obtain ⟨hc, hdot⟩ := isShortChar_plain (hshort c List.mem_cons_self)
  rw [hs, isLongChars_iff, byteLength_eq_length hplain, List.length_append]
  refine ⟨by omega, ?_, ?_, ⟨c, by simp, hc.2.1⟩, fun d hd => (hplain d hd).2.2⟩
  · simp [hdot]
  · simp [hdot]

/-! ### Paths -/

theorem isLong_false {s : String} : isLong false s ↔ isLongChars s.toList := Iff.rfl

theorem isLong_true {s : String} :
    isLong true s ↔ ∀ name ∈ s.toList.splitOnP isSeparator, isLongChars name := by
  simp [isLong]

theorem not_isSeparator_of_isLongChars {cs : List Char} (h : isLongChars cs) :
    ∀ c ∈ cs, isSeparator c = false := by
  intro c hc
  have hlegal := ((isLongChars_iff.mp h).2.2.2.2 c hc).2
  rw [Bool.eq_false_iff]
  intro hseparator
  rcases (Bool.or_eq_true _ _).mp hseparator with h | h <;>
    · rw [beq_iff_eq.mp h] at hlegal
      cases hlegal

/-- The names of a path are those in front of a separator and those behind it. -/
theorem isLong_append {separator : Char} (h : isSeparator separator) (a b : String) :
    isLong true (a ++ String.singleton separator ++ b) ↔ isLong true a ∧ isLong true b := by
  have hlist : (a ++ String.singleton separator ++ b).toList = a.toList ++ separator :: b.toList := by
    simp
  rw [isLong_true, isLong_true, isLong_true, hlist, List.splitOnP_append_cons _ _ h,
    List.forall_mem_append]

/-- The last name of a path is one of its names. -/
theorem lastName_mem (s : String) : (lastName s).toList ∈ s.toList.splitOnP isSeparator := by
  have hnot : ∀ c ∈ (lastName s).toList, isSeparator c = false := by
    intro c hc
    rw [lastName, String.toList_ofList, List.mem_reverse] at hc
    simpa using List.all_eq_true.mp List.all_takeWhile c hc
  have hsplit : s.toList = ((s.toList.reverse.dropWhile (!isSeparator ·)).reverse) ++
      (lastName s).toList := by
    rw [lastName, String.toList_ofList, ← List.reverse_append, List.takeWhile_append_dropWhile,
      List.reverse_reverse]
  have hend := List.head?_dropWhile_not (!isSeparator ·) s.toList.reverse
  cases hdrop : s.toList.reverse.dropWhile (!isSeparator ·) with
  | nil =>
    rw [hdrop] at hsplit
    rw [hsplit, List.reverse_nil, List.nil_append, List.splitOnP_eq_singleton hnot]
    exact List.mem_singleton_self _
  | cons separator front =>
    rw [hdrop] at hsplit hend
    rw [hsplit, List.reverse_cons, List.append_assoc, List.singleton_append,
      List.splitOnP_append_cons _ _ (by simpa using hend), List.splitOnP_eq_singleton hnot]
    exact List.mem_append_right _ (List.mem_singleton_self _)

/-- **The classes of file names are nested and compose.** -/
theorem classes_nest :
    (∀ s, isShort s → isLong false s) ∧ (∀ s, isLong false s → isLong true s) ∧
    (∀ (a b : String), ∀ separator ∈ ['\\', '/'],
      (isLong true (a ++ String.singleton separator ++ b) ↔ isLong true a ∧ isLong true b)) ∧
    ∀ s, isLong true s → isLong false (lastName s) := by
  refine ⟨fun s h => isLong_false.mpr (isLongChars_of_isShort h), fun s h => ?_,
    fun a b separator h => ?_, fun s h => ?_⟩
  · rw [isLong_false] at h
    rw [isLong_true, List.splitOnP_eq_singleton (not_isSeparator_of_isLongChars h)]
    exact List.forall_mem_singleton.mpr h
  · exact isLong_append (by simpa [isSeparator] using h) a b
  · rw [isLong_false]
    exact isLong_true.mp h _ (lastName_mem s)

/-- Both separators in one path, and an empty name between them. -/
theorem classes_nest_redist :
    let file := "x64" ++ String.singleton '/' ++ "vc.exe"
    let path := "redist" ++ String.singleton '\\' ++ file
    isShort "A~1.TXT" ∧ isLong false "A~1.TXT" ∧ isLong true path ∧ isLong false (lastName path) ∧
      ¬ isLong true ("redist" ++ String.singleton '\\' ++ ("" ++ String.singleton '/' ++ "vc.exe")) := by
  intro file path
  obtain ⟨hshort, hlong, happend, hlast⟩ := classes_nest
  have hname : ∀ s, isShort s → isLong true s := fun s h => hlong s (hshort s h)
  have htxt : isShort "A~1.TXT" := by decide +kernel
  have hfile : isLong true file := (happend _ _ '/' (by simp)).mpr
    ⟨hname _ (by decide +kernel), hname _ (by decide +kernel)⟩
  have hpath : isLong true path := (happend _ _ '\\' (by simp)).mpr
    ⟨hname _ (by decide +kernel), hfile⟩
  refine ⟨htxt, hshort _ htxt, hpath, hlast _ hpath, fun h => ?_⟩
  have hrest := ((happend _ _ '\\' (by simp)).mp h).2
  have hempty := ((happend _ _ '/' (by simp)).mp hrest).1
  exact absurd hempty (by decide +kernel)

end FileName

/-! ### Identifiers for file names -/

theorem Text.toLower_eq_self {c : Char} (h : c.isUpper = false) : c.toLower = c := by
  rcases Text.toLower_eq_self_or_mem c with hself | hmem
  · exact hself
  · have hcapitals : (Text.capitals.all Char.isUpper) = true := by decide +kernel
    rw [List.all_eq_true.mp hcapitals c hmem] at h
    cases h

namespace Identifier

/-- Whether a text starts with a letter, an underscore or a character that no name has. -/
def startsName (s : String) : Bool := s.toList.head?.any fun c => isNameStart c || !isNameChar c

/-- Small and capital letters stand for the same. -/
theorem nameCharOf_toLower (c : Char) : nameCharOf c.toLower = nameCharOf c :=
  Text.toLower_congr (by decide +kernel) c

theorem isNameStart_toLower (c : Char) : isNameStart c.toLower = isNameStart c :=
  Text.toLower_congr (by decide +kernel) c

theorem isNameStart_nameCharOf (c : Char) :
    isNameStart (nameCharOf c) = (isNameStart c || !isNameChar c) := by
  unfold nameCharOf
  split_ifs with h
  · rw [isNameStart_toLower, h, Bool.not_true, Bool.or_false]
  · rw [Bool.eq_false_iff.mpr h, Bool.not_false, Bool.or_true]
    rfl

/-- The characters that stand for those of the file name, behind an underscore if no name starts with the
first of them. -/
theorem toList_ofFileName (file : String) : (ofFileName file).toList =
    (if startsName file then [] else ['_']) ++ file.toList.map nameCharOf := by
  unfold ofFileName startsName
  cases file.toList with
  | nil => rfl
  | cons c cs =>
    simp only [List.map_cons, List.head?_cons, Option.any_some, ← isNameStart_nameCharOf]
    split_ifs <;> simp

theorem isUpper_of_mem_ofFileName {file : String} {c : Char} (hc : c ∈ (ofFileName file).toList) :
    c.isUpper = false := by
  rw [toList_ofFileName, List.mem_append, List.mem_map] at hc
  rcases hc with hc | ⟨b, -, rfl⟩
  · split_ifs at hc
    · cases hc
    · rw [List.mem_singleton.mp hc]
      rfl
  · exact isUpper_nameCharOf b

/-- A name in lower case stands for itself. -/
theorem ofFileName_eq_self {name : String} (h : IsName name)
    (hlower : ∀ c ∈ name.toList, c.isUpper = false) : ofFileName name = name := by
  have hchars : ∀ c ∈ name.toList, nameCharOf c = c := by
    intro c hc
    have hchar : isNameChar c := by simpa [isNameChar, or_assoc] using h.forall_mem c hc
    rw [nameCharOf, if_pos hchar, Text.toLower_eq_self (hlower c hc)]
  have hstart : startsName name := by
    obtain ⟨c, cs, hname, hc, -⟩ := h
    simp [startsName, hname, isNameStart, hc]
  rw [← String.toList_inj, toList_ofFileName, if_pos hstart, List.nil_append]
  exact (List.map_congr_left hchars).trans (List.map_id' _)

/-- File names that differ in the case of their letters give one name. -/
theorem ofFileName_eq_of_sameLetters {s t : String} (h : Text.SameLetters s t) :
    ofFileName s = ofFileName t := by
  have hmap : ∀ s : String, s.toList.map nameCharOf = (s.toList.map Char.toLower).map nameCharOf := by
    intro s
    rw [List.map_map]
    exact List.map_congr_left fun c _ => (nameCharOf_toLower c).symm
  unfold ofFileName
  rw [hmap s, hmap t, h]

/-- **Every file name gives an identifier.** It is a name in lower case that is not reserved and that
stands for itself, it does not depend on the case of letters, and it has one character for each of the file
name, behind an underscore unless the file name starts with a letter, an underscore or a character that no
name has. -/
theorem ofFileName_usable (file : String) :
    isLegal (ofFileName file) ∧ (∀ c ∈ (ofFileName file).toList, c.isUpper = false) ∧
    ¬ isReserved (ofFileName file) ∧ ofFileName (ofFileName file) = ofFileName file ∧
    (∀ file', Text.SameLetters file file' → ofFileName file = ofFileName file') ∧
    (ofFileName file).toList =
      (if file.toList.head?.any (fun c => c.isAlpha || c == '_' ||
        !(c.isAlphanum || c == '_' || c == '.')) then [] else ['_']) ++
      file.toList.map fun c => if c.isAlphanum || c == '_' || c == '.' then c.toLower else '_' := by
  have hname := isName_ofFileName file
  have hlower : ∀ c ∈ (ofFileName file).toList, c.isUpper = false := fun c => isUpper_of_mem_ofFileName
  exact ⟨isLegal_iff_isName.mpr hname, hlower, (free_ofFileName file).not_isReserved,
    ofFileName_eq_self hname hlower, fun file' => ofFileName_eq_of_sameLetters, toList_ofFileName file⟩

/-- A file name that no name starts like, and one without characters. -/
theorem ofFileName_usable_archive :
    isLegal (ofFileName "7-Zip (é).EXE") ∧ ofFileName "7-Zip (é).EXE" = "_7_zip____.exe" ∧
      ofFileName "7-Zip (é).EXE" = ofFileName "7-ZIP (é).exe" ∧ isLegal (ofFileName "") ∧
      ofFileName "" = "_" := by
  obtain ⟨hlegal, -, -, -, hcase, -⟩ := ofFileName_usable "7-Zip (é).EXE"
  exact ⟨hlegal, by decide +kernel, hcase _ (by decide +kernel), (ofFileName_usable "").1, rfl⟩

end Identifier

end Installer
