import Installer.Proofs.Domains
import Mathlib.Data.List.TakeWhile

/-! # Authored identifiers

An identifier is authored as its name, or as the keyword of its access, blanks and its name
(`Identifier.Form`), with blanks around it or not (`Identifier.Spells`). `Identifier.parse` reads exactly
these texts, says which of three things is wrong with each other one, and reads back what
`Identifier.text` writes (`Identifier.parse_grammar`). Names and keywords have no blanks, so that a text
is taken apart at its first blank in one way only: a keyword that nothing follows is a name. -/

namespace Installer

/-! ### Blanks around a text -/

namespace Text

/-- A text of blanks only. -/
def Blanks (cs : List Char) : Prop := ∀ c ∈ cs, isBlank c

/-- A text that starts and ends with characters that are not blank. -/
def Tight (cs : List Char) : Prop :=
  (∃ c ∈ cs.head?, isBlank c = false) ∧ ∃ c ∈ cs.getLast?, isBlank c = false

variable {lead cs trail : List Char}

theorem trimStart_append (hlead : Blanks lead) (hcs : ∃ c ∈ cs.head?, isBlank c = false) :
    trimStart (lead ++ cs) = cs := by
  obtain ⟨c, hc, hblank⟩ := hcs
  obtain ⟨ds, rfl⟩ := List.head?_eq_some_iff.mp hc
  rw [trimStart, List.dropWhile_append_of_pos hlead, List.dropWhile_cons_of_neg (by simp [hblank])]

theorem trimEnd_append (hcs : ∃ c ∈ cs.getLast?, isBlank c = false) (htrail : Blanks trail) :
    trimEnd (cs ++ trail) = cs := by
  have hreverse : trimStart (trail.reverse ++ cs.reverse) = cs.reverse :=
    trimStart_append (fun c hc => htrail c (List.mem_reverse.mp hc)) (by rwa [List.head?_reverse])
  rw [trimEnd, List.reverse_append]
  exact (congrArg List.reverse hreverse).trans cs.reverse_reverse

/-- Blanks on both sides are removed and nothing else. -/
theorem trim_append (hlead : Blanks lead) (hcs : Tight cs) (htrail : Blanks trail) :
    trim (lead ++ cs ++ trail) = cs := by
  have hhead : ∃ c ∈ (cs ++ trail).head?, isBlank c = false := by
    obtain ⟨c, hc, hblank⟩ := hcs.1
    exact ⟨c, by simpa using .inl hc, hblank⟩
  rw [trim, List.append_assoc, trimStart_append hlead hhead, trimEnd_append hcs.2 htrail]

/-- What is removed from a text. -/
theorem exists_append_trim (cs : List Char) :
    ∃ lead trail, Blanks lead ∧ Blanks trail ∧ cs = lead ++ trim cs ++ trail := by
  have hend : trimEnd (trimStart cs) ++ ((trimStart cs).reverse.takeWhile isBlank).reverse =
      trimStart cs := by
    rw [trimEnd, ← List.reverse_append, List.takeWhile_append_dropWhile, List.reverse_reverse]
  refine ⟨cs.takeWhile isBlank, ((trimStart cs).reverse.takeWhile isBlank).reverse,
    fun c => List.mem_takeWhile_imp, fun c hc => ?_, ?_⟩
  · exact List.mem_takeWhile_imp (List.mem_reverse.mp hc)
  · rw [trim, List.append_assoc, hend]
    exact List.takeWhile_append_dropWhile.symm

theorem trim_eq_nil_iff : trim cs = [] ↔ Blanks cs := by
  constructor
  · intro h
    obtain ⟨lead, trail, hlead, htrail, hcs⟩ := exists_append_trim cs
    rw [h, List.append_nil] at hcs
    rw [hcs]
    exact List.forall_mem_append.mpr ⟨hlead, htrail⟩
  · intro h
    have hstart : trimStart cs = [] := List.dropWhile_eq_nil_iff.mpr h
    rw [trim, hstart]
    rfl

/-- Characters of names are not blank. -/
theorem isBlank_of_isNameChar {c : Char} (h : c.isAlphanum ∨ c = '_' ∨ c = '.') :
    isBlank c = false := by
  rcases h with h | rfl | rfl
  · delta Char.isAlphanum Char.isAlpha Char.isUpper Char.isLower Char.isDigit at h
    simp only [Bool.or_eq_true, Bool.and_eq_true, decide_eq_true_eq, ge_iff_le,
      UInt32.le_iff_toNat_le, Char.reduceVal, UInt32.reduceToNat] at h
    have hnat : c.val.toNat = c.toNat := rfl
    rw [Bool.eq_false_iff]
    simp only [isBlank, ne_eq, Bool.or_eq_true, Bool.and_eq_true, decide_eq_true_eq, beq_iff_eq]
    omega
  · rfl
  · rfl

end Text

/-! ### Forms -/

theorem Access.ofKeyword?_eq_some_iff {word : String} {access : Access} :
    ofKeyword? word = some access ↔ access ≠ .invalid ∧ access.keyword = word := by
  have hof : ∀ a : Access, a ≠ .invalid → ofKeyword? a.keyword = some a := by
    rintro ⟨⟩ h <;> first | rfl | exact absurd rfl h
  constructor
  · intro h
    have hmem : access ∈ authored := List.mem_of_find?_eq_some h
    refine ⟨?_, by simpa using List.find?_some h⟩
    rintro rfl
    exact absurd hmem (by decide)
  · rintro ⟨ha, rfl⟩
    exact hof access ha

namespace Identifier

/-- The ways to write an identifier with the given access and name: the name alone, if the access is
the global one, or the keyword of the access, one blank or more and the name. -/
inductive Form : Access → String → List Char → Prop
  | bare (id : String) : Form .global id id.toList
  | keyed (access : Access) (id : String) (blanks : List Char) (authored : access ≠ .invalid)
      (nonempty : blanks ≠ []) (blank : Text.Blanks blanks) :
      Form access id (access.keyword.toList ++ blanks ++ id.toList)

/-- The text is the identifier with the given access and name, written in one of its forms with any
blanks around it. -/
def Spells (value : String) (access : Access) (id : String) : Prop :=
  IsName id ∧ ∃ lead form trail, Text.Blanks lead ∧ Form access id form ∧ Text.Blanks trail ∧
    value.toList = lead ++ form ++ trail

theorem IsName.not_isBlank {id : String} (h : IsName id) : ∀ c ∈ id.toList, Text.isBlank c = false :=
  fun c hc => Text.isBlank_of_isNameChar (h.forall_mem c hc)

theorem IsName.ne_nil {id : String} (h : IsName id) : id.toList ≠ [] := by
  obtain ⟨c, cs, hid, -⟩ := h
  simp [hid]

theorem IsName.tight {id : String} (h : IsName id) : Text.Tight id.toList := by
  refine ⟨⟨_, List.head?_eq_some_head h.ne_nil, h.not_isBlank _ (List.head_mem h.ne_nil)⟩, ?_⟩
  exact ⟨_, List.getLast?_eq_some_getLast h.ne_nil, h.not_isBlank _ (List.getLast_mem h.ne_nil)⟩

/-- A keyword may also be a name. -/
theorem isName_keyword (access : Access) : IsName access.keyword := by
  apply isLegal_iff_isName.mp
  cases access <;> decide

theorem Form.tight {access : Access} {id : String} {form : List Char} (h : Form access id form)
    (hid : IsName id) : Text.Tight form := by
  cases h with
  | bare => exact hid.tight
  | keyed _ _ blanks ha hne hblank =>
    obtain ⟨c, hc, hcblank⟩ := (isName_keyword access).tight.1
    obtain ⟨d, hd, hdblank⟩ := hid.tight.2
    refine ⟨⟨c, by simpa using .inl hc, hcblank⟩, d, ?_, hdblank⟩
    rw [List.getLast?_append, hd]
    rfl

/-- What a text spells is seen when its blanks are removed. -/
theorem spells_iff_trim {value : String} {access : Access} {id : String} :
    Spells value access id ↔ IsName id ∧ Form access id (Text.trim value.toList) := by
  constructor
  · rintro ⟨hid, lead, form, trail, hlead, hform, htrail, hvalue⟩
    rw [hvalue, Text.trim_append hlead (hform.tight hid) htrail]
    exact ⟨hid, hform⟩
  · rintro ⟨hid, hform⟩
    obtain ⟨lead, trail, hlead, htrail, hvalue⟩ := Text.exists_append_trim value.toList
    exact ⟨hid, lead, _, trail, hlead, hform, htrail, hvalue⟩

/-! ### Reading -/

theorem check_of_isName (access : Access) {id : String} (h : IsName id) :
    check access id.toList =
      if id ∈ reservedNames then .error .reserved else .ok ⟨access, id⟩ := by
  have hlegal : isLegal id = true := isLegal_iff_isName.mpr h
  simp [check, hlegal, isReserved]

theorem check_of_not_isName (access : Access) {cs : List Char} (h : ¬ IsName (String.ofList cs)) :
    check access cs = .error .illegal := by
  have hlegal : isLegal (String.ofList cs) = false := by
    rw [Bool.eq_false_iff]
    exact fun hlegal => h (isLegal_iff_isName.mp hlegal)
  simp [check, hlegal]

theorem parse_of_blanks {value : String} (h : Text.Blanks value.toList) :
    parse value = .error .empty := by
  simp [parse, Text.trim_eq_nil_iff.mpr h]

/-- A text of one word. -/
theorem parse_word {value : String} {word : List Char} (hne : word ≠ [])
    (hword : ∀ c ∈ word, Text.isBlank c = false) (h : Text.trim value.toList = word) :
    parse value = check .global word := by
  have hpos : ∀ c ∈ word, (!Text.isBlank c) = true := by simpa using hword
  simp [parse, h, hne, List.takeWhile_eq_self_iff.mpr hpos, List.dropWhile_eq_nil_iff.mpr hpos]

/-- A text of a keyword and more words. -/
theorem parse_words {value : String} {word rest : List Char} {b : Char} {access : Access}
    (hne : word ≠ []) (hword : ∀ c ∈ word, Text.isBlank c = false) (hb : Text.isBlank b)
    (haccess : Access.ofKeyword? (String.ofList word) = some access)
    (h : Text.trim value.toList = word ++ b :: rest) :
    parse value = check access (Text.trimStart (b :: rest)) := by
  have hpos : ∀ c ∈ word, (!Text.isBlank c) = true := by simpa using hword
  simp [parse, h, hne, List.takeWhile_append_of_pos hpos, List.dropWhile_append_of_pos hpos, hb,
    haccess]

/-- **What a text spells is read from it**, up to the check for reserved names. -/
theorem Spells.parse_eq {value : String} {access : Access} {id : String}
    (h : Spells value access id) :
    parse value = if id ∈ reservedNames then .error .reserved else .ok ⟨access, id⟩ := by
  obtain ⟨hid, hform⟩ := spells_iff_trim.mp h
  generalize htrim : Text.trim value.toList = form at hform
  cases hform with
  | bare => rw [parse_word hid.ne_nil hid.not_isBlank htrim, check_of_isName _ hid]
  | keyed _ _ blanks ha hne hblank =>
    obtain ⟨b, bs, rfl⟩ := List.exists_cons_of_ne_nil hne
    have hkeyword := isName_keyword access
    have hof : Access.ofKeyword? (String.ofList access.keyword.toList) = some access := by
      rw [String.ofList_toList]
      exact Access.ofKeyword?_eq_some_iff.mpr ⟨ha, rfl⟩
    have hb : Text.isBlank b := hblank b List.mem_cons_self
    rw [List.append_assoc, List.cons_append] at htrim
    rw [parse_words hkeyword.ne_nil hkeyword.not_isBlank hb hof htrim, ← List.cons_append,
      Text.trimStart_append hblank hid.tight.1, check_of_isName _ hid]

/-- **A text that spells nothing is illegal.** -/
theorem parse_of_not_spells {value : String} (hblanks : ¬ Text.Blanks value.toList)
    (h : ∀ access id, ¬ Spells value access id) : parse value = .error .illegal := by
  -- The text is taken apart as `parse` does it; each way to get past the checks is a form.
  have hform : ∀ access id, IsName id → ¬ Form access id (Text.trim value.toList) :=
    fun access id hid hform => h access id (spells_iff_trim.mpr ⟨hid, hform⟩)
  have hne : Text.trim value.toList ≠ [] := fun hnil => hblanks (Text.trim_eq_nil_iff.mp hnil)
  generalize htrim : Text.trim value.toList = cs at hform hne
  have hsplit := List.takeWhile_append_dropWhile (p := (!Text.isBlank ·)) (l := cs)
  have hhead := List.head?_dropWhile_not (!Text.isBlank ·) cs
  simp only [parse, htrim, List.isEmpty_eq_false_iff.mpr hne, Bool.false_eq_true, if_false]
  generalize cs.takeWhile (!Text.isBlank ·) = word at hsplit
  generalize cs.dropWhile (!Text.isBlank ·) = rest at hsplit hhead
  split
  · rw [List.append_nil] at hsplit
    subst hsplit
    refine check_of_not_isName _ fun hname => hform .global _ hname ?_
    have hbare := Form.bare (String.ofList word)
    rwa [String.toList_ofList] at hbare
  · next hrest =>
    split
    · next access haccess =>
      obtain ⟨ha, hkeyword⟩ := Access.ofKeyword?_eq_some_iff.mp haccess
      refine check_of_not_isName _ fun hname => hform access _ hname ?_
      have hblank : rest.takeWhile Text.isBlank ≠ [] := by
        obtain ⟨b, bs, rfl⟩ := List.exists_cons_of_ne_nil hrest
        have hb : Text.isBlank b := by simpa using hhead
        simp [hb]
      have hkeyed := Form.keyed access (String.ofList (Text.trimStart rest)) _ ha hblank
        fun c => List.mem_takeWhile_imp
      rwa [hkeyword, String.toList_ofList, String.toList_ofList, List.append_assoc, Text.trimStart,
        List.takeWhile_append_dropWhile, hsplit] at hkeyed
    · rfl

/-- What can be read from a text, and when. -/
inductive Reads (value : String) : Except IdentifierError Identifier → Prop
  | empty (h : Text.Blanks value.toList) : Reads value (.error .empty)
  | reserved {access : Access} {id : String} (h : Spells value access id)
      (hid : id ∈ reservedNames) : Reads value (.error .reserved)
  | illegal (hblanks : ¬ Text.Blanks value.toList) (h : ∀ access id, ¬ Spells value access id) :
      Reads value (.error .illegal)
  | ok {access : Access} {id : String} (h : Spells value access id) (hid : id ∉ reservedNames) :
      Reads value (.ok ⟨access, id⟩)

/-- There is an answer for every text. -/
theorem reads_parse (value : String) : Reads value (parse value) := by
  by_cases hblanks : Text.Blanks value.toList
  · rw [parse_of_blanks hblanks]
    exact .empty hblanks
  · by_cases hspells : ∃ access id, Spells value access id
    · obtain ⟨access, id, h⟩ := hspells
      rw [h.parse_eq]
      split_ifs with hid
      · exact .reserved h hid
      · exact .ok h hid
    · have hnone : ∀ access id, ¬ Spells value access id := by simpa using hspells
      rw [parse_of_not_spells hblanks hnone]
      exact .illegal hblanks hnone

/-! ### Writing -/

/-- What is written is one of the forms. -/
theorem spells_text {i : Identifier} (ha : i.access ≠ .invalid) (hid : IsName i.id) :
    Spells i.text i.access i.id := by
  have hform : Form i.access i.id i.text.toList := by
    obtain ⟨access, id⟩ := i
    have hkeyed := Form.keyed access id [' '] ha (by simp) (by simp [Text.Blanks, Text.isBlank])
    cases access with
    | global => exact Form.bare id
    | invalid => exact absurd rfl ha
    | sectionWide => simpa [text] using hkeyed
    | filePrivate => simpa [text] using hkeyed
    | overridable => simpa [text] using hkeyed
  exact ⟨hid, [], i.text.toList, [], by simp [Text.Blanks], hform, by simp [Text.Blanks], by simp⟩

/-- **Reading accepts exactly the forms of identifiers and undoes writing.** A text is read as an
identifier if and only if it spells it and its name is not reserved; it is empty if and only if it is
blank, reserved if and only if it spells an identifier whose name is reserved, and illegal if and only if
it is neither blank nor spells anything. The text of an identifier is read as the same identifier, with
its access. -/
theorem parse_grammar (value : String) :
    (∀ access id, parse value = .ok ⟨access, id⟩ ↔
      Spells value access id ∧ id ∉ reservedNames) ∧
    (parse value = .error .empty ↔ Text.Blanks value.toList) ∧
    (parse value = .error .reserved ↔
      ∃ access id, Spells value access id ∧ id ∈ reservedNames) ∧
    (parse value = .error .illegal ↔
      ¬ Text.Blanks value.toList ∧ ∀ access id, ¬ Spells value access id) ∧
    ∀ i : Identifier, i.access ≠ .invalid → IsName i.id → i.id ∉ reservedNames →
      parse i.text = .ok i := by
  have hreads := reads_parse value
  refine ⟨fun access id => ⟨fun h => ?_, fun h => ?_⟩, ⟨fun h => ?_, parse_of_blanks⟩,
    ⟨fun h => ?_, ?_⟩, ⟨fun h => ?_, fun h => parse_of_not_spells h.1 h.2⟩, ?_⟩
  · rw [h] at hreads
    cases hreads with
    | ok hspells hid => exact ⟨hspells, hid⟩
  · rw [h.1.parse_eq, if_neg h.2]
  · rw [h] at hreads
    cases hreads with
    | empty hblanks => exact hblanks
  · rw [h] at hreads
    cases hreads with
    | reserved hspells hid => exact ⟨_, _, hspells, hid⟩
  · rintro ⟨access, id, hspells, hid⟩
    rw [hspells.parse_eq, if_pos hid]
  · rw [h] at hreads
    cases hreads with
    | illegal hblanks hspells => exact ⟨hblanks, hspells⟩
  · intro i ha hname hid
    rw [(spells_text ha hname).parse_eq, if_neg hid]

end Identifier

/-- A keyword as a name behind its own keyword, with different blanks around it. -/
theorem parse_grammar_keywords :
    Identifier.parse "\t virtual\u00a0\u2003virtual\u3000" = .ok ⟨.overridable, "virtual"⟩ ∧
      Identifier.Spells "\t virtual\u00a0\u2003virtual\u3000" .overridable "virtual" ∧
      Identifier.parse (Identifier.text ⟨.filePrivate, "private"⟩) = .ok ⟨.filePrivate, "private"⟩ ∧
      Identifier.parse (Identifier.text ⟨.global, "private"⟩) = .ok ⟨.global, "private"⟩ := by
  have hspelled : Identifier.parse "\t virtual\u00a0\u2003virtual\u3000" =
      .ok ⟨.overridable, "virtual"⟩ := by decide +kernel
  obtain ⟨hok, -, -, -, htext⟩ :=
    Identifier.parse_grammar "\t virtual\u00a0\u2003virtual\u3000"
  have hname := Identifier.isName_keyword .filePrivate
  exact ⟨hspelled, ((hok _ _).mp hspelled).1,
    htext ⟨.filePrivate, "private"⟩ (by decide) hname (by decide),
    htext ⟨.global, "private"⟩ (by decide) hname (by decide)⟩

end Installer
