import Installer.Compile.Field
import Installer.Compile.Rule.Action
import Installer.Identifier.Synthesis
import Mathlib.Tactic.Common

/-! # The domains of values

What the values of a document can be, said without the functions that read or make them: names
(`Identifier.IsName`), GUIDs in their normal form (`Guid.IsNormal`), versions (`Version.IsAuthored`)
and texts that are not blank (`Text.HasInk`). Names that are made from something else are names too
(`isName_synthesize`, `isName_ofFileName`, `isName_actionId`), and the normal form of a GUID deserves
its name (`Guid.isNormal_of_normalize?`). A reader is of a domain (`Reader.Of`) if everything that it
reads lies in the domain and it takes everything else for an error. -/

namespace Installer

/-! ### Names -/

namespace Identifier

/-- A name is a word `[A-Za-z_][A-Za-z0-9_.]*`. -/
def IsName (s : String) : Prop :=
  ∃ c cs, s.toList = c :: cs ∧ (c.isAlpha ∨ c = '_') ∧ ∀ d ∈ cs, d.isAlphanum ∨ d = '_' ∨ d = '.'

/-- An identifier that does not stand in for another one. -/
def Proper (i : Identifier) : Prop := i.access ≠ .invalid ∧ IsName i.id

theorem isLegal_iff_isName {s : String} : isLegal s ↔ IsName s := by
  unfold isLegal IsName
  cases s.toList with
  | nil => simp
  | cons c cs => simp [isNameStart, isNameChar, or_assoc]

theorem proper_ofName {s : String} (h : IsName s) : (ofName s).Proper := ⟨Access.noConfusion, h⟩

/-- A name stays one if characters of names are put behind it. -/
theorem IsName.append {s : String} (h : IsName s) {cs : List Char}
    (hcs : ∀ c ∈ cs, c.isAlphanum ∨ c = '_' ∨ c = '.') : IsName (s ++ String.ofList cs) := by
  obtain ⟨c, ds, hs, hc, hds⟩ := h
  refine ⟨c, ds ++ cs, by simp [hs], hc, fun d hd => ?_⟩
  rcases List.mem_append.mp hd with hd | hd
  · exact hds d hd
  · exact hcs d hd

/-- All characters of a name may stand in a name. -/
theorem IsName.forall_mem {s : String} (h : IsName s) :
    ∀ c ∈ s.toList, c.isAlphanum ∨ c = '_' ∨ c = '.' := by
  obtain ⟨c, cs, hs, hc, hcs⟩ := h
  rw [hs]
  intro d hd
  rcases List.mem_cons.mp hd with rfl | hd
  · rcases hc with hc | hc
    · exact .inl (by simp [Char.isAlphanum, hc])
    · exact .inr (.inl hc)
  · exact hcs d hd

end Identifier

theorem Text.isAlphanum_hexDigit (n : Nat) : (Text.hexDigit n).isAlphanum := by
  have hall : ('0' :: "0123456789abcdef".toList).all Char.isAlphanum := by decide
  rw [List.all_eq_true] at hall
  unfold Text.hexDigit
  rw [List.getD_eq_getElem?_getD]
  cases h : "0123456789abcdef".toList[n]? with
  | none => exact hall _ (by simp)
  | some c => exact hall c (List.mem_cons_of_mem _ (List.mem_of_getElem? h))

theorem Text.isAlphanum_of_mem_hexDigits {k n : Nat} : ∀ c ∈ Text.hexDigits k n, c.isAlphanum := by
  induction k generalizing n with
  | zero => simp [Text.hexDigits]
  | succ k ih =>
    intro c hc
    rcases List.mem_append.mp hc with hc | hc
    · exact ih c hc
    · rw [List.mem_singleton.mp hc]
      exact isAlphanum_hexDigit _

theorem Text.isAlphanum_toLower {c : Char} (h : c.isAlphanum) : c.toLower.isAlphanum := by
  delta Char.isAlphanum Char.isAlpha Char.isUpper Char.isLower Char.isDigit Char.toLower at *
  simp only [Bool.or_eq_true, Bool.and_eq_true, decide_eq_true_eq, ge_iff_le,
    UInt32.le_iff_toNat_le, Char.reduceVal, UInt32.reduceToNat] at h ⊢
  split
  · simp only [UInt32.toNat_add, UInt32.reduceToNat, UInt32.reduceSub]
    omega
  · exact h

namespace Identifier

theorem isName_synthesize {stem : String} (h : IsName stem) (values : List String) :
    IsName (synthesize stem values) :=
  h.append fun c hc => .inl (Text.isAlphanum_of_mem_hexDigits c hc)

theorem proper_synthesize (stem : String) (h : isLegal stem) (values : List String) :
    (ofName (synthesize stem values)).Proper :=
  proper_ofName (isName_synthesize (isLegal_iff_isName.mp h) values)

theorem nameCharOf_spec (c : Char) :
    (nameCharOf c).isAlphanum ∨ nameCharOf c = '_' ∨ nameCharOf c = '.' := by
  unfold nameCharOf
  split_ifs with h
  · simp only [isNameChar, Bool.or_eq_true, beq_iff_eq] at h
    rcases h with (h | rfl) | rfl
    · exact .inl (Text.isAlphanum_toLower h)
    · exact .inr (.inl rfl)
    · exact .inr (.inr rfl)
  · exact .inr (.inl rfl)

/-- Every file name gives a name, the empty one too. -/
theorem isName_ofFileName (file : String) : IsName (ofFileName file) := by
  have hall : ∀ c ∈ file.toList.map nameCharOf, c.isAlphanum ∨ c = '_' ∨ c = '.' := by
    simpa using fun c _ => nameCharOf_spec c
  unfold ofFileName
  dsimp only
  split
  · next c cs hcs =>
    rw [hcs] at hall ⊢
    split_ifs with h
    · refine ⟨c, cs, by simp, ?_, fun d hd => hall d (List.mem_cons_of_mem _ hd)⟩
      simpa [isNameStart] using h
    · exact ⟨'_', c :: cs, by simp, .inr rfl, hall⟩
  · exact ⟨'_', [], rfl, .inr rfl, by simp⟩

theorem isName_table (table : Symbol.SequenceTable) : IsName table.name := by
  obtain ⟨sequence, ofModule⟩ := table
  apply isLegal_iff_isName.mp
  cases sequence <;> cases ofModule <;> decide

theorem isName_actionId (table : Symbol.SequenceTable) {action : String} (h : IsName action) :
    IsName (Compile.actionId table action) := by
  have happend : Compile.actionId table action =
      table.name ++ String.ofList ('.' :: action.toList) := by
    simp [Compile.actionId, String.append_assoc]
  rw [happend]
  refine (isName_table table).append fun c hc => ?_
  rcases List.mem_cons.mp hc with rfl | hc
  · exact .inr (.inr rfl)
  · exact h.forall_mem c hc

theorem proper_of_check {access : Access} {cs : List Char} {i : Identifier}
    (ha : access ≠ .invalid) (h : check access cs = .ok i) : i.Proper := by
  simp only [check] at h
  split_ifs at h with hl hr
  cases h
  exact ⟨ha, isLegal_iff_isName.mp (by simpa using hl)⟩

/-- What an author can write as an identifier is one. -/
theorem proper_of_parse {value : String} {i : Identifier} (h : parse value = .ok i) : i.Proper := by
  unfold parse at h
  dsimp only at h
  split_ifs at h
  split at h
  · exact proper_of_check Access.noConfusion h
  · split at h
    · next access ha =>
      -- the invalid access has no keyword that an author could use
      have hmem : access ∈ Access.authored := List.mem_of_find?_eq_some ha
      have hne : ∀ a ∈ Access.authored, a ≠ .invalid := by decide
      exact proper_of_check (hne access hmem) h
    · cases h

end Identifier

/-! ### GUIDs -/

namespace Guid

/-- The digits of normal forms. -/
def IsDigit (c : Char) : Prop := c.isDigit ∨ 'A' ≤ c ∧ c ≤ 'F'

/-- The normal form of a GUID: five groups of digits with hyphens between them, in braces. -/
def IsNormal (s : String) : Prop :=
  ∃ groups : List (List Char), groups.map List.length = [8, 4, 4, 4, 12] ∧
    (∀ g ∈ groups, ∀ c ∈ g, IsDigit c) ∧ s.toList = ['{'] ++ ['-'].intercalate groups ++ ['}']

theorem isDigit_toUpper {c : Char} (h : (Text.digit? c).isSome) : IsDigit c.toUpper := by
  unfold Text.digit? at h
  delta IsDigit Char.isDigit Char.toUpper at *
  simp only [Char.le_def, Bool.and_eq_true, decide_eq_true_eq, ge_iff_le, UInt32.le_iff_toNat_le,
    Char.reduceVal, UInt32.reduceToNat] at h ⊢
  split
  · simp only [UInt32.toNat_add, UInt32.reduceToNat, UInt32.reduceSub]
    grind
  · grind

/-- Writing digits as groups of the given sizes. -/
theorem hyphenate_eq_intercalate {sizes : List Nat} (hne : sizes ≠ []) {ds : List Char}
    (h : ds.length = sizes.foldr (· + ·) 0) :
    ∃ groups : List (List Char), groups.map List.length = sizes ∧
      (∀ g ∈ groups, ∀ c ∈ g, c ∈ ds) ∧ hyphenate sizes ds = ['-'].intercalate groups := by
  induction sizes generalizing ds with
  | nil => exact absurd rfl hne
  | cons n sizes ih =>
    cases sizes with
    | nil =>
      have hn : ds.length = n := by simpa using h
      refine ⟨[ds], by simp [hn], by simp, ?_⟩
      simp [hyphenate, ← hn]
    | cons m sizes =>
      rw [List.foldr_cons] at h
      have hdrop : (ds.drop n).length = (m :: sizes).foldr (· + ·) 0 := by
        rw [List.length_drop, h]
        omega
      obtain ⟨groups, hlen, hmem, heq⟩ := ih (by simp) hdrop
      refine ⟨ds.take n :: groups, ?_, ?_, ?_⟩
      · rw [List.map_cons, hlen, List.length_take]
        congr 1
        omega
      · intro g hg c hc
        rcases List.mem_cons.mp hg with rfl | hg
        · exact List.mem_of_mem_take hc
        · exact List.mem_of_mem_drop (hmem g hg c hc)
      · cases groups with
        | nil => simp at hlen
        | cons g groups => simp [hyphenate, heq, List.intercalate]

theorem length_groups? {sizes : List Nat} {cs : List Char} {groups : List (List Char)}
    (h : groups? sizes cs = some groups) : groups.map List.length = sizes := by
  fun_induction groups? sizes cs generalizing groups with
  | case1 => cases h
  | case2 cs => cases h; rfl
  | case3 => cases h
  | case4 n sizes cs _ rest hdrop ih =>
    obtain ⟨gs, hgs, rfl⟩ := Option.map_eq_some_iff.mp h
    have hlen : n < cs.length := by
      have := congrArg List.length hdrop
      simp only [List.length_drop, List.length_cons] at this
      omega
    rw [List.map_cons, ih hgs, List.length_take]
    congr 1
    omega
  | case5 => cases h

/-- A GUID has 32 digits in each of its notations. -/
theorem digits?_spec {cs ds : List Char} (h : digits? cs = some ds) :
    ds.length = 32 ∧ ∀ c ∈ ds, (Text.digit? c).isSome := by
  have hgroups : ∀ {cs groups}, groups? groupSizes cs = some groups →
      groups.flatten.length = 32 := by
    intro cs groups hg
    rw [List.length_flatten, length_groups? hg]
    rfl
  simp only [digits?, Option.filter_eq_some_iff, List.all_eq_true] at h
  refine ⟨?_, h.2⟩
  replace h := h.1
  split_ifs at h with h32 h36 h38
  · cases h
    exact h32
  · obtain ⟨groups, hg, rfl⟩ := Option.map_eq_some_iff.mp h
    exact hgroups hg
  · obtain ⟨groups, hg, rfl⟩ := Option.map_eq_some_iff.mp h
    obtain ⟨inner, -, hg⟩ := Option.bind_eq_some_iff.mp hg
    exact hgroups hg
  · obtain ⟨groups, hg, rfl⟩ := Option.map_eq_some_iff.mp h
    obtain ⟨inner, -, hg⟩ := Option.bind_eq_some_iff.mp hg
    exact hgroups hg

theorem isNormal_of_normalize? {s t : String} (h : normalize? s = some t) : IsNormal t := by
  obtain ⟨ds, hds, rfl⟩ := Option.map_eq_some_iff.mp h
  obtain ⟨hlen, hdigit⟩ := digits?_spec hds
  have hsum : (ds.map Char.toUpper).length = groupSizes.foldr (· + ·) 0 := by
    rw [List.length_map, hlen]
    rfl
  obtain ⟨groups, hsizes, hmem, heq⟩ := hyphenate_eq_intercalate (by decide) hsum
  refine ⟨groups, hsizes, fun g hg c hc => ?_, by simp [braced, heq]⟩
  obtain ⟨d, hd, rfl⟩ := List.mem_map.mp (hmem g hg c hc)
  exact isDigit_toUpper (hdigit d hd)

end Guid

/-! ### Texts and numbers -/

/-- A text with a character that is not blank. -/
def Text.HasInk (s : String) : Prop := ∃ c ∈ s.toList, Text.isBlank c = false

/-- A version, or a variable `!(…)` that stands for one. -/
def Version.IsAuthored (s : String) : Prop :=
  Version.isVersion s ∨ ∃ inner, s.toList = ['!', '('] ++ inner ++ [')']

theorem Version.isAuthored_of_isBound {s : String} (h : Version.isBound s) : Version.IsAuthored s := by
  unfold Version.isBound at h
  split at h
  · next cs hs =>
    obtain ⟨inner, hinner⟩ := List.getLast?_eq_some_iff.mp (beq_iff_eq.mp h)
    exact .inr ⟨inner, by simp [hs, hinner]⟩
  · cases h

/-- The numbers of languages and of code pages. -/
def CodePage.InRange (n : Int) : Prop := 0 ≤ n ∧ n ≤ 65535

theorem CodePage.inRange_of_parse? {s : String} {n : Int} (h : CodePage.parse? s = some n) :
    CodePage.InRange n := by
  unfold CodePage.parse? at h
  split at h
  · split_ifs at h with hn
    cases h
    simpa [CodePage.InRange] using hn
  · obtain ⟨l₁, l₂, hl, -⟩ := List.lookup_eq_some_iff.mp h
    have hmem : (String.ofList (s.toList.map Char.toLower), n) ∈ CodePage.webNames := by simp [hl]
    have hall : ∀ p ∈ CodePage.webNames, 0 ≤ p.2 ∧ p.2 ≤ 65535 := by decide
    exact hall _ hmem

/-! ### Readers -/

namespace Reader

variable {α : Type} {P : α → Prop}

/-- What may come of reading: a value of the domain and nothing else, or no value and one error. -/
inductive Settles (P : α → Prop) : Planned (Option α) → Prop
  | accepted {v : α} (h : P v) : Settles P (pure (some v))
  | refused {d : Diagnostic} (h : d.isError) : Settles P (refuse d)

/-- A reader of a domain settles every attribute: what it reads lies in the domain, and what it does not
read is an error. -/
def Of (read : Reader α) (P : α → Prop) : Prop := ∀ e a, Settles P (read e a)

section Of
variable {read : Reader α} {e : Element} {a : Attribute}

theorem Of.domain (hf : read.Of P) {v : α} (h : (read e a).value = some v) : P v := by
  have hs := hf e a
  revert h
  generalize read e a = x at hs
  cases hs with
  | accepted hv => rintro ⟨⟩; exact hv
  | refused => rintro ⟨⟩

theorem Of.isError (hf : read.Of P) {d : Diagnostic} (h : d ∈ (read e a).findings) : d.isError := by
  have hs := hf e a
  revert h
  generalize read e a = x at hs
  cases hs with
  | accepted => exact fun h => absurd h List.not_mem_nil
  | refused hd =>
    intro h
    rw [List.mem_singleton.mp h]
    exact hd

/-- What is not reported as an error is read. -/
theorem Of.exists_value (hf : read.Of P) (h : ∀ d ∈ (read e a).findings, d.isError = false) :
    ∃ v, (read e a).value = some v := by
  have hs := hf e a
  revert h
  generalize read e a = x at hs
  cases hs with
  | accepted => exact fun _ => ⟨_, rfl⟩
  | refused hd =>
    intro h
    rw [h _ List.mem_cons_self] at hd
    cases hd

theorem Of.mono {Q : α → Prop} (hf : read.Of P) (h : ∀ v, P v → Q v) : read.Of Q := by
  intro e a
  have hs := hf e a
  generalize read e a = x at hs ⊢
  cases hs with
  | accepted hv => exact .accepted (h _ hv)
  | refused hd => exact .refused hd

/-- Values can be made into others after they are read. -/
theorem Of.map {β : Type} {Q : β → Prop} (hf : read.Of P) {f : α → β} (hq : ∀ v, P v → Q (f v)) :
    (read.map f).Of Q := by
  intro e a
  have hs := hf e a
  unfold Reader.map
  generalize read e a = x at hs ⊢
  cases hs with
  | accepted hv => exact .accepted (hq _ hv)
  | refused hd => exact .refused hd

end Of

theorem of_identifier : Reader.identifier.Of Identifier.Proper := by
  intro e a
  unfold identifier
  split
  · next hi => exact .accepted (Identifier.proper_of_parse hi)
  all_goals exact .refused rfl

theorem of_reference : Reader.reference.Of Identifier.IsName := by
  intro e a
  simp only [reference]
  split_ifs with hempty hlegal
  · exact .refused rfl
  · exact .refused rfl
  · exact .accepted (Identifier.isLegal_iff_isName.mp (by simpa using hlegal))

theorem of_variableName : Reader.variableName.Of Identifier.IsName := by
  intro e a
  have hs := of_reference e a
  unfold variableName
  generalize reference e a = x at hs ⊢
  cases hs with
  | refused hd => exact .refused hd
  | @accepted value hname =>
    show Settles _ (if "Wix".toList.isPrefixOf value.toList then refuse (e.reservedValue a)
      else pure (some value))
    split_ifs
    · exact .refused rfl
    · exact .accepted hname

theorem of_string (rule : EmptyRule) : (Reader.string rule).Of (rule.allows · = true) := by
  intro e a
  unfold string
  split_ifs with hr
  · exact .accepted hr
  · exact .refused rfl

theorem of_text : (Reader.string .nonBlank).Of Text.HasInk :=
  (of_string .nonBlank).mono fun v hv => by
    simpa [EmptyRule.allows, Text.isAllBlank, Text.HasInk] using hv

theorem of_nonEmpty {parse? : String → Option α} {finding : Element → Attribute → Diagnostic}
    (hp : ∀ {s v}, parse? s = some v → P v) (hf : ∀ e a, (finding e a).isError) :
    (nonEmpty parse? finding).Of P := by
  intro e a
  unfold nonEmpty
  split_ifs
  · exact .refused rfl
  · split
    · next hv => exact .accepted (hp hv)
    · exact .refused (hf e a)

theorem of_ofClass (isMember : String → Bool) (reason : String) :
    (ofClass isMember reason).Of (isMember · = true) := by
  refine of_nonEmpty ?_ fun _ _ => rfl
  intro s v h
  split_ifs at h with hs
  cases h
  exact hs

theorem of_version : Reader.version.Of Version.IsAuthored := by
  refine (of_ofClass _ _).mono fun v hv => ?_
  rcases (Bool.or_eq_true _ _).mp hv with hv | hv
  · exact .inl hv
  · exact Version.isAuthored_of_isBound hv

theorem of_guid : (Reader.guid false).Of Guid.IsNormal :=
  of_nonEmpty (fun h => Guid.isNormal_of_normalize? (by simpa using h)) fun _ _ => rfl

theorem of_generatableGuid : (Reader.guid true).Of fun s => s = "*" ∨ Guid.IsNormal s := by
  refine of_nonEmpty ?_ fun _ _ => rfl
  intro s v h
  dsimp only at h
  split_ifs at h
  · cases h
    exact .inl rfl
  · exact .inr (Guid.isNormal_of_normalize? h)

theorem of_codePage : Reader.codePage.Of CodePage.InRange :=
  of_nonEmpty CodePage.inRange_of_parse? fun _ _ => rfl

theorem of_long (lo hi : Int) : (Reader.long lo hi).Of fun n => lo ≤ n ∧ n ≤ hi := by
  intro e a
  unfold long
  split_ifs
  · exact .refused rfl
  · split
    · exact .refused rfl
    · split_ifs with hn
      · exact .accepted (by simpa using hn)
      · exact .refused rfl

/-- A number between bounds of 32 bits has 32 bits itself. -/
theorem narrow?_eq_some {lo hi : Int32} {n : Int} (hlo : lo.toInt ≤ n) (hhi : n ≤ hi.toInt) :
    narrow? n = some (Int32.ofInt n) ∧ (Int32.ofInt n).toInt = n := by
  have hleast : -2 ^ 31 ≤ lo.toInt := lo.le_toInt
  have hmost : hi.toInt < 2 ^ 31 := hi.toInt_lt
  have hmin : Int32.minValue.toInt = -2 ^ 31 := rfl
  have hmax : Int32.maxValue.toInt = 2 ^ 31 - 1 := rfl
  refine ⟨if_pos ?_, Int32.toInt_ofInt_of_le (by omega) (by omega)⟩
  rw [Bool.and_eq_true, decide_eq_true_iff, decide_eq_true_iff]
  omega

/-- **Nothing is lost when numbers are narrowed**: the bounds have 32 bits. -/
theorem of_integer (lo hi : Int32) :
    (Reader.integer lo hi).Of fun n => lo.toInt ≤ n.toInt ∧ n.toInt ≤ hi.toInt := by
  intro e a
  have hs := of_long lo.toInt hi.toInt e a
  unfold integer
  generalize long lo.toInt hi.toInt e a = x at hs ⊢
  cases hs with
  | refused hd => exact .refused hd
  | @accepted n hn =>
    obtain ⟨hnarrow, hsame⟩ := narrow?_eq_some hn.1 hn.2
    show Settles _ (pure (narrow? n))
    rw [hnarrow]
    exact .accepted (by rwa [hsame])

end Reader

/-! ### Fields -/

namespace Field

theorem of_id : Field.id.read.Of Identifier.Proper := Reader.of_identifier

variable (name : String)

theorem of_reference : (Field.reference name).read.Of Identifier.IsName := by
  dsimp only [Field.reference]
  exact Reader.of_reference

theorem of_text : (Field.text name).read.Of Text.HasInk := Reader.of_text

theorem of_version : (Field.version name).read.Of Version.IsAuthored := Reader.of_version

theorem of_guid : (Field.guid name).read.Of Guid.IsNormal := Reader.of_guid

theorem of_generatableGuid :
    (Field.generatableGuid name).read.Of fun s => s = "*" ∨ Guid.IsNormal s :=
  Reader.of_generatableGuid

theorem of_codePage : (Field.codePage name).read.Of CodePage.InRange := Reader.of_codePage

theorem of_long (lo hi : Int) : (Field.long name lo hi).read.Of fun n => lo ≤ n ∧ n ≤ hi :=
  Reader.of_long lo hi

theorem of_integer (lo hi : Int32) :
    (Field.integer name lo hi).read.Of fun n => lo.toInt ≤ n ∧ n ≤ hi.toInt :=
  (Reader.of_integer lo hi).map fun _ hn => hn

theorem of_choice (α : Type) [Choice α] :
    (Field.choice α name).read.Of (· ∈ (Choice.choices : List α)) :=
  Reader.of_nonEmpty List.mem_of_find?_eq_some fun _ _ => rfl

theorem of_yesNo : (Field.yesNo name).read.Of fun _ => True :=
  Reader.of_nonEmpty (fun _ => trivial) fun _ _ => rfl

theorem of_language : (Field.language name).read.Of CodePage.InRange := of_integer name 0 65535

theorem of_fileName : (Field.fileName name).read.Of (FileName.isLong false · = true) :=
  Reader.of_ofClass _ _

theorem of_relativePath : (Field.relativePath name).read.Of (FileName.isLong true · = true) :=
  Reader.of_ofClass _ _

end Field

end Installer
