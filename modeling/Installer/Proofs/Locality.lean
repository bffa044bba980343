import Installer.Proofs.Checked

/-! # What readers look at

A reader looks at the element only for its name, which stands in the findings, and at the attribute
only for its value, which settles whether it can be read and as what (`Reader.Local`). Checks are local
in the same way, and so are all checks of the rules (`Check.AllLocal`). -/

namespace Installer

open Compile

/-! ### Readers -/

namespace Reader

variable {α : Type}

/-- Two results of reading: one value, or two errors. -/
inductive Agree : Planned (Option α) → Planned (Option α) → Prop
  | accepted (v : α) : Agree (pure (some v)) (pure (some v))
  | refused {d d' : Diagnostic} (h : d.isError) (h' : d'.isError) : Agree (refuse d) (refuse d')

theorem Agree.value_eq {x y : Planned (Option α)} (h : Agree x y) : x.value = y.value := by
  cases h <;> rfl

/-- A reader that sees the name of an element and the value of an attribute. -/
class Local (read : Reader α) : Prop where
  name {e e' : Element} (h : e.name = e'.name) (a : Attribute) : read e a = read e' a
  value (e e' : Element) {a a' : Attribute} (h : a.value = a'.value) :
    Agree (read e a) (read e' a')

instance : Local identifier where
  name h a := by
    simp [identifier, Element.illegalEmpty, Element.illegalIdentifier, Element.reservedValue,
      Element.qualify, h]
  value e e' a a' h := by
    unfold identifier
    rw [h]
    split
    · exact .accepted _
    all_goals exact .refused rfl rfl

instance : Local reference where
  name h a := by
    simp [reference, Element.illegalEmpty, Element.illegalIdentifier, Element.qualify, h]
  value e e' a a' h := by
    unfold reference
    dsimp only
    rw [h]
    split_ifs
    · exact .refused rfl rfl
    · exact .refused rfl rfl
    · exact .accepted _

instance : Local variableName where
  name h a := by
    simp [variableName, Local.name h, Element.reservedValue, h]
  value e e' a a' h := by
    have href : Agree (reference e a) (reference e' a') := Local.value e e' h
    unfold variableName
    generalize reference e a = x at href
    generalize reference e' a' = y at href
    cases href with
    | refused hd hd' => exact .refused hd hd'
    | accepted v =>
      show Agree (if "Wix".toList.isPrefixOf v.toList then refuse (e.reservedValue a)
          else pure (some v))
        (if "Wix".toList.isPrefixOf v.toList then refuse (e'.reservedValue a') else pure (some v))
      split_ifs
      · exact .refused rfl rfl
      · exact .accepted _

instance (rule : EmptyRule) : Local (string rule) where
  name h a := by simp [string, Element.illegalEmpty, Element.qualify, h]
  value e e' a a' h := by
    unfold string
    rw [h]
    split_ifs
    · exact .accepted _
    · exact .refused rfl rfl

/-- What is read by a parser is local, if the finding about other values is. -/
theorem local_nonEmpty {parse? : String → Option α} {finding : Element → Attribute → Diagnostic}
    (hname : ∀ {e e' : Element}, e.name = e'.name → ∀ a, finding e a = finding e' a)
    (herror : ∀ e a, (finding e a).isError) : Local (nonEmpty parse? finding) where
  name h a := by simp [nonEmpty, Element.illegalEmpty, Element.qualify, h, hname h]
  value e e' a a' h := by
    unfold nonEmpty
    rw [h]
    split_ifs
    · exact .refused rfl rfl
    · split
      · exact .accepted _
      · exact .refused (herror e a) (herror e' a')

/-- The finding about a value that is illegal for a reason. -/
theorem local_nonEmpty_because {parse? : String → Option α} {reason : String} :
    Local (nonEmpty parse? fun e a => e.illegalValueBecause a reason) :=
  local_nonEmpty (fun h a => by simp [Element.illegalValueBecause, Element.qualify, h]) fun _ _ => rfl

/-- The finding about a value that is none of the legal ones. -/
theorem local_nonEmpty_among {parse? : String → Option α} {legal : List String} :
    Local (nonEmpty parse? fun e a => e.illegalValue a legal) :=
  local_nonEmpty (fun h a => by simp [Element.illegalValue, Element.qualify, h]) fun _ _ => rfl

instance (α : Type) [Choice α] : Local (choice α) := local_nonEmpty_among

instance : Local yesNo := local_nonEmpty_among

instance (lo hi : Int) : Local (long lo hi) where
  name h a := by
    simp [long, Element.illegalEmpty, Element.illegalValueBecause, Element.qualify, h]
  value e e' a a' h := by
    unfold long
    rw [h]
    split_ifs
    · exact .refused rfl rfl
    · split
      · exact .refused rfl rfl
      · split_ifs
        · exact .accepted _
        · exact .refused rfl rfl

instance (lo hi : Int32) : Local (integer lo hi) where
  name h a := by simp [integer, Local.name h]
  value e e' a a' h := by
    have hs := of_long lo.toInt hi.toInt e a
    have hlong : Agree (long lo.toInt hi.toInt e a) (long lo.toInt hi.toInt e' a') :=
      Local.value e e' h
    unfold integer
    generalize long lo.toInt hi.toInt e a = x at hs hlong
    generalize long lo.toInt hi.toInt e' a' = y at hlong
    cases hlong with
    | refused hd hd' => exact .refused hd hd'
    | accepted n =>
      -- the number is not lost, so that there is no refusal without an error
      have hn : lo.toInt ≤ n ∧ n ≤ hi.toInt := by cases hs; assumption
      show Agree (pure (narrow? n)) (pure (narrow? n))
      rw [(narrow?_eq_some hn.1 hn.2).1]
      exact .accepted _

instance {β : Type} (f : α → β) (read : Reader α) [Local read] : Local (read.map f) where
  name h a := by simp [Reader.map, Local.name h]
  value e e' a a' h := by
    have hagree : Agree (read e a) (read e' a') := Local.value e e' h
    unfold Reader.map
    generalize read e a = x at hagree
    generalize read e' a' = y at hagree
    cases hagree with
    | refused hd hd' => exact .refused hd hd'
    | accepted v => exact .accepted (f v)

instance (isMember : String → Bool) (reason : String) : Local (ofClass isMember reason) :=
  local_nonEmpty_because

instance : Local version := by
  unfold version
  infer_instance

instance (generatable : Bool) : Local (guid generatable) := local_nonEmpty_because

instance : Local codePage := local_nonEmpty_because

instance (relative : Bool) : Local (longFileName relative) := by
  unfold longFileName
  infer_instance

end Reader

/-! ### Fields -/

namespace Field

instance : Reader.Local Field.id.read := inferInstanceAs (Reader.Local Reader.identifier)

variable (name : String)

instance : Reader.Local (reference name).read := by
  dsimp only [reference]
  infer_instance

instance : Reader.Local (Field.mk name Reader.variableName).read := by
  dsimp only
  infer_instance

instance : Reader.Local (text name).read :=
  inferInstanceAs (Reader.Local (Reader.string .nonBlank))

instance : Reader.Local (anyText name).read :=
  inferInstanceAs (Reader.Local (Reader.string .canBeEmpty))

instance : Reader.Local (yesNo name).read := inferInstanceAs (Reader.Local Reader.yesNo)

instance (α : Type) [Choice α] : Reader.Local (choice α name).read :=
  inferInstanceAs (Reader.Local (Reader.choice α))

instance (lo hi : Int) : Reader.Local (long name lo hi).read :=
  inferInstanceAs (Reader.Local (Reader.long lo hi))

instance (lo hi : Int32) : Reader.Local (integer name lo hi).read :=
  inferInstanceAs (Reader.Local ((Reader.integer lo hi).map Int32.toInt))

instance : Reader.Local (version name).read := inferInstanceAs (Reader.Local Reader.version)

instance : Reader.Local (guid name).read := inferInstanceAs (Reader.Local (Reader.guid false))

instance : Reader.Local (generatableGuid name).read :=
  inferInstanceAs (Reader.Local (Reader.guid true))

instance : Reader.Local (codePage name).read := inferInstanceAs (Reader.Local Reader.codePage)

instance : Reader.Local (fileName name).read :=
  inferInstanceAs (Reader.Local (Reader.longFileName false))

instance : Reader.Local (relativePath name).read :=
  inferInstanceAs (Reader.Local (Reader.longFileName true))

instance : Reader.Local (language name).read :=
  inferInstanceAs (Reader.Local (integer name 0 65535).read)

end Field

/-! ### Checks -/

namespace Check

/-- A check that sees the name of an element, and that the value of an attribute settles. -/
class Local (check : String × Check) : Prop where
  name {e e' : Element} (h : e.name = e'.name) (a : Attribute) : check.2 e a = check.2 e' a
  value (e e' : Element) {a a' : Attribute} (h : a.value = a'.value) :
    Diagnostic.hasErrors (check.2 e a) = Diagnostic.hasErrors (check.2 e' a')

/-- A list of such checks. -/
class AllLocal (checks : List (String × Check)) : Prop where
  all : ∀ check ∈ checks, Local check

instance {α : Type} (f : Field α) [Reader.Local f.read] : Local (Field.check f) where
  name h a := by simp [Field.check, Reader.findings, Reader.Local.name h]
  value e e' a a' h := by
    have hagree : Reader.Agree (f.read e a) (f.read e' a') := Reader.Local.value e e' h
    simp only [Field.check, Reader.findings]
    generalize f.read e a = x at hagree
    generalize f.read e' a' = y at hagree
    cases hagree with
    | accepted v => rfl
    | refused hd hd' => simp [Diagnostic.hasErrors, hd, hd']

instance : AllLocal [] := ⟨by simp⟩

instance (check : String × Check) (checks : List (String × Check)) [Local check]
    [AllLocal checks] : AllLocal (check :: checks) :=
  ⟨List.forall_mem_cons.mpr ⟨inferInstance, AllLocal.all⟩⟩

instance (checks checks' : List (String × Check)) [AllLocal checks] [AllLocal checks'] :
    AllLocal (checks ++ checks') :=
  ⟨List.forall_mem_append.mpr ⟨AllLocal.all, AllLocal.all⟩⟩

instance (p : Prop) [Decidable p] (checks checks' : List (String × Check)) [AllLocal checks]
    [AllLocal checks'] : AllLocal (if p then checks else checks') := by
  split_ifs <;> infer_instance

instance {α : Type} (f : α → String × Check) (l : List α) [∀ a, Local (f a)] :
    AllLocal (l.map f) :=
  ⟨List.forall_mem_map.mpr fun _ _ => inferInstance⟩

/-- The check that an attribute is given is one of the list. -/
theorem local_of_lookup {checks : List (String × Check)} [AllLocal checks] {name : String}
    {check : Check} (h : checks.lookup name = some check) : Local (name, check) := by
  obtain ⟨l₁, l₂, hl, -⟩ := List.lookup_eq_some_iff.mp h
  have hmem : (name, check) ∈ checks := by rw [hl]; simp
  exact AllLocal.all _ hmem

end Check

/-! ### The checks of the rules -/

namespace Compile

instance : Check.Local providerCheck where
  name _ _ := rfl
  value _ _ _ _ _ := rfl

instance : Check.Local compressedCheck :=
  inferInstanceAs (Check.Local (Field.check (.yesNo "Compressed")))

instance (config : Config) (name replacement : String) :
    Check.Local (deprecatedCheck config name replacement) where
  name h a := by simp [deprecatedCheck, Element.deprecatedAttribute, Element.qualify, h]
  value e e' a a' h := by
    simp only [deprecatedCheck]
    split_ifs <;> rfl

instance (env : Env) : Check.Local (componentGuidCheck env) where
  name h a := by
    simp [componentGuidCheck, Reader.Local.name h, Element.illegalValueBecause, Element.qualify, h]
  value e e' a a' h := by
    have hagree : Reader.Agree (Reader.guid true e a) (Reader.guid true e' a') :=
      Reader.Local.value e e' h
    simp only [componentGuidCheck]
    generalize Reader.guid true e a = x at hagree
    generalize Reader.guid true e' a' = y at hagree
    cases hagree with
    | refused hd hd' => simp [Diagnostic.hasErrors, hd, hd']
    | accepted v =>
      simp only [Logged.findings_pure, List.nil_append, Logged.value_pure]
      split_ifs <;> rfl

instance : Reader.Local sizeField.read := by
  unfold sizeField
  infer_instance

instance : Reader.Local exitCodeField.read := by
  unfold exitCodeField
  infer_instance

instance : Reader.Local installerVersionField.read := by
  unfold installerVersionField
  infer_instance

instance : Reader.Local sequenceField.read := by
  unfold sequenceField
  infer_instance

instance : Reader.Local scriptField.read := by
  unfold scriptField
  infer_instance

instance (target : Symbol.ActionTarget) : Reader.Local (targetReader target) := by
  unfold targetReader
  split <;> infer_instance

instance : Check.AllLocal sourceChecks := by
  unfold sourceChecks
  infer_instance

instance : Check.AllLocal remoteChecks := by
  unfold remoteChecks
  infer_instance

instance : Reader.Local sizeField.read := by
  unfold sizeField
  infer_instance

instance (form : PayloadForm) : Check.AllLocal form.checks := by
  unfold PayloadForm.checks compressedCheck
  cases form with
  | own | inline => infer_instance
  | typed kind => cases kind <;> infer_instance

instance : Check.AllLocal commonChecks := by
  unfold commonChecks
  infer_instance

instance (config : Config) (kind : Symbol.PackageKind) :
    Check.AllLocal (kindChecks config kind) := by
  unfold kindChecks argumentChecks
  split <;> infer_instance

instance : Check.AllLocal customActionChecks := by
  unfold customActionChecks
  infer_instance

instance (kind : ActionKind) : Check.AllLocal (actionChecks kind) := by
  unfold actionChecks
  infer_instance

end Compile

end Installer
