import Installer.Proofs.Checked

/-! # The findings of rules

A rule reports errors, and warnings only about deprecated attributes and only if these are asked for
(`Compile.ruled_plan`): readers find nothing but errors, and one check of packages finds deprecated
names. So a warning that no extension handles a node (`Diagnostic.isUnhandled`) comes only of offering the
node (`Compile.own_plan`). -/

namespace Installer

open Compile Planned

variable {w : Bool}

/-! ### Kinds of diagnostics -/

namespace Diagnostic

/-- The warning that no extension handles a node. -/
def isUnhandled (d : Diagnostic) : Bool :=
  d.kind == .unhandledExtensionAttribute || d.kind == .unhandledExtensionElement

theorem isError_of_isUnhandled {d : Diagnostic} (h : d.isUnhandled) : d.isError = false := by
  simp only [isUnhandled, Bool.or_eq_true, beq_iff_eq] at h
  rcases h with h | h <;> simp [isError, severity, h, DiagnosticKind.severity]

theorem isUnhandled_of_isError {d : Diagnostic} (h : d.isError) : d.isUnhandled = false := by
  by_contra hd
  rw [isError_of_isUnhandled (by simpa using hd)] at h
  cases h

/-- The warning that an attribute is deprecated. -/
def isDeprecation (d : Diagnostic) : Bool := d.kind == .deprecatedConstruct

theorem isError_of_isDeprecation {d : Diagnostic} (h : d.isDeprecation) : d.isError = false := by
  simp [isError, severity, beq_iff_eq.mp h, DiagnosticKind.severity]

/-- A finding of a rule: an error, or a warning about a deprecated attribute if there are such. -/
def Ruled (warnings : Bool) (d : Diagnostic) : Prop := d.isError ∨ warnings ∧ d.isDeprecation

theorem ruled_of_isError {d : Diagnostic} (h : d.isError) : d.Ruled w := .inl h

theorem Ruled.isUnhandled {d : Diagnostic} (h : d.Ruled w) : d.isUnhandled = false := by
  rcases h with h | ⟨-, h⟩
  · exact isUnhandled_of_isError h
  · simp [Diagnostic.isUnhandled, beq_iff_eq.mp h]

/-- Without such warnings all findings are errors. -/
theorem Ruled.isDeprecation {d : Diagnostic} (h : d.Ruled false) : d.isDeprecation = false := by
  rcases h with h | ⟨h, -⟩
  · by_contra hd
    rw [isError_of_isDeprecation (by simpa using hd)] at h
    cases h
  · cases h

end Diagnostic

@[simp] theorem Offer.isUnhandled_unhandled (node : Offer) : node.unhandled.isUnhandled := by
  cases node <;> rfl

/-- A step that reports no warning about an unhandled node. -/
def Step.Own (s : Step) : Prop := ∀ d, s = .report d → d.isUnhandled = false

/-- A step that reports nothing but findings of rules. -/
def Step.Ruled (warnings : Bool) (s : Step) : Prop := ∀ d, s = .report d → d.Ruled warnings

namespace Step

theorem own_report {d : Diagnostic} : (Step.report d).Own ↔ d.isUnhandled = false := by
  simp [Own]

theorem Ruled.own {s : Step} (h : s.Ruled w) : s.Own := fun d hd => (h d hd).isUnhandled

@[simp] theorem ruled_report {d : Diagnostic} : (Step.report d).Ruled w ↔ d.Ruled w := by
  simp [Ruled]

@[simp] theorem ruled_openUnit (u : UnitHeader) : (Step.openUnit u).Ruled w := by simp [Ruled]

@[simp] theorem ruled_closeUnit : Step.closeUnit.Ruled w := by simp [Ruled]

@[simp] theorem ruled_emit (id : Identifier) (data : Symbol.Data) : (Step.emit id data).Ruled w := by
  simp [Ruled]

@[simp] theorem ruled_refer (r : SymbolReference) : (Step.refer r).Ruled w := by simp [Ruled]

@[simp] theorem ruled_group (r : GroupReference) : (Step.group r).Ruled w := by simp [Ruled]

@[simp] theorem ruled_offer (node : Offer) (context : Context) :
    (Step.offer node context).Ruled w := by
  simp [Ruled]

@[simp] theorem ruled_halt (h : Halt) : (Step.halt h).Ruled w := by simp [Ruled]

end Step

namespace Element

variable (e : Element)

@[simp] theorem ruled_missingAttribute (name : String) :
    (e.missingAttribute name).Ruled w := .inl rfl

@[simp] theorem ruled_unexpectedElement (child : Element) :
    (e.unexpectedElement child).Ruled w := .inl rfl

@[simp] theorem ruled_mutuallyExclusive (first second : String) :
    (e.mutuallyExclusive first second).Ruled w := .inl rfl

@[simp] theorem ruled_illegalValueBecause (a : Attribute) (reason : String) :
    (e.illegalValueBecause a reason).Ruled w := .inl rfl

@[simp] theorem ruled_illegalEmpty (a : Attribute) :
    (e.illegalEmpty a).Ruled w := .inl rfl

@[simp] theorem ruled_expectedAttributes (names : List String) :
    (e.expectedAttributes names).Ruled w := .inl rfl

@[simp] theorem ruled_expectedAttributeOrElement (name child : String) :
    (e.expectedAttributeOrElement name child).Ruled w := .inl rfl

@[simp] theorem ruled_elementWithAttribute (child : Element) (name : String) :
    (e.elementWithAttribute child name).Ruled w := .inl rfl

end Element

/-! ### Checks -/

/-- A check with findings as those of rules. -/
def Check.Ruled (warnings : Bool) (check : String × Check) : Prop :=
  ∀ e a, ∀ d ∈ check.2 e a, d.Ruled warnings

/-- Checks with findings as those of rules. -/
def Check.AllRuled (warnings : Bool) (checks : List (String × Check)) : Prop :=
  ∀ check ∈ checks, Ruled warnings check

namespace Check

variable {checks checks' : List (String × Check)}

@[simp] theorem allRuled_nil : AllRuled w [] := by simp [AllRuled]

@[simp] theorem allRuled_cons {check : String × Check} :
    AllRuled w (check :: checks) ↔ Ruled w check ∧ AllRuled w checks := List.forall_mem_cons

@[simp] theorem allRuled_append :
    AllRuled w (checks ++ checks') ↔ AllRuled w checks ∧ AllRuled w checks' := List.forall_mem_append

@[simp] theorem allRuled_map {α : Type} {f : α → String × Check} {l : List α} :
    AllRuled w (l.map f) ↔ ∀ a ∈ l, Ruled w (f a) := List.forall_mem_map

@[simp] theorem allRuled_ite (p : Prop) [Decidable p] :
    AllRuled w (if p then checks else checks') ↔
      (p → AllRuled w checks) ∧ (¬ p → AllRuled w checks') := by
  split_ifs with h <;> simp [h]

end Check

/-- The findings of readers are errors. -/
theorem Reader.Of.ruled {α : Type} {f : Field α} {P : α → Prop} (h : f.read.Of P) :
    Check.Ruled w f.check := by
  intro e a d hd
  exact Diagnostic.ruled_of_isError (h.isError hd)

/-- A keyword or the like is of any domain. -/
theorem Reader.of_keyword {α : Type} (parse? : String → Option α)
    {finding : Element → Attribute → Diagnostic} (h : ∀ e a, (finding e a).isError) :
    (Reader.nonEmpty parse? finding).Of fun _ => True :=
  of_nonEmpty (fun _ => trivial) h

theorem Reader.of_anyText : (Reader.string .canBeEmpty).Of fun _ => True :=
  (of_string .canBeEmpty).mono fun _ _ => trivial

namespace Field

@[simp] theorem ruled_id : Check.Ruled w Field.id.check := of_id.ruled

variable (name : String)

@[simp] theorem ruled_reference : Check.Ruled w (reference name).check := (of_reference name).ruled

@[simp] theorem ruled_text : Check.Ruled w (text name).check := (of_text name).ruled

@[simp] theorem ruled_anyText : Check.Ruled w (anyText name).check :=
  Reader.Of.ruled (f := anyText name) Reader.of_anyText

@[simp] theorem ruled_yesNo : Check.Ruled w (yesNo name).check :=
  Reader.Of.ruled (f := yesNo name) (Reader.of_keyword _ fun _ _ => rfl)

@[simp] theorem ruled_choice (α : Type) [Choice α] : Check.Ruled w (choice α name).check :=
  Reader.Of.ruled (f := choice α name) (Reader.of_keyword _ fun _ _ => rfl)

@[simp] theorem ruled_long (lo hi : Int) : Check.Ruled w (long name lo hi).check :=
  (of_long name lo hi).ruled

@[simp] theorem ruled_integer (lo hi : Int32) : Check.Ruled w (integer name lo hi).check :=
  (of_integer name lo hi).ruled

@[simp] theorem ruled_version : Check.Ruled w (version name).check := (of_version name).ruled

@[simp] theorem ruled_guid : Check.Ruled w (guid name).check := (of_guid name).ruled

@[simp] theorem ruled_generatableGuid : Check.Ruled w (generatableGuid name).check :=
  (of_generatableGuid name).ruled

@[simp] theorem ruled_codePage : Check.Ruled w (codePage name).check := (of_codePage name).ruled

@[simp] theorem ruled_fileName : Check.Ruled w (fileName name).check := (of_fileName name).ruled

@[simp] theorem ruled_relativePath : Check.Ruled w (relativePath name).check :=
  (of_relativePath name).ruled

@[simp] theorem ruled_language : Check.Ruled w (language name).check := (of_language name).ruled

@[simp] theorem ruled_variableName : Check.Ruled w (check ⟨name, Reader.variableName⟩) := by
  refine Reader.Of.ruled (P := Identifier.IsName) ?_
  dsimp only
  exact Reader.of_variableName

@[simp] theorem ruled_target (target : Symbol.ActionTarget) :
    Check.Ruled w (check ⟨name, targetReader target⟩) := by
  cases target with
  | exe | value => exact ruled_anyText name
  | dll | jscript | vbscript => exact ruled_text name

end Field

namespace Compile

@[simp] theorem ruled_deprecatedCheck (config : Config) (name replacement : String) :
    Check.Ruled config.deprecationWarnings (deprecatedCheck config name replacement) := by
  intro e a d hd
  simp only [deprecatedCheck] at hd
  split_ifs at hd with hw
  · rw [List.mem_singleton.mp hd]
    exact .inr ⟨hw, rfl⟩
  · cases hd

@[simp] theorem ruled_providerCheck : Check.Ruled w providerCheck := by
  simp [Check.Ruled, providerCheck]

@[simp] theorem ruled_componentGuidCheck (env : Env) : Check.Ruled w (componentGuidCheck env) := by
  intro e a d hd
  simp only [componentGuidCheck] at hd
  rcases List.mem_append.mp hd with hd | hd
  · exact Diagnostic.ruled_of_isError (Reader.of_generatableGuid.isError hd)
  · split_ifs at hd
    · rw [List.mem_singleton.mp hd]
      exact .inl rfl
    · cases hd

theorem allRuled_packageChecks (config : Config) (kind : Symbol.PackageKind) :
    Check.AllRuled config.deprecationWarnings (commonChecks ++ kindChecks config kind) := by
  cases kind <;> simp [commonChecks, kindChecks, argumentChecks, sourceChecks, compressedCheck]

theorem ruled_checkAttribute (e : Element) {checks : List (String × Check)}
    (h : Check.AllRuled w checks) (a : Attribute) :
    ∀ d ∈ e.checkAttribute checks a, d.Ruled w := by
  intro d hd
  unfold Element.checkAttribute at hd
  split at hd
  · next check hc =>
    obtain ⟨l₁, l₂, hl, -⟩ := List.lookup_eq_some_iff.mp hc
    exact h (a.name, check) (by rw [hl]; simp) e a d hd
  · rw [List.mem_singleton.mp hd]
    exact .inl rfl

/-! ### Findings -/

/-- Findings as those of rules. -/
def Ruled (warnings : Bool) (ds : List Diagnostic) : Prop := ∀ d ∈ ds, d.Ruled warnings

@[simp] theorem ruled_nil : Ruled w [] := by simp [Ruled]

@[simp] theorem ruled_cons {d : Diagnostic} {ds : List Diagnostic} :
    Ruled w (d :: ds) ↔ d.Ruled w ∧ Ruled w ds := List.forall_mem_cons

@[simp] theorem ruled_append {ds ds' : List Diagnostic} :
    Ruled w (ds ++ ds') ↔ Ruled w ds ∧ Ruled w ds' := List.forall_mem_append

@[simp] theorem ruled_map {α : Type} {f : α → Diagnostic} {l : List α} :
    Ruled w (l.map f) ↔ ∀ a ∈ l, (f a).Ruled w := List.forall_mem_map

@[simp] theorem ruled_ite (p : Prop) [Decidable p] {ds ds' : List Diagnostic} :
    Ruled w (if p then ds else ds') ↔ (p → Ruled w ds) ∧ (¬ p → Ruled w ds') := by
  split_ifs with h <;> simp [h]

@[simp] theorem ruled_checkAttributes (e : Element) {checks : List (String × Check)}
    (h : Check.AllRuled w checks) : Ruled w (e.checkAttributes checks) := by
  intro d hd
  obtain ⟨a, -, hd⟩ := List.mem_flatMap.mp hd
  exact ruled_checkAttribute e h a d hd

@[simp] theorem ruled_missingAttributes (e : Element) (names : List String) :
    Ruled w (e.missingAttributes names) := by
  simp [Element.missingAttributes]

theorem ruled_variableFindings (e : Element) : Ruled w (variableFindings e) := by
  unfold variableFindings
  dsimp only
  rw [ruled_append]
  constructor
  · split
    · simp
    · split <;> simp
  · split
    · simp [Option.toList_map]
    · simp

theorem ruled_registryValueFindings (e : Element) (valueType : Symbol.RegistryValueType) :
    Ruled w (registryValueFindings e valueType) := by
  unfold registryValueFindings
  split <;> simp

theorem ruled_codeOf (e : Element) : Ruled w (codeOf e).1 := by
  unfold codeOf
  split <;> simp [Option.toList_map]

theorem ruled_customActionFindings (e : Element) (source target : Option String)
    (attributes : List Attribute) : Ruled w (customActionFindings e source target attributes) := by
  have hcheck : ∀ a, Ruled w (e.checkAttribute customActionChecks a) :=
    ruled_checkAttribute e (by simp [customActionChecks, scriptField])
  induction attributes generalizing source target with
  | nil => simp [customActionFindings]
  | cons a attributes ih =>
    unfold customActionFindings
    split_ifs
    · cases source <;> simp [hcheck, ih]
    · cases target <;> simp [hcheck, ih]
    · simp [hcheck, ih]

theorem ruled_scheduleFindings (kind : ActionKind) (e : Element) (action : String) :
    Ruled w (scheduleFindings kind e action) := by
  have hself : ∀ name, Ruled w (selfRelative e action name) := by
    intro name
    unfold selfRelative
    split
    · simp
    · simp
  unfold scheduleFindings
  simp only [ruled_ite, ruled_append, hself, and_true]
  refine ⟨fun _ => by simp, fun _ => ?_⟩
  split <;> simp

theorem ruled_detailsOf (e : Element) (entry : Option ArpEntry) (kind : Symbol.PackageKind) :
    Ruled w (detailsOf e entry kind).1 := by
  have hdetection : Ruled w (detectionOf e entry).1 := by
    unfold detectionOf
    split <;> simp
  cases kind with
  | exe => exact hdetection
  | _ => exact ruled_nil

theorem ruled_providerSteps (e : Element) (parent : Identifier) :
    ∀ s ∈ providerSteps e parent, s.Ruled w := by
  rw [providerSteps_eq_map, List.forall_mem_map]
  intro a _
  split_ifs <;> simp

theorem ruled_packageSteps (kind : Symbol.PackageKind) (e : Element) (p : PackagePayload)
    (entry : Option ArpEntry) : ∀ s ∈ packageSteps kind e p entry, s.Ruled w := by
  have h : Ruled w (detailsOf e entry kind).1 := ruled_detailsOf e entry kind
  simp only [packageSteps, List.forall_mem_append, List.forall_mem_map]
  exact ⟨fun d hd => Step.ruled_report.mpr (h d hd), by simp⟩

theorem ruled_actionSteps (kind : ActionKind) (e : Element) (table : Symbol.SequenceTable)
    (action : String) : ∀ s ∈ actionSteps kind e table action, s.Ruled w := by
  unfold actionSteps
  dsimp only
  split_ifs <;> simp [or_imp, forall_and]

/-! ### Rules -/

section Rules

theorem forall_ruled_iff {ds : List Diagnostic} : (∀ d ∈ ds, d.Ruled w) ↔ Ruled w ds := Iff.rfl

attribute [local simp] forall_ruled_iff

theorem ruled_requiredId (e : Element) : (requiredId e).All (Step.Ruled w) := by
  unfold requiredId
  split <;> simp

theorem ruled_containerId (e : Element) : (containerId e).All (Step.Ruled w) := by
  unfold containerId
  split <;> simp

@[simp] theorem ruled_missing (fields : PayloadFields) (e : Element) : Ruled w (fields.missing e) := by
  simp [PayloadFields.missing]

theorem ruled_resolve (fields : PayloadFields) (e : Element) (remoteAllowed : Bool) :
    (fields.resolve e remoteAllowed).All (Step.Ruled w) := by
  unfold PayloadFields.resolve
  dsimp only
  split_ifs <;> simp

theorem ruled_scanChildren (site : Site) (context : Context) :
    (scanChildren site context).All (Step.Ruled w) := by
  simp only [scanChildren, Logged.all_tell, List.forall_mem_map]
  intro c _
  split_ifs <;> simp

theorem ruled_packagePayload (kind : Symbol.PackageKind) (site : Site) :
    (packagePayload kind site).All (Step.Ruled w) := by
  unfold packagePayload
  dsimp only
  split
  · simp [readTypedPayload, PayloadForm.checks, sourceChecks, remoteChecks, sizeField, ruled_resolve,
      ruled_scanChildren]
  · simp

/-- The opening of an element and its close report nothing but findings of rules. -/
structure RuledOpening (warnings : Bool) (o : Planned Opening) : Prop where
  log : o.All (Step.Ruled warnings)
  close : ∀ body, o.value.body = some body → ∀ inner, ∀ s ∈ body.close inner, s.Ruled warnings

theorem ruledOpening_halt (scope : Scope) (reason : Halt) : RuledOpening w (halt scope reason) := by
  refine ⟨?_, ?_⟩ <;> simp [halt, Logged.All]

theorem ruledOpening_refuse (scope : Scope) (e e' : Element) :
    RuledOpening w (refuse scope (e.unexpectedElement e')) := by
  refine ⟨?_, ?_⟩ <;> simp

theorem ruledOpening_open (rule : Rule) (env : Env) (scope : Scope) (site : Site) :
    RuledOpening env.config.deprecationWarnings (rule.open env scope site) := by
  cases rule with
  | bundle | package =>
    refine ⟨?_, ?_⟩
    · simpa [Rule.open, openBundle, openPackage, installerVersionField] using
        ruled_providerSteps site.element _
    · simp [Rule.open, openBundle, openPackage, builtInProperty, or_imp, forall_and]
  | module | patch | fragment =>
    refine ⟨?_, ?_⟩ <;> simp [Rule.open, openModule, openPatch, openFragment]
  | bootstrapperApplication =>
    simp only [Rule.open, openBootstrapperApplication]
    split <;> refine ⟨?_, ?_⟩ <;> simp
  | log | update | relatedBundle =>
    refine ⟨?_, ?_⟩ <;> simp [Rule.open, openLog, openUpdate, openRelatedBundle]
  | variableValue =>
    refine ⟨?_, ?_⟩ <;> simp [Rule.open, openVariable, ruled_variableFindings]
  | chain | packageGroup | payloadGroup | container =>
    refine ⟨?_, ?_⟩ <;> simp [Rule.open, openChain, openPackageGroup, openPayloadGroup,
      openContainer, ruled_requiredId, ruled_containerId]
  | packageGroupRef | payloadGroupRef | rollbackBoundary | payload =>
    simp only [Rule.open, openPackageGroupRef, openPayloadGroupRef, openRollbackBoundary, openPayload]
    split
    · exact ruledOpening_halt scope _
    · refine ⟨?_, ?_⟩ <;> simp [PayloadForm.checks, sourceChecks, remoteChecks, sizeField,
        compressedCheck, ruled_resolve]
  | chainPackage kind =>
    have hchecks := ruled_checkAttributes site.element (allRuled_packageChecks env.config kind)
    simp only [Rule.open, openChainPackage]
    split
    · exact ruledOpening_halt scope _
    · refine ⟨?_, ?_⟩
      · simp [hchecks, ruled_packagePayload]
      · simpa using forall_mem_closePackage (ruled_packageSteps _ _ _) (by simp)
  | msiProperty | slipstreamMsp | exitCode | arpEntry =>
    simp only [Rule.open, openMsiProperty, openSlipstreamMsp, openExitCode, openArpEntry]
    split
    · refine ⟨?_, ?_⟩ <;> simp [exitCodeField]
    · exact ruledOpening_halt scope _
  | registryKey | registryValue =>
    simp only [Rule.open, openRegistryKey, openRegistryValue]
    split
    · exact ruledOpening_halt scope _
    · refine ⟨?_, ?_⟩ <;> simp [ruled_registryValueFindings]
  | component | property | patchProperty | sequence s =>
    refine ⟨?_, ?_⟩ <;> simp [Rule.open, openComponent, openProperty, openPatchProperty,
      openSequence, ruled_requiredId]
  | customAction =>
    have hcode : Ruled env.config.deprecationWarnings (codeOf site.element).1 := ruled_codeOf _
    simp only [Rule.open, openCustomAction]
    split <;> refine ⟨?_, ?_⟩ <;> simp [ruled_customActionFindings, ruled_requiredId, hcode]
  | action kind =>
    simp only [Rule.open, openAction]
    split
    · split_ifs
      · exact ruledOpening_refuse scope _ _
      · refine ⟨?_, ?_⟩
        · simp [actionChecks, sequenceField, ruled_scheduleFindings]
        · simpa using fun _ => ruled_actionSteps _ _ _ _
    · exact ruledOpening_refuse scope _ _

end Rules

/-! ### Plans -/

theorem ruled_of_refuse {content : Content} {seen : List String} {parent child : Element}
    {d : Diagnostic} (h : admissionOf content seen parent child = .refuse d) :
    d.Ruled w := by
  unfold admissionOf at h
  split at h
  · cases h; exact .inl rfl
  · cases h
  · split_ifs at h
    cases h
    exact .inl rfl
  · split_ifs at h
    cases h
    exact .inl rfl

/-- The steps of a plan report nothing but findings of rules. -/
theorem closed_ruled (config : Config) :
    Trail.Closed config fun _ _ _ _ l _ => ∀ s ∈ l, s.Ruled config.deprecationWarnings where
  nil := by simp
  append h h' := List.forall_mem_append.mpr ⟨h, h'⟩
  foreign _ _ := by simp
  refused h := by simpa using ruled_of_refuse h
  tooDeep := by simp
  left _ _ := (ruledOpening_open _ _ _ _).log
  entered _ hbody hinner := by
    have hclose := (ruledOpening_open _ _ _ _).close _ hbody
    refine List.forall_mem_append.mpr ⟨(ruledOpening_open _ _ _ _).log, ?_⟩
    exact List.forall_mem_append.mpr ⟨hinner, hclose _⟩

/-- **What rules report is an error**, or about a deprecated attribute. -/
theorem ruled_plan (config : Config) (root : Element) :
    ∀ s ∈ plan config root, s.Ruled config.deprecationWarnings := by
  unfold plan
  split_ifs
  · have hroot : (wrongRoot root).Ruled config.deprecationWarnings := .inl rfl
    simp [hroot]
  · simp only [Logged.log_bind, List.forall_mem_append]
    refine ⟨?_, ?_, (closed_ruled config).children _ _ _ _ _ _ _ _⟩
    · exact List.forall_mem_map.mpr fun d hd =>
        Step.ruled_report.mpr (ruled_checkAttributes root Check.allRuled_nil d hd)
    · simp [offerAttributes]

/-- **What rules report is never about an unhandled node.** -/
theorem own_plan (config : Config) (root : Element) : ∀ s ∈ plan config root, s.Own :=
  fun s hs => (ruled_plan config root s hs).own

end Compile

end Installer
