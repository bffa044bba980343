import Installer.Proofs.Dispatch
import Installer.Proofs.SourceRanges

/-! # The places of findings

What a rule reports about an element is at the element, at an element below it or at an attribute of
one of these (`Element.Marks`), and so are the notes that go with it (`Diagnostic.Within`). This is
shown for readers and checks, for each rule (`Compile.withinOpening_open`) and, by induction over the
document, for the steps of a plan (`Compile.within_plan`). Together with the ranges of elements in the
source this says that the places of all diagnostics can be shown (`Compiler.ranges_usable`). -/

namespace Installer

open Compile Planned Markup

/-! ### Places in elements -/

/-- The range of the element, of an element below it, or of an attribute of one of these. -/
inductive Element.Marks : Element → TextRange → Prop
  | own (e : Element) : Marks e e.range
  | key {e : Element} {a : Attribute} (h : a ∈ e.attributes) : Marks e a.range
  | child {e c : Element} {r : TextRange} (h : c ∈ e.children) (below : Marks c r) : Marks e r

/-- The diagnostic and its notes are at places in the element. -/
def Diagnostic.Within (e : Element) (d : Diagnostic) : Prop :=
  e.Marks d.range ∧ ∀ n ∈ d.related, e.Marks n.range

/-- The diagnostic is at the given place and has no notes. -/
def Diagnostic.At (r : TextRange) (d : Diagnostic) : Prop := d.range = r ∧ d.related = []

/-- The step reports nothing but diagnostics within the element, also if nothing handles what it
offers. -/
def Step.Within (e : Element) (s : Step) : Prop := ∀ d ∈ s.bare.report?, d.Within e

section Places

variable {e c : Element} {a : Attribute} {d : Diagnostic} {s : Step}

theorem Diagnostic.At.within {r : TextRange} (h : d.At r) (hr : e.Marks r) : d.Within e := by
  obtain ⟨hrange, hrelated⟩ := h
  exact ⟨hrange ▸ hr, by simp [hrelated]⟩

theorem Diagnostic.Within.child (h : d.Within c) (hc : c ∈ e.children) : d.Within e :=
  ⟨.child hc h.1, fun n hn => .child hc (h.2 n hn)⟩

theorem Step.Within.child (h : s.Within c) (hc : c ∈ e.children) : s.Within e :=
  fun d hd => (h d hd).child hc

theorem Element.mem_attributes_of_core (h : a ∈ e.coreAttributes) : a ∈ e.attributes :=
  List.mem_of_mem_filter h

theorem Element.mem_attributes_of_foreign (h : a ∈ e.foreignAttributes) : a ∈ e.attributes :=
  List.mem_of_mem_filter h

theorem Element.marks_of_attribute? {name : String} (h : e.attribute? name = some a) :
    e.Marks a.range :=
  .key (mem_attributes_of_core (List.mem_of_find?_eq_some h))

theorem Element.marks_of_last? {names : List String} (h : e.last? names = some a) :
    e.Marks a.range :=
  .key (mem_attributes_of_core (List.mem_of_mem_filter (List.mem_of_getLast? h)))

end Places

namespace Step

variable {e : Element}

@[simp] theorem within_report {d : Diagnostic} : (Step.report d).Within e ↔ d.Within e := by
  simp [Within, bare, report?]

@[simp] theorem within_offer {node : Offer} {context : Context} :
    (Step.offer node context).Within e ↔ node.unhandled.Within e := by
  simp [Within, bare, report?]

@[simp] theorem within_openUnit (u : UnitHeader) : (Step.openUnit u).Within e := by
  simp [Within, bare, report?]

@[simp] theorem within_closeUnit : Step.closeUnit.Within e := by simp [Within, bare, report?]

@[simp] theorem within_emit (id : Identifier) (data : Symbol.Data) :
    (Step.emit id data).Within e := by
  simp [Within, bare, report?]

@[simp] theorem within_refer (r : SymbolReference) : (Step.refer r).Within e := by
  simp [Within, bare, report?]

@[simp] theorem within_group (r : GroupReference) : (Step.group r).Within e := by
  simp [Within, bare, report?]

@[simp] theorem within_halt (h : Halt) : (Step.halt h).Within e := by
  simp [Within, bare, report?]

end Step

/-! ### Findings about elements -/

namespace Element

variable (e : Element)

@[simp] theorem within_missingAttribute (name : String) : (e.missingAttribute name).Within e :=
  ⟨.own e, nofun⟩

@[simp] theorem within_expectedAttributes (names : List String) :
    (e.expectedAttributes names).Within e :=
  ⟨.own e, nofun⟩

@[simp] theorem within_expectedAttributeOrElement (name child : String) :
    (e.expectedAttributeOrElement name child).Within e :=
  ⟨.own e, nofun⟩

/-- A finding about two attributes is at the second one, with a note at the first one. -/
@[simp] theorem within_mutuallyExclusive (first second : String) :
    (e.mutuallyExclusive first second).Within e := by
  constructor
  · change e.Marks (((e.attribute? second).map (·.range)).getD e.range)
    cases h : e.attribute? second with
    | none => exact .own e
    | some a => exact marks_of_attribute? h
  · intro n hn
    obtain ⟨a, ha, rfl⟩ := List.mem_map.mp hn
    exact marks_of_attribute? (Option.mem_toList.mp ha)

/-- A finding that a child is not expected is at the child. -/
@[simp] theorem within_unexpectedElement (child : Element) :
    (e.unexpectedElement child).Within child :=
  ⟨.own child, nofun⟩

@[simp] theorem within_elementWithAttribute (child : Element) (name : String) :
    (e.elementWithAttribute child name).Within child :=
  ⟨.own child, nofun⟩

@[simp] theorem within_unhandledElement (child : Element) :
    (e.unhandledElement child).Within child :=
  ⟨.own child, nofun⟩

/-- The first one of children that are too many is a child too. -/
theorem within_tooManyChildren {child : Element} (h : child ∈ e.children) :
    (e.tooManyChildren child).Within e := by
  refine ⟨.child h (.own child), fun n hn => ?_⟩
  obtain ⟨earlier, hearlier, rfl⟩ := List.mem_map.mp hn
  exact .child (List.mem_of_find?_eq_some (Option.mem_toList.mp hearlier)) (.own earlier)

end Element

/-! ### Readers and checks -/

/-- What the reader finds is at the attribute. -/
def Reader.Points {α : Type} (read : Reader α) : Prop :=
  ∀ e a, ∀ d ∈ (read e a).findings, d.At a.range

/-- What the check finds is at the attribute. -/
def Check.Points (check : String × Check) : Prop := ∀ e a, ∀ d ∈ check.2 e a, d.At a.range

namespace Reader

variable {α β : Type} {r : TextRange}

theorem at_accepted (v : Option α) : ∀ d ∈ (pure v : Planned (Option α)).findings, d.At r := by simp

theorem at_refused {d : Diagnostic} (h : d.At r) :
    ∀ d' ∈ (refuse d : Planned (Option α)).findings, d'.At r := by
  simpa using h

@[simp] theorem points_identifier : identifier.Points := by
  intro e a
  unfold identifier
  split
  · exact at_accepted _
  all_goals exact at_refused ⟨rfl, rfl⟩

@[simp] theorem points_reference : reference.Points := by
  intro e a
  unfold reference
  dsimp only
  split_ifs
  · exact at_refused ⟨rfl, rfl⟩
  · exact at_refused ⟨rfl, rfl⟩
  · exact at_accepted _

@[simp] theorem points_variableName : variableName.Points := by
  intro e a
  simp only [variableName, Logged.findings_bind, List.forall_mem_append]
  refine ⟨points_reference e a, ?_⟩
  split
  · exact at_accepted _
  · split_ifs
    · exact at_refused ⟨rfl, rfl⟩
    · exact at_accepted _

@[simp] theorem points_string (rule : EmptyRule) : (string rule).Points := by
  intro e a
  unfold string
  split_ifs
  · exact at_accepted _
  · exact at_refused ⟨rfl, rfl⟩

theorem points_nonEmpty (parse? : String → Option α)
    {finding : Element → Attribute → Diagnostic} (hfinding : ∀ e a, (finding e a).At a.range) :
    (nonEmpty parse? finding).Points := by
  intro e a
  unfold nonEmpty
  split_ifs
  · exact at_refused ⟨rfl, rfl⟩
  · split
    · exact at_accepted _
    · exact at_refused (hfinding e a)

@[simp] theorem points_choice (α : Type) [Choice α] : (choice α).Points :=
  points_nonEmpty _ fun _ _ => ⟨rfl, rfl⟩

@[simp] theorem points_yesNo : yesNo.Points := points_nonEmpty _ fun _ _ => ⟨rfl, rfl⟩

@[simp] theorem points_long (lo hi : Int) : (long lo hi).Points := by
  intro e a
  unfold long
  split_ifs
  · exact at_refused ⟨rfl, rfl⟩
  · split
    · exact at_refused ⟨rfl, rfl⟩
    · split_ifs
      · exact at_accepted _
      · exact at_refused ⟨rfl, rfl⟩

@[simp] theorem points_integer (lo hi : Int32) : (integer lo hi).Points := by
  intro e a
  simpa [integer] using points_long lo.toInt hi.toInt e a

theorem Points.map {read : Reader α} (h : read.Points) (f : α → β) : (read.map f).Points := by
  intro e a
  simpa [Reader.map] using h e a

@[simp] theorem points_ofClass (isMember : String → Bool) (reason : String) :
    (ofClass isMember reason).Points :=
  points_nonEmpty _ fun _ _ => ⟨rfl, rfl⟩

@[simp] theorem points_guid (generatable : Bool) : (guid generatable).Points :=
  points_nonEmpty _ fun _ _ => ⟨rfl, rfl⟩

@[simp] theorem points_codePage : codePage.Points := points_nonEmpty _ fun _ _ => ⟨rfl, rfl⟩

end Reader

@[simp] theorem Field.points_check {α : Type} (f : Field α) : Check.Points f.check ↔ f.read.Points :=
  Iff.rfl

namespace Compile

@[simp] theorem points_targetReader (target : Symbol.ActionTarget) : (targetReader target).Points := by
  unfold targetReader
  split <;> simp

@[simp] theorem points_deprecatedCheck (config : Config) (name replacement : String) :
    Check.Points (deprecatedCheck config name replacement) := by
  intro e a d hd
  simp only [deprecatedCheck] at hd
  split_ifs at hd
  · rw [List.mem_singleton.mp hd]
    exact ⟨rfl, rfl⟩
  · cases hd

@[simp] theorem points_providerCheck : Check.Points providerCheck := by
  simp [Check.Points, providerCheck]

@[simp] theorem points_componentGuidCheck (env : Env) : Check.Points (componentGuidCheck env) := by
  intro e a d hd
  simp only [componentGuidCheck] at hd
  rcases List.mem_append.mp hd with hd | hd
  · exact Reader.points_guid true e a d hd
  · split_ifs at hd
    · rw [List.mem_singleton.mp hd]
      exact ⟨rfl, rfl⟩
    · cases hd

theorem within_checkAttribute {e : Element} {checks : List (String × Check)}
    (h : ∀ check ∈ checks, Check.Points check) {a : Attribute} (ha : a ∈ e.coreAttributes) :
    (e.checkAttribute checks a).Forall (Diagnostic.Within e) := by
  rw [List.forall_iff_forall_mem]
  have hmarks : e.Marks a.range := .key (Element.mem_attributes_of_core ha)
  intro d hd
  unfold Element.checkAttribute at hd
  split at hd
  · next check hc =>
    obtain ⟨l₁, l₂, hl, -⟩ := List.lookup_eq_some_iff.mp hc
    exact (h (a.name, check) (by rw [hl]; simp) e a d hd).within hmarks
  · rw [List.mem_singleton.mp hd]
    exact ⟨hmarks, nofun⟩

@[simp] theorem within_checkAttributes (e : Element) {checks : List (String × Check)}
    (h : ∀ check ∈ checks, Check.Points check) :
    (e.checkAttributes checks).Forall (Diagnostic.Within e) := by
  rw [List.forall_iff_forall_mem]
  intro d hd
  obtain ⟨a, ha, hd⟩ := List.mem_flatMap.mp hd
  exact List.forall_iff_forall_mem.mp (within_checkAttribute h ha) d hd

/-! ### Findings of rules -/

theorem forall_ite {α : Type} {P : α → Prop} (p : Prop) [Decidable p] {l l' : List α} :
    (if p then l else l').Forall P ↔ (p → l.Forall P) ∧ (¬ p → l'.Forall P) := by
  split_ifs with h <;> simp [h]

section Rules

variable {e : Element}

@[simp] theorem within_missingAttributes (names : List String) :
    (e.missingAttributes names).Forall (Diagnostic.Within e) := by
  rw [Element.missingAttributes, List.forall_map_iff, List.forall_iff_forall_mem]
  exact fun name _ => e.within_missingAttribute name

attribute [local simp] forall_ite Field.id Field.reference Field.text Field.anyText Field.yesNo
  Field.choice Field.long Field.integer Reader.Points.map Field.version Field.guid
  Field.generatableGuid Field.codePage Field.fileName Field.relativePath Field.language Reader.version
  Reader.longFileName

theorem within_variableFindings : (variableFindings e).Forall (Diagnostic.Within e) := by
  unfold variableFindings
  dsimp only
  rw [List.forall_append]
  constructor
  · split
    · simp
    · split
      · next a ha =>
        exact ⟨Element.marks_of_attribute? ha, nofun⟩
      · simp
  · split
    · next a hv ha =>
      rw [Option.toList_map, List.forall_map_iff, List.forall_iff_forall_mem]
      exact fun _ _ => ⟨Element.marks_of_attribute? ha, nofun⟩
    · simp

theorem within_registryValueFindings (valueType : Symbol.RegistryValueType) :
    (registryValueFindings e valueType).Forall (Diagnostic.Within e) := by
  unfold registryValueFindings
  split
  · next a hv ha =>
    split_ifs
    · simp
    · exact ⟨Element.marks_of_attribute? ha, nofun⟩
  · simp

theorem within_codeOf : (codeOf e).1.Forall (Diagnostic.Within e) := by
  unfold codeOf
  split
  · simp
  · simp
  · rw [forall_ite]
    refine ⟨fun _ => ?_, fun _ => by simp⟩
    rw [Option.toList_map, List.forall_map_iff, List.forall_iff_forall_mem]
    exact fun a ha => ⟨Element.marks_of_attribute? (Option.mem_toList.mp ha), nofun⟩
  · simp
  · simp

theorem within_customActionFindings (source target : Option String) (attributes : List Attribute)
    (hattributes : ∀ a ∈ attributes, a ∈ e.coreAttributes) :
    (customActionFindings e source target attributes).Forall (Diagnostic.Within e) := by
  -- What was found as source and target so far changes from attribute to attribute.
  have hchecks : ∀ check ∈ customActionChecks, Check.Points check := by
    simp [customActionChecks, scriptField, targetAttributes]
  induction attributes generalizing source target with
  | nil => simp [customActionFindings]
  | cons a attributes ih =>
    obtain ⟨ha, hattributes⟩ := List.forall_mem_cons.mp hattributes
    have hcheck := within_checkAttribute hchecks ha
    have ih := fun source target => ih source target hattributes
    unfold customActionFindings
    split_ifs
    · cases source <;> simp [hcheck, ih]
    · cases target <;> simp [hcheck, ih]
    · simp [hcheck, ih]

theorem within_scheduleFindings (kind : ActionKind) (action : String) :
    (scheduleFindings kind e action).Forall (Diagnostic.Within e) := by
  have hself : ∀ name, (selfRelative e action name).Forall (Diagnostic.Within e) := by
    intro name
    unfold selfRelative
    split
    · simp
    · next a ha =>
      split_ifs
      · exact ⟨Element.marks_of_last? ha, nofun⟩
      · simp
  unfold scheduleFindings
  simp only [forall_ite, List.forall_append, hself, and_true]
  refine ⟨fun _ => ?_, fun _ => ?_⟩
  · rw [List.forall_map_iff, List.forall_iff_forall_mem]
    exact fun _ _ => e.within_mutuallyExclusive _ _
  · split <;> simp

theorem within_detailsOf (entry : Option ArpEntry) (kind : Symbol.PackageKind) :
    (detailsOf e entry kind).1.Forall (Diagnostic.Within e) := by
  have hdetection : (detectionOf e entry).1.Forall (Diagnostic.Within e) := by
    unfold detectionOf
    split <;> simp
  cases kind with
  | exe => exact hdetection
  | _ => exact trivial

theorem within_providerSteps (parent : Identifier) : ∀ s ∈ providerSteps e parent, s.Within e := by
  rw [providerSteps_eq_map, List.forall_mem_map]
  intro a ha
  have hmarks : e.Marks a.range :=
    .key (Element.mem_attributes_of_core (List.mem_of_mem_filter ha))
  split_ifs
  · simp
  · exact Step.within_report.mpr (Diagnostic.At.within ⟨rfl, rfl⟩ hmarks)

theorem within_packageSteps (kind : Symbol.PackageKind) (p : PackagePayload)
    (entry : Option ArpEntry) : ∀ s ∈ packageSteps kind e p entry, s.Within e := by
  have h := List.forall_iff_forall_mem.mp (within_detailsOf (e := e) entry kind)
  simp only [packageSteps, List.forall_mem_append, List.forall_mem_map]
  exact ⟨fun d hd => Step.within_report.mpr (h d hd), by simp⟩

theorem within_actionSteps (kind : ActionKind) (table : Symbol.SequenceTable) (action : String) :
    ∀ s ∈ actionSteps kind e table action, s.Within e := by
  unfold actionSteps
  dsimp only
  split_ifs <;> simp [or_imp, forall_and]

/-! ### Rules -/

theorem forall_within_iff {ds : List Diagnostic} :
    (∀ d ∈ ds, d.Within e) ↔ ds.Forall (Diagnostic.Within e) :=
  List.forall_iff_forall_mem.symm

/-- What is said about a foreign attribute that nothing handles is at the attribute. -/
theorem within_foreign {site : Site} {a : Attribute} (ha : a ∈ site.element.foreignAttributes) :
    (Offer.ofAttribute site a).unhandled.Within site.element :=
  ⟨.key (Element.mem_attributes_of_foreign ha), nofun⟩

theorem forall_within_foreign {site : Site} : (∀ a ∈ site.element.foreignAttributes,
    (Offer.ofAttribute site a).unhandled.Within site.element) ↔ True :=
  iff_true_intro fun _ => within_foreign

attribute [local simp] forall_within_iff forall_within_foreign

theorem within_requiredId : (requiredId e).All (Step.Within e) := by
  unfold requiredId
  split <;> simp

theorem within_containerId : (containerId e).All (Step.Within e) := by
  unfold containerId
  split <;> simp

@[simp] theorem within_missing (fields : PayloadFields) :
    (fields.missing e).Forall (Diagnostic.Within e) := by
  rw [PayloadFields.missing, List.forall_map_iff, List.forall_iff_forall_mem]
  exact fun name _ => e.within_missingAttribute name

theorem within_resolve (fields : PayloadFields) (remoteAllowed : Bool) :
    (fields.resolve e remoteAllowed).All (Step.Within e) := by
  unfold PayloadFields.resolve
  dsimp only
  split_ifs <;> simp

theorem within_scanChildren (site : Site) (context : Context) :
    (scanChildren site context).All (Step.Within site.element) := by
  simp only [scanChildren, Logged.all_tell, List.forall_mem_map]
  intro c hc
  have hchild : c.1 ∈ site.element.children := List.fst_mem_of_mem_zipIdx hc
  split_ifs
  · exact Step.within_report.mpr ((site.element.within_unexpectedElement c.1).child hchild)
  · exact Step.within_offer.mpr ((site.element.within_unhandledElement c.1).child hchild)

theorem points_payloadChecks (form : PayloadForm) : ∀ check ∈ form.checks, Check.Points check := by
  cases form with
  | own | inline =>
    simp [PayloadForm.checks, sourceChecks, remoteChecks, sizeField, compressedCheck]
  | typed kind => cases kind <;>
    simp [PayloadForm.checks, allowsRemote, sourceChecks, remoteChecks, sizeField]

theorem within_readTypedPayload (kind : Symbol.PackageKind) (package : Element)
    (inline : PayloadFields) (site : Site) :
    (readTypedPayload kind package inline site).All (Step.Within site.element) := by
  simpa [readTypedPayload, within_resolve, within_scanChildren] using
    within_checkAttributes site.element (points_payloadChecks (.typed kind))

theorem within_packagePayload (kind : Symbol.PackageKind) (site : Site) :
    (packagePayload kind site).All (Step.Within site.element) := by
  unfold packagePayload
  dsimp only
  split
  · next c position hc =>
    have hchild : c ∈ site.element.children :=
      List.fst_mem_of_mem_zipIdx (List.mem_of_find?_eq_some hc)
    have hread := within_readTypedPayload kind site.element (site.element.payloadFields .inline)
      (site.child position c)
    simp only [PayloadFields.gather_eq, Logged.pure_bind, Logged.all_bind, Logged.all_pure, and_true]
    exact fun s hs => (hread s hs).child hchild
  · simp

theorem points_packageChecks (config : Config) (kind : Symbol.PackageKind) :
    ∀ check ∈ commonChecks ++ kindChecks config kind, Check.Points check := by
  cases kind <;> simp [commonChecks, kindChecks, argumentChecks, sourceChecks, compressedCheck]

theorem points_actionChecks (kind : ActionKind) : ∀ check ∈ actionChecks kind, Check.Points check := by
  cases kind <;> simp [actionChecks, sequenceField, ActionKind.nameAttribute?]

/-- The opening of an element and its close report nothing but findings within the element. -/
structure WithinOpening (e : Element) (o : Planned Opening) : Prop where
  log : o.All (Step.Within e)
  close : ∀ body, o.value.body = some body → ∀ inner, ∀ s ∈ body.close inner, s.Within e

theorem withinOpening_halt (scope : Scope) (reason : Halt) : WithinOpening e (halt scope reason) := by
  refine ⟨?_, ?_⟩ <;> simp [halt, Logged.All]

theorem withinOpening_refuse (scope : Scope) (parent : Element) :
    WithinOpening e (refuse scope (parent.unexpectedElement e)) := by
  refine ⟨?_, ?_⟩ <;> simp

/-- **What a rule reports** is within the element. -/
theorem withinOpening_open (rule : Rule) (env : Env) (scope : Scope) (site : Site) :
    WithinOpening site.element (rule.open env scope site) := by
  cases rule with
  | bundle | package =>
    refine ⟨?_, ?_⟩
    · simpa [Rule.open, openBundle, openPackage, installerVersionField] using
        within_providerSteps _
    · simp [Rule.open, openBundle, openPackage, builtInProperty, or_imp, forall_and]
  | module | patch | fragment =>
    refine ⟨?_, ?_⟩ <;> simp [Rule.open, openModule, openPatch, openFragment]
  | bootstrapperApplication =>
    simp only [Rule.open, openBootstrapperApplication]
    split <;> refine ⟨?_, ?_⟩ <;> simp
  | log | update | relatedBundle =>
    refine ⟨?_, ?_⟩ <;> simp [Rule.open, openLog, openUpdate, openRelatedBundle]
  | variableValue =>
    refine ⟨?_, ?_⟩ <;> simp [Rule.open, openVariable, within_variableFindings]
  | chain | packageGroup | payloadGroup | container =>
    refine ⟨?_, ?_⟩ <;> simp [Rule.open, openChain, openPackageGroup, openPayloadGroup,
      openContainer, within_requiredId, within_containerId]
  | packageGroupRef | payloadGroupRef | rollbackBoundary | payload =>
    have hpayload := within_checkAttributes site.element (points_payloadChecks .own)
    simp only [Rule.open, openPackageGroupRef, openPayloadGroupRef, openRollbackBoundary, openPayload]
    split
    · exact withinOpening_halt scope _
    · refine ⟨?_, ?_⟩ <;> simp [within_resolve, hpayload]
  | chainPackage kind =>
    have hchecks := within_checkAttributes site.element (points_packageChecks env.config kind)
    simp only [Rule.open, openChainPackage]
    split
    · exact withinOpening_halt scope _
    · refine ⟨?_, ?_⟩
      · simp [hchecks, within_packagePayload]
      · simpa using forall_mem_closePackage (within_packageSteps kind _) (by simp)
  | msiProperty | slipstreamMsp | exitCode | arpEntry =>
    simp only [Rule.open, openMsiProperty, openSlipstreamMsp, openExitCode, openArpEntry]
    split
    · refine ⟨?_, ?_⟩ <;> simp [exitCodeField]
    · exact withinOpening_halt scope _
  | registryKey | registryValue =>
    simp only [Rule.open, openRegistryKey, openRegistryValue]
    split
    · exact withinOpening_halt scope _
    · refine ⟨?_, ?_⟩ <;> simp [within_registryValueFindings]
  | component | property | patchProperty | sequence s =>
    refine ⟨?_, ?_⟩ <;> simp [Rule.open, openComponent, openProperty, openPatchProperty,
      openSequence, within_requiredId]
  | customAction =>
    have hfindings := within_customActionFindings none none site.element.coreAttributes fun _ h => h
    simp only [Rule.open, openCustomAction]
    split <;> refine ⟨?_, ?_⟩ <;> simp [hfindings, within_requiredId, within_codeOf]
  | action kind =>
    have hchecks := within_checkAttributes site.element (points_actionChecks kind)
    simp only [Rule.open, openAction]
    split
    · split_ifs
      · exact withinOpening_refuse scope _
      · refine ⟨?_, ?_⟩
        · simp [hchecks, within_scheduleFindings]
        · simpa using fun _ => within_actionSteps _ _ _
    · exact withinOpening_refuse scope _

end Rules

/-! ### Plans -/

theorem within_of_refuse {content : Content} {seen : List String} {parent child : Element}
    {d : Diagnostic} (h : admissionOf content seen parent child = .refuse d)
    (hchild : child ∈ parent.children) : d.Within parent := by
  unfold admissionOf at h
  split at h
  · cases h
    exact (parent.within_unexpectedElement child).child hchild
  · cases h
  · split_ifs at h
    cases h
    exact parent.within_tooManyChildren hchild
  · split_ifs at h
    cases h
    exact parent.within_tooManyChildren hchild

/-- The steps for an element report nothing but findings within it. -/
def PlannedWithin (config : Config) (e : Element) : Prop :=
  ∀ unit depth rule scope position ancestors,
    (planElement config unit depth rule scope position ancestors e).All (Step.Within e)

theorem within_planChildren {config : Config} (unit : Option SectionKind) (depth : Nat)
    (content : Content) (site : Site) {children : List Element}
    (hchildren : ∀ child ∈ children, child ∈ site.element.children)
    (h : ∀ child ∈ children, PlannedWithin config child) :
    ∀ (scope : Scope) (position : Nat) (seen : List String),
      (planChildren config unit depth content site scope position seen children).All
        (Step.Within site.element) := by
  induction children with
  | nil =>
    intro scope position seen
    rw [planChildren]
    simp
  | cons child rest ih =>
    intro scope position seen
    obtain ⟨hchild, hrest⟩ := List.forall_mem_cons.mp hchildren
    obtain ⟨hplanned, hothers⟩ := List.forall_mem_cons.mp h
    have ih := ih hrest hothers
    -- A foreign child is offered to extensions, which say nothing here; a core child is passed over,
    -- refused, too deep or planned.
    rw [planChildren]
    by_cases hcore : child.isCore
    · simp only [hcore, Bool.not_true, Bool.false_eq_true, ↓reduceIte]
      split
      · exact ih _ _ _
      · next d hd =>
        rw [Logged.all_bind, all_report]
        exact ⟨by simpa using within_of_refuse hd hchild, ih _ _ _⟩
      · split_ifs
        · simp [Logged.All]
        · rw [Logged.all_bind]
          exact ⟨fun s hs => (hplanned _ _ _ _ _ _ s hs).child hchild, ih _ _ _⟩
    · simp only [hcore, Bool.not_false, ↓reduceIte]
      rw [Logged.all_bind, Logged.all_tell]
      refine ⟨List.forall_mem_singleton.mpr (Step.within_offer.mpr ?_), ih _ _ _⟩
      exact (site.element.within_unhandledElement child).child hchild

theorem plannedWithin (config : Config) (e : Element) : PlannedWithin config e := by
  induction e using Element.induct with
  | node tag children ih =>
    intro unit depth rule scope position ancestors
    have hopen := withinOpening_open rule ⟨config, unit⟩ scope ⟨.node tag children, position, ancestors⟩
    cases hbody : (rule.open ⟨config, unit⟩ scope
        ⟨.node tag children, position, ancestors⟩).value.body with
    | none =>
      rw [planElement_of_none hbody]
      exact hopen.log
    | some body =>
      rw [planElement_of_some hbody]
      have hinner := within_planChildren (body.unit.or unit) depth body.content
        ⟨.node tag children, position, ancestors⟩ (fun _ h => h) ih body.scope 0 []
      exact List.forall_mem_append.mpr
        ⟨hopen.log, List.forall_mem_append.mpr ⟨hinner, hopen.close body hbody _⟩⟩

/-- **What a plan reports** is within the document. -/
theorem within_plan (config : Config) (root : Element) : ∀ s ∈ plan config root, s.Within root := by
  unfold plan
  split_ifs
  · have hroot : (wrongRoot root).Within root := ⟨.own root, nofun⟩
    simpa using hroot
  · have hchildren := within_planChildren none 0 .document (Site.root root) (fun _ h => h)
      (fun child _ => plannedWithin config child) {} 0 []
    have hattributes : (report (root.checkAttributes [])).All (Step.Within root) := by
      simp [forall_within_iff]
    have hoffer : (offerAttributes (Site.root root) []).All (Step.Within root) := by
      rw [all_offerAttributes]
      exact fun a ha => Step.within_offer.mpr (within_foreign ha)
    simp only [Logged.log_bind, List.forall_mem_append]
    exact ⟨hattributes, hoffer, hchildren⟩

end Compile

/-! ### Compiles -/

theorem Element.exists_sitesAt_subset {e : Element} {es : List Element} (h : e ∈ es) (position : Nat)
    (ancestors : List Element) :
    ∃ i, e.sitesAt i ancestors ⊆ sitesOfList position ancestors es := by
  induction es generalizing position with
  | nil => cases h
  | cons e' es ih =>
    rw [sitesOfList]
    rcases List.mem_cons.mp h with rfl | h
    · exact ⟨position, List.subset_append_left _ _⟩
    · obtain ⟨i, hi⟩ := ih h (position + 1)
      exact ⟨i, List.Subset.trans hi (List.subset_append_right _ _)⟩

/-- The range is one of an element of the document, or of an attribute of one. -/
def Element.HasRange (root : Element) (r : TextRange) : Prop :=
  ∃ s ∈ root.sites, r = s.element.range ∨ ∃ a ∈ s.element.attributes, r = a.range

theorem Element.Marks.exists_site {e : Element} {r : TextRange} (h : e.Marks r)
    (position : Nat) (ancestors : List Element) : ∃ s ∈ e.sitesAt position ancestors,
      r = s.element.range ∨ ∃ a ∈ s.element.attributes, r = a.range := by
  induction h generalizing position ancestors with
  | own e =>
    obtain ⟨tag, children⟩ := e
    exact ⟨_, List.mem_cons_self, .inl rfl⟩
  | @key e a ha =>
    obtain ⟨tag, children⟩ := e
    exact ⟨_, List.mem_cons_self, .inr ⟨a, ha, rfl⟩⟩
  | @child e c r hc _ ih =>
    -- The child has some position, which the place does not tell.
    obtain ⟨tag, children⟩ := e
    obtain ⟨i, hi⟩ := exists_sitesAt_subset hc 0 (.node tag children :: ancestors)
    obtain ⟨s, hs, hr⟩ := ih i (.node tag children :: ancestors)
    exact ⟨s, List.mem_cons_of_mem _ (hi hs), hr⟩

theorem Element.Marks.hasRange {root : Element} {r : TextRange} (h : root.Marks r) :
    root.HasRange r :=
  h.exists_site 0 []

/-- **The diagnostics of a compile** without extensions are within the document. -/
theorem Compiler.within_diagnostics {c : Compiler} (hc : c.extensions = []) {k : UInt32} {root : Element}
    {o : Output} (ho : (c.compileAs k root).result = .ok o) : ∀ d ∈ o.diagnostics, d.Within root := by
  unfold compileAs at ho
  rw [hc] at ho
  obtain ⟨hhalted, rfl⟩ := Run.result_eq_ok_iff.mp ho
  rw [Output.diagnostics_settle, Run.diagnostics_steps hhalted, List.nil_append]
  intro d hd
  obtain ⟨_, hbare, hreport⟩ := List.mem_filterMap.mp hd
  obtain ⟨s, hs, rfl⟩ := List.mem_map.mp hbare
  exact within_plan c.config root s hs d hreport

/-- **Ranges can be used.** In a document that is read from a text with less than `2 ^ 32` bytes and without
a byte order mark, the range of each element covers its tag, and the ranges of its attributes cover
their keys inside of the tag, one behind the other; the ranges of elements follow one another in the
order of the document, and none is behind the end of the text. What a compile without extensions reports
has ranges of elements and attributes only, notes included. -/
theorem Compiler.ranges_usable {source : String} {root : Element}
    (hsize : source.utf8ByteSize < 2 ^ 32) (hmark : source.toList.head? ≠ some byteOrderMark)
    (h : Element.parse source = .ok root) :
    (∀ s ∈ root.sites, s.element.RangesIn source.toList ∧
      s.element.range.stop.toNat ≤ source.utf8ByteSize) ∧
    (root.sites.Pairwise fun s s' => s.element.range.stop ≤ s'.element.range.start) ∧
    ∀ c : Compiler, c.extensions = [] → ∀ k o, (c.compileAs k root).result = .ok o →
      ∀ d ∈ o.diagnostics, root.HasRange d.range ∧ ∀ n ∈ d.related, root.HasRange n.range := by
  refine ⟨fun s hs => ?_, Element.pairwise_sites h hsize, fun c hc k o ho d hd => ?_⟩
  · have hranges := Element.rangesIn_of_parse h hsize hs
    rw [unmarked, if_neg hmark] at hranges
    obtain ⟨t, piece, -, -, hcovers, -⟩ := hranges.covers
    refine ⟨hranges, ?_⟩
    rw [Text.utf8ByteSize_eq]
    exact hcovers.stop_le
  · obtain ⟨hrange, hrelated⟩ := within_diagnostics hc ho d hd
    exact ⟨hrange.hasRange, fun n hn => (hrelated n hn).hasRange⟩

/-- Two attributes that exclude one another, behind characters of two bytes. -/
theorem Compiler.ranges_usable_exclusive :
    let source := "<Wix xmlns='http://wixtoolset.org/schemas/v4/wxs'>ü<Fragment>" ++
      "<InstallExecuteSequence><Custom Action='ä' Before='B' After='C'/>" ++
      "</InstallExecuteSequence></Fragment></Wix>"
    source.utf8ByteSize < 2 ^ 32 ∧ source.toList.head? ≠ some byteOrderMark ∧
      ∃ root, Element.parse source = .ok root ∧
      (∀ s ∈ root.sites, s.element.RangesIn source.toList) ∧
      ∃ o, (compileAs {} 0 root).result = .ok o ∧ ∃ d ∈ o.diagnostics, ∃ n ∈ d.related,
        d.range = ⟨117, 122⟩ ∧ n.range = ⟨106, 112⟩ ∧ root.HasRange d.range ∧
        root.HasRange n.range := by
  intro source
  have hsize : source.utf8ByteSize < 2 ^ 32 := by decide +kernel
  have hmark : source.toList.head? ≠ some byteOrderMark := by decide +kernel
  have hread : ((Element.parse source).toOption.map fun root =>
      (compileAs {} 0 root).result.toOption.map fun o =>
        o.diagnostics.any fun d => d.related.any fun n => d.range = ⟨117, 122⟩ ∧ n.range = ⟨106, 112⟩) =
      some (some true) := by
    decide +kernel
  obtain ⟨root, hroot, heval⟩ := Option.map_eq_some_iff.mp hread
  obtain ⟨o, ho, hany⟩ := Option.map_eq_some_iff.mp heval
  obtain ⟨d, hd, hany⟩ := List.any_eq_true.mp hany
  obtain ⟨n, hn, hat⟩ := List.any_eq_true.mp hany
  have hparse := toOption_eq_some_iff.mp hroot
  have hresult := toOption_eq_some_iff.mp ho
  obtain ⟨hranges, -, hfindings⟩ := ranges_usable hsize hmark hparse
  obtain ⟨hrange, hrelated⟩ := hfindings {} rfl 0 o hresult d hd
  obtain ⟨hdiagnostic, hnote⟩ := of_decide_eq_true hat
  exact ⟨hsize, hmark, root, hparse, fun s hs => (hranges s hs).1, o, hresult, d, hd, n, hn, hdiagnostic,
    hnote, hrange, hrelated n hn⟩

end Installer
