import Installer.Proofs.Locality
import Installer.Proofs.Surroundings

/-! # Elements that agree

Rules look at an element through its name, its place, its text and its core attributes. So the values
and the findings for elements that agree in these (`Element.Agrees`) are the same, and elements with one
tag (`Element.SameTag`) are opened in the same way, whatever is below and around them
(`Compile.bare_open_of_tag`); only a
package looks at its children too. Two elements may also agree on some of their attributes alone
(`Element.AgreesOn`), and then the fields with these names have the same values. -/

namespace Installer

open Compile Planned

namespace Element

/-- The elements have the same name, place and text, and the same core attributes among those whose
names satisfy `p`. -/
structure AgreesOn (p : String → Bool) (e e' : Element) : Prop where
  qname : e.qname = e'.qname
  range : e.range = e'.range
  text : e.text = e'.text
  attributes : e.coreAttributes.filter (p ·.name) = e'.coreAttributes.filter (p ·.name)

/-- The elements have the same name, place, text and core attributes. -/
abbrev Agrees (e e' : Element) : Prop := AgreesOn (fun _ => true) e e'

namespace AgreesOn

variable {p : String → Bool} {e e' : Element} (h : e.AgreesOn p e')
include h

theorem name : e.name = e'.name := congrArg QName.name h.qname

theorem isCore : e.isCore = e'.isCore :=
  congrArg (fun q : QName => q.space == some coreNamespace) h.qname

/-! ### Values -/

theorem filter_eq {q : String → Bool} (hq : ∀ name, q name → p name) :
    e.coreAttributes.filter (q ·.name) = e'.coreAttributes.filter (q ·.name) := by
  have hfilter : ∀ l : List Attribute,
      l.filter (q ·.name) = (l.filter (p ·.name)).filter (q ·.name) := by
    intro l
    rw [List.filter_filter]
    refine List.filter_congr fun a _ => ?_
    cases hqa : q a.name <;> simp [hq, hqa]
  rw [hfilter, h.attributes, ← hfilter]

theorem last?_eq {names : List String} (hp : ∀ name ∈ names, p name) :
    e.last? names = e'.last? names := by
  rw [last?, last?, h.filter_eq (q := names.contains) fun name hname => hp name (by simpa using hname)]

theorem attribute?_eq {name : String} (hp : p name) : e.attribute? name = e'.attribute? name := by
  rw [attribute?, attribute?, ← List.head?_filter, ← List.head?_filter,
    h.filter_eq (q := (· == name)) fun n hn => by rwa [beq_iff_eq.mp hn]]

theorem has_eq {name : String} (hp : p name) : e.has name = e'.has name := by
  rw [has, has, h.attribute?_eq hp]

theorem value?_eq {α : Type} (f : Field α) [Reader.Local f.read] (hp : p f.name) :
    e.value? f = e'.value? f := by
  rw [value?, value?, h.last?_eq (by simpa using hp)]
  simp only [Reader.Local.name h.name]

theorem identifier?_eq (f : Field Identifier) [Reader.Local f.read] (hp : p f.name) :
    e.identifier? f = e'.identifier? f := by
  rw [identifier?, identifier?, h.last?_eq (by simpa using hp)]
  simp only [Reader.value_orInvalid, Reader.Local.name h.name]

theorem valueIn?_eq {α : Type} (f : Field α) [Reader.Local f.read] {names : List String}
    (hp : f.name ∈ names → p f.name) : e.valueIn? names f = e'.valueIn? names f := by
  by_cases hf : f.name ∈ names
  · rw [Element.valueIn?_eq hf, Element.valueIn?_eq hf, h.value?_eq f (hp hf)]
  · rw [valueIn?_eq_none hf, valueIn?_eq_none hf]

/-- The same is gathered about payloads. -/
theorem payloadFields_eq (form : PayloadForm) (hp : ∀ name ∈ form.names, p name) :
    e.payloadFields form = e'.payloadFields form := by
  have hid : (if form.names.contains "Id" then e.identifier? .id else none) =
      if form.names.contains "Id" then e'.identifier? .id else none := by
    split_ifs with hmem
    · exact h.identifier?_eq .id (hp _ (List.contains_iff_mem.mp hmem))
    · rfl
  have hseen := h.filter_eq (q := form.names.contains) fun name hname =>
    hp name (List.contains_iff_mem.mp hname)
  have hvalue : ∀ {α : Type} (f : Field α) [Reader.Local f.read],
      e.valueIn? form.names f = e'.valueIn? form.names f :=
    fun f _ => h.valueIn?_eq f (hp f.name)
  simp only [payloadFields, hid, hseen, hvalue]

/-! ### Findings -/

theorem qualify_eq : e.qualify = e'.qualify := by
  funext name
  rw [qualify, qualify, h.name]

theorem qualifyChild_eq : e.qualifyChild = e'.qualifyChild := by
  funext child
  rw [qualifyChild, qualifyChild, h.name]

theorem missingAttribute_eq : e.missingAttribute = e'.missingAttribute := by
  funext name
  simp only [missingAttribute, h.range, h.qualify_eq, h.name]

theorem missingAttributes_eq {names : List String} (hp : ∀ name ∈ names, p name) :
    e.missingAttributes names = e'.missingAttributes names := by
  rw [missingAttributes, missingAttributes, h.missingAttribute_eq,
    List.filter_congr fun name hname => by rw [h.has_eq (hp name hname)]]

theorem unexpectedElement_eq : e.unexpectedElement = e'.unexpectedElement := by
  funext child
  simp only [unexpectedElement, h.qualifyChild_eq, h.name]

theorem illegalValueBecause_eq : e.illegalValueBecause = e'.illegalValueBecause := by
  funext a reason
  simp only [illegalValueBecause, h.qualify_eq, h.name]

theorem illegalEmpty_eq : e.illegalEmpty = e'.illegalEmpty := by
  funext a
  simp only [illegalEmpty, h.qualify_eq, h.name]

theorem mutuallyExclusive_eq {first second : String} (hfirst : p first) (hsecond : p second) :
    e.mutuallyExclusive first second = e'.mutuallyExclusive first second := by
  simp only [mutuallyExclusive, h.attribute?_eq hfirst, h.attribute?_eq hsecond, h.range,
    h.qualify_eq, h.name]

theorem expectedAttributes_eq : e.expectedAttributes = e'.expectedAttributes := by
  funext names
  simp only [expectedAttributes, h.range, h.name]

theorem expectedAttributeOrElement_eq :
    e.expectedAttributeOrElement = e'.expectedAttributeOrElement := by
  funext name child
  simp only [expectedAttributeOrElement, h.range, h.qualify_eq, h.name]

theorem unhandledAttribute_eq : e.unhandledAttribute = e'.unhandledAttribute := by
  funext a
  simp only [unhandledAttribute, h.name]

theorem checkAttribute_eq (checks : List (String × Check)) [Check.AllLocal checks] :
    e.checkAttribute checks = e'.checkAttribute checks := by
  funext a
  unfold checkAttribute
  cases hc : checks.lookup a.name with
  | none => simp only [unexpectedAttribute, h.qualify_eq, h.name]
  | some check => exact (Check.local_of_lookup hc).name h.name a

end AgreesOn

theorem Agrees.coreAttributes {e e' : Element} (h : e.Agrees e') :
    e.coreAttributes = e'.coreAttributes := by
  have hall : ∀ l : List Attribute, l.filter (fun _ => true) = l :=
    fun l => List.filter_eq_self.mpr fun _ _ => rfl
  rw [← hall e.coreAttributes, h.attributes, hall]

theorem Agrees.checkAttributes_eq {e e' : Element} (h : e.Agrees e') (checks : List (String × Check))
    [Check.AllLocal checks] : e.checkAttributes checks = e'.checkAttributes checks := by
  rw [checkAttributes, checkAttributes, h.coreAttributes, h.checkAttribute_eq]

theorem Agrees.mutuallyExclusive {e e' : Element} (h : e.Agrees e') :
    e.mutuallyExclusive = e'.mutuallyExclusive := by
  funext first second
  exact h.mutuallyExclusive_eq rfl rfl

/-- The elements have the same tag, but for its number. -/
structure SameTag (e e' : Element) : Prop where
  qname : e.qname = e'.qname
  range : e.range = e'.range
  text : e.text = e'.text
  attributes : e.attributes = e'.attributes

theorem SameTag.agrees {e e' : Element} (h : e.SameTag e') : e.Agrees e' :=
  ⟨h.qname, h.range, h.text, by rw [coreAttributes, coreAttributes, h.attributes]⟩

theorem SameTag.foreignAttributes {e e' : Element} (h : e.SameTag e') :
    e.foreignAttributes = e'.foreignAttributes := by
  rw [Element.foreignAttributes, Element.foreignAttributes, h.attributes]

end Element

/-! ### What rules make of attributes -/

namespace Compile

section Agrees
variable {e e' : Element} (h : e.Agrees e')
include h

theorem resolve_eq (fields : PayloadFields) : fields.resolve e = fields.resolve e' := by
  funext remoteAllowed
  simp [PayloadFields.resolve, PayloadFields.missing, h.missingAttribute_eq, h.mutuallyExclusive]

theorem requiredId_eq : requiredId e = requiredId e' := by
  simp [requiredId, h.identifier?_eq, h.missingAttribute_eq]

theorem containerId_eq : containerId e = containerId e' := by
  simp [containerId, h.identifier?_eq, h.value?_eq, h.has_eq, h.expectedAttributes_eq]

theorem providerSteps_eq : providerSteps e = providerSteps e' := by
  funext parent
  simp [providerSteps, h.coreAttributes, Reader.Local.name h.name]

theorem variableFindings_eq : variableFindings e = variableFindings e' := by
  simp [variableFindings, h.value?_eq, h.attribute?_eq, h.missingAttribute_eq, h.illegalEmpty_eq,
    h.illegalValueBecause_eq]

theorem registryValueFindings_eq : registryValueFindings e = registryValueFindings e' := by
  funext valueType
  unfold registryValueFindings
  simp [h.value?_eq, h.attribute?_eq, h.illegalValueBecause_eq]

theorem customActionFindings_eq (source target : Option String) (attributes : List Attribute) :
    customActionFindings e source target attributes =
      customActionFindings e' source target attributes := by
  induction attributes generalizing source target with
  | nil => simp [customActionFindings]
  | cons a attributes ih =>
    simp [customActionFindings, ih, h.checkAttribute_eq, h.mutuallyExclusive]

theorem codeOf_eq_of_agrees : codeOf e = codeOf e' := by
  have hsource : sourceOf? e = sourceOf? e' := by rw [sourceOf?, sourceOf?, h.coreAttributes]
  have htarget : targetOf? e = targetOf? e' := by rw [targetOf?, targetOf?, h.coreAttributes]
  simp [codeOf, hsource, htarget, Reader.Local.name h.name, h.text, h.attribute?_eq,
    h.expectedAttributes_eq, h.mutuallyExclusive, h.illegalValueBecause_eq]

theorem scheduleFindings_eq (kind : ActionKind) :
    scheduleFindings kind e = scheduleFindings kind e' := by
  have hself : ∀ action name, selfRelative e action name = selfRelative e' action name := by
    intro action name
    simp [selfRelative, h.last?_eq, Reader.Local.name h.name, h.illegalValueBecause_eq]
  funext action
  simp [scheduleFindings, authoredScheduling, hself, h.coreAttributes, h.value?_eq,
    h.mutuallyExclusive, h.expectedAttributes_eq]

theorem actionSteps_eq_of_agrees (kind : ActionKind) : actionSteps kind e = actionSteps kind e' := by
  funext table action
  simp [actionSteps, sequenceNumber, h.value?_eq]

end Agrees

/-! ### Openings -/

section Sites
variable {s s' : Site} (h : s.element.SameTag s'.element)
include h

theorem bare_offerAttributes_eq (context : Context) :
    (offerAttributes s context).bare = (offerAttributes s' context).bare := by
  rw [bare_offerAttributes, bare_offerAttributes, h.foreignAttributes, h.agrees.unhandledAttribute_eq]

theorem bare_leaf_eq (id : Identifier) (close : List Step) :
    (leaf s id close).bare = (leaf s' id close).bare := by
  simp only [leaf, Logged.bare_bind, bare_offerAttributes_eq h, Logged.bare_pure]

/-- **Elements with the same tag are opened in the same way**, unless they are packages. Only a rollback
boundary looks at its position, and only an action names the element around it. -/
theorem bare_open_of_tag {rule : Rule} (hrule : ∀ kind, rule ≠ .chainPackage kind) (env : Env)
    (scope : Scope) (hposition : rule = .rollbackBoundary → s.position = s'.position)
    (hparent : s.parent.name = s'.parent.name) :
    (rule.open env scope s).bare = (rule.open env scope s').bare := by
  have ha := h.agrees
  have hoffer := bare_offerAttributes_eq h
  have hleaf := bare_leaf_eq h
  have hunexpected : s.parent.unexpectedElement s.element =
      s'.parent.unexpectedElement s'.element := by
    simp only [Element.unexpectedElement, Element.qualifyChild, hparent, ha.name, ha.range]
  cases rule with
  | bundle | package | module | patch | fragment =>
    simp [-bare_offerAttributes, Rule.open, openBundle, openPackage, openModule, openPatch,
      openFragment, ha.checkAttributes_eq, ha.missingAttributes_eq, ha.value?_eq, ha.identifier?_eq,
      providerSteps_eq ha, patchId, hoffer]
  | chainPackage kind => exact absurd rfl (hrule kind)
  | bootstrapperApplication =>
    simp [-bare_offerAttributes, Rule.open, openBootstrapperApplication, ha.checkAttributes_eq,
      ha.value?_eq, ha.identifier?_eq, hoffer]
  | log | update | relatedBundle | variableValue =>
    simp [-bare_offerAttributes, Rule.open, openLog, openUpdate, openRelatedBundle, openVariable,
      ha.checkAttributes_eq, ha.missingAttributes_eq, ha.value?_eq, variableFindings_eq ha, hleaf]
  | chain | packageGroup | payloadGroup | container =>
    simp [-bare_offerAttributes, Rule.open, openChain, openPackageGroup, openPayloadGroup,
      openContainer, ha.checkAttributes_eq, ha.value?_eq, ha.mutuallyExclusive, requiredId_eq ha,
      containerId_eq ha, hoffer]
  | packageGroupRef | payloadGroupRef | payload =>
    cases hc : scope.cursor <;>
      simp [-bare_offerAttributes, Rule.open, openPackageGroupRef, openPayloadGroupRef, openPayload,
        hc, ha.checkAttributes_eq, ha.missingAttributes_eq, ha.value?_eq, ha.payloadFields_eq,
        resolve_eq ha, hleaf]
  | rollbackBoundary =>
    cases hc : scope.cursor <;>
      simp [-bare_offerAttributes, Rule.open, openRollbackBoundary, hc, ha.checkAttributes_eq,
        ha.value?_eq, ha.identifier?_eq, hposition rfl, hleaf]
  | msiProperty | slipstreamMsp | exitCode | arpEntry =>
    cases hp : scope.parent <;>
      simp [-bare_offerAttributes, Rule.open, openMsiProperty, openSlipstreamMsp, openExitCode,
        openArpEntry, hp, ha.checkAttributes_eq, ha.missingAttributes_eq, ha.value?_eq, hleaf]
  | registryKey | registryValue =>
    cases hp : Parent.registryPlace? scope.parent <;>
      simp [-bare_offerAttributes, Rule.open, openRegistryKey, openRegistryValue, hp,
        ha.checkAttributes_eq, ha.missingAttributes_eq, ha.has_eq, ha.value?_eq, ha.identifier?_eq,
        ha.missingAttribute_eq, RegistryPlace.enter, registryValueFindings_eq ha, hoffer, hleaf]
  | component | property | patchProperty | sequence kind =>
    simp [-bare_offerAttributes, Rule.open, openComponent, openProperty, openPatchProperty,
      openSequence, ha.checkAttributes_eq, ha.missingAttributes_eq, ha.missingAttribute_eq, ha.has_eq,
      ha.value?_eq, requiredId_eq ha, componentDirectory, hoffer, hleaf]
  | customAction =>
    simp only [Rule.open, openCustomAction, ha.coreAttributes, customActionFindings_eq ha,
      codeOf_eq_of_agrees ha, requiredId_eq ha, ha.value?_eq]
    split <;> simp [hleaf]
  | action kind =>
    cases hp : scope.parent <;>
      simp [-bare_offerAttributes, Rule.open, openAction, hp, hunexpected, ha.checkAttributes_eq,
        ha.missingAttributes_eq, actionName, ha.value?_eq, ha.name, scheduleFindings_eq ha,
        actionSteps_eq_of_agrees ha, hleaf]

end Sites

end Compile

end Installer
