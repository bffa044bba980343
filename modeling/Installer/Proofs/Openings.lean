import Installer.Extension
import Installer.Proofs.PayloadFields
import Installer.Proofs.Trail

/-! # What rules rely on

Some rules are of use only in some scopes: those of grouped elements need a group, those of the parts
of a package need the package, and those of registry elements need a component. `Content.Fits` says
which scopes have what the rules of a content need. Every rule that is no unit, used in a scope that
has what it needs, opens its element tamely (`tame_open`): its steps are inside of the element, the
scope of its siblings is like the one before, and the scope of its children fits their content. -/

namespace Installer

open Compile Planned

/-! ### What is written down on the way -/

/-- All that is written down has a property. -/
def Logged.All {ω α : Type} (P : ω → Prop) (x : Logged ω α) : Prop := ∀ s ∈ x.log, P s

namespace Logged

variable {ω α β : Type} {P : ω → Prop}

@[simp] theorem all_pure (a : α) : (pure a : Logged ω α).All P := by simp [All]

@[simp] theorem all_bind (x : Logged ω α) (f : α → Logged ω β) :
    (x >>= f).All P ↔ x.All P ∧ (f x.value).All P := by
  simp [All, or_imp, forall_and]

@[simp] theorem all_tell (log : List ω) : (tell log).All P ↔ ∀ s ∈ log, P s := Iff.rfl

end Logged

namespace Planned

variable {P : Step → Prop}

@[simp] theorem all_report (ds : List Diagnostic) :
    (report ds).All P ↔ ∀ d ∈ ds, P (.report d) := by
  simp [report]

@[simp] theorem all_reportIf (condition : Bool) (d : Diagnostic) :
    (reportIf condition d).All P ↔ (condition → P (.report d)) := by
  cases condition <;> simp [reportIf]

@[simp] theorem all_refer (kind : SymbolKind) (id : String) :
    (refer kind id).All P ↔ P (.refer ⟨kind, id⟩) := by
  simp [refer]

@[simp] theorem all_register (c : GroupCursor) (child : Member) (after : Option Member) :
    (register c child after).All P ↔ P (.group (c.next child after).1) := by
  simp [register, Logged.All]

@[simp] theorem value_register (c : GroupCursor) (child : Member) (after : Option Member) :
    (register c child after).value = (c.next child after).2 := rfl

@[simp] theorem all_offerAttributes (site : Site) (context : Context) :
    (offerAttributes site context).All P ↔
      ∀ a ∈ site.element.foreignAttributes, P (.offer (.ofAttribute site a) context) := by
  simp [offerAttributes]

@[simp] theorem all_leaf (site : Site) (id : Identifier) (close : List Step) :
    (leaf site id close).All P ↔
      ∀ a ∈ site.element.foreignAttributes, P (.offer (.ofAttribute site a) id.validContext) := by
  simp [leaf]

@[simp] theorem value_leaf (site : Site) (id : Identifier) (close : List Step) :
    (leaf site id close).value =
      { content := .nothing, scope := { context := id.validContext }, close := fun _ => close } :=
  rfl

@[simp] theorem all_within (scope : Scope) (x : Planned Body) :
    (within scope x).All P ↔ x.All P := by
  simp [within]

@[simp] theorem value_within (scope : Scope) (x : Planned Body) :
    (within scope x).value = ⟨scope, some x.value⟩ := rfl

@[simp] theorem all_refuse (scope : Scope) (d : Diagnostic) :
    (refuse scope d).All P ↔ P (.report d) := by
  simp [refuse]

@[simp] theorem value_refuse (scope : Scope) (d : Diagnostic) :
    (refuse scope d).value = ⟨scope, none⟩ := rfl

end Planned

/-! ### Steps inside of an element -/

/-- The element of a site and the elements around it, the innermost first. -/
def Site.lineage (s : Site) : List Element := s.element :: s.ancestors

@[simp] theorem Site.lineage_child (s : Site) (position : Nat) (e : Element) :
    (s.child position e).lineage = e :: s.lineage := rfl

namespace Step

/-- Whether a step can be run while a section is open: it opens and closes none, and gives up only
because of nesting. -/
def isInner : Step → Bool
  | .report _ | .emit _ _ | .refer _ | .group _ | .offer _ _ | .halt .tooDeep => true
  | _ => false

/-- A step inside of an element: it can be run while a section is open, and what it offers belongs to
the element or to one below. -/
def Inside (site : Site) (s : Step) : Prop :=
  s.isInner ∧ ∀ node context, s = .offer node context → site.lineage <:+ node.subject.lineage

variable {site : Site}

@[simp] theorem inside_report (d : Diagnostic) : (Step.report d).Inside site := by
  simp [Inside, isInner]

@[simp] theorem inside_emit (id : Identifier) (data : Symbol.Data) :
    (Step.emit id data).Inside site := by
  simp [Inside, isInner]

@[simp] theorem inside_refer (r : SymbolReference) : (Step.refer r).Inside site := by
  simp [Inside, isInner]

@[simp] theorem inside_group (r : GroupReference) : (Step.group r).Inside site := by
  simp [Inside, isInner]

@[simp] theorem inside_tooDeep : (Step.halt .tooDeep).Inside site := by
  simp [Inside, isInner]

@[simp] theorem inside_offer (node : Offer) (context : Context) :
    (Step.offer node context).Inside site ↔ site.lineage <:+ node.subject.lineage := by
  simp [Inside, isInner]

/-- What is inside of a child is inside of its parent. -/
theorem Inside.of_child {position : Nat} {e : Element} {s : Step}
    (h : s.Inside (site.child position e)) : s.Inside site :=
  ⟨h.1, fun node context hs => (List.suffix_cons e site.lineage).trans (h.2 node context hs)⟩

end Step

/-! ### What rules need -/

/-- What a rule may rely on in the scope it is used in: a group to put the element into, the package
around it, or the component around it. -/
inductive Need where
  | nothing
  | group
  | package
  | component

namespace Rule

def need : Rule → Need
  | packageGroupRef | payloadGroupRef | rollbackBoundary | payload | chainPackage _ => .group
  | msiProperty | slipstreamMsp | exitCode | arpEntry => .package
  | registryKey | registryValue => .component
  | _ => .nothing

/-- The kind of the section that a rule opens. -/
def sectionKind? : Rule → Option SectionKind
  | bundle => some .bundle
  | package => some .package
  | module => some .module
  | patch => some .patch
  | fragment => some .fragment
  | _ => none

/-- The rules of units, which are used for the children of the document element only. -/
def isUnit (rule : Rule) : Bool := rule.sectionKind?.isSome

end Rule

def Parent.isPackage : Parent → Bool
  | .package _ _ => true
  | _ => false

@[simp] theorem Parent.registryPlace?_component (id : String) :
    Parent.registryPlace? (.component id) = some ⟨id, none, none⟩ := rfl

@[simp] theorem Parent.registryPlace?_registryKey (component : String)
    (root : Option Symbol.RegistryRoot) (key : Option String) :
    Parent.registryPlace? (.registryKey component root key) = some ⟨component, root, key⟩ := rfl

@[simp] theorem Parent.registryPlace?_package (id : String) (entry : Option ArpEntry) :
    Parent.registryPlace? (.package id entry) = none := rfl

namespace Scope

def Has (scope : Scope) : Need → Prop
  | .nothing => True
  | .group => scope.cursor.isSome
  | .package => scope.parent.isPackage
  | .component => (Parent.registryPlace? scope.parent).isSome

/-- Two scopes with the same things to rely on. -/
def Like (scope outer : Scope) : Prop := ∀ need, outer.Has need ↔ scope.Has need

theorem Like.refl (scope : Scope) : scope.Like scope := fun _ => Iff.rfl

theorem Like.of_cursor {scope : Scope} (h : scope.cursor.isSome) (cursor : GroupCursor) :
    scope.Like { scope with cursor := some cursor } := by
  intro need
  cases need <;> simp [Has, h]

end Scope

namespace Content

/-- Whether the children of an element with this content may rely on a need. -/
def provides : Content → Need → Bool
  | _, .nothing => true
  | bundle, .group | payloads, .group | chainItems, .group | packageGroupRefs, .group => true
  | package _, .group | package _, .package => true
  | component, .component => true
  | _, _ => false

/-- A scope that has what the rules of a content need. -/
def Fits (content : Content) (scope : Scope) : Prop :=
  ∀ need, content.provides need → scope.Has need

theorem Fits.like {content : Content} {scope outer : Scope} (h : content.Fits scope)
    (hl : scope.Like outer) : content.Fits outer :=
  fun need hn => (hl need).mpr (h need hn)

theorem fits_iff {content : Content} {scope : Scope} : content.Fits scope ↔
    (content.provides .group → scope.cursor.isSome) ∧
    (content.provides .package → scope.parent.isPackage) ∧
    (content.provides .component → (Parent.registryPlace? scope.parent).isSome) := by
  refine ⟨fun h => ⟨h .group, h .package, h .component⟩, ?_⟩
  rintro ⟨hg, hp, hc⟩ (_ | _ | _ | _) hn
  · trivial
  · exact hg hn
  · exact hp hn
  · exact hc hn

theorem entries_spec (content : Content) : ∀ p ∈ content.entries, ∀ rule ∈ p.2.rule?,
    content.provides rule.need ∧ (rule.isUnit ↔ content = .document) ∧
      ∀ kind ∈ rule.sectionKind?, kind.name = p.1 := by
  cases content with
  | package kind => cases kind <;> decide
  | _ => decide

/-- The rules of a content need only what it provides. -/
theorem Gives.provides {content : Content} {name : String} {rule : Rule}
    (h : content.Gives name rule) : content.provides rule.need := by
  obtain ⟨entry, hmem, hr⟩ := h
  exact (content.entries_spec _ hmem rule hr).1

/-- Units are children of the document element, and nothing else is. -/
theorem Gives.isUnit_iff {content : Content} {name : String} {rule : Rule}
    (h : content.Gives name rule) : rule.isUnit ↔ content = .document := by
  obtain ⟨entry, hmem, hr⟩ := h
  exact (content.entries_spec _ hmem rule hr).2.1

/-- Units are named for the sections that they open. -/
theorem Gives.sectionKind?_name {content : Content} {name : String} {rule : Rule}
    {kind : SectionKind} (h : content.Gives name rule) (hk : rule.sectionKind? = some kind) :
    kind.name = name := by
  obtain ⟨entry, hmem, hr⟩ := h
  exact (content.entries_spec _ hmem rule hr).2.2 kind hk

end Content

/-! ### Tame openings -/

/-- An opening whose steps are inside of the element, that leaves the scope of the siblings like it
was, and whose body can be read. -/
structure Tame (site : Site) (scope : Scope) (o : Planned Opening) : Prop where
  log : o.All (Step.Inside site)
  outer : scope.Like o.value.outer
  body : ∀ body, o.value.body = some body →
    body.content ≠ .document ∧ body.content.Fits body.scope ∧
      ∀ inner, body.content.Fits inner → ∀ s ∈ body.close inner, s.Inside site

section Tame
variable (site : Site) (scope : Scope)

attribute [local simp] Offer.subject Scope.Like.refl Content.fits_iff Content.provides
  Scope.Like.of_cursor Parent.isPackage

@[simp] theorem inside_requiredId (e : Element) : (requiredId e).All (Step.Inside site) := by
  unfold requiredId
  split <;> simp

@[simp] theorem inside_containerId (e : Element) : (containerId e).All (Step.Inside site) := by
  unfold containerId
  split <;> simp

theorem tame_chain : Tame site scope (within scope (openChain site)) := by
  refine ⟨?_, ?_, ?_⟩ <;> simp [openChain]

theorem tame_packageGroup : Tame site scope (within scope (openPackageGroup site)) := by
  refine ⟨?_, ?_, ?_⟩ <;> simp [openPackageGroup]

theorem tame_payloadGroup : Tame site scope (within scope (openPayloadGroup site)) := by
  refine ⟨?_, ?_, ?_⟩ <;> simp [openPayloadGroup]

theorem tame_container : Tame site scope (within scope (openContainer site)) := by
  refine ⟨?_, ?_, ?_⟩ <;> simp [openContainer]

theorem tame_packageGroupRef (h : scope.Has .group) :
    Tame site scope (openPackageGroupRef scope site) := by
  obtain ⟨cursor, hc⟩ := Option.isSome_iff_exists.mp h
  refine ⟨?_, ?_, ?_⟩ <;> simp [openPackageGroupRef, hc]

theorem tame_payloadGroupRef (h : scope.Has .group) :
    Tame site scope (openPayloadGroupRef scope site) := by
  obtain ⟨cursor, hc⟩ := Option.isSome_iff_exists.mp h
  refine ⟨?_, ?_, ?_⟩ <;> simp [openPayloadGroupRef, hc]

theorem tame_rollbackBoundary (h : scope.Has .group) :
    Tame site scope (openRollbackBoundary scope site) := by
  obtain ⟨cursor, hc⟩ := Option.isSome_iff_exists.mp h
  refine ⟨?_, ?_, ?_⟩ <;> simp [openRollbackBoundary, hc]

theorem tame_bootstrapperApplication :
    Tame site scope (within scope (openBootstrapperApplication site)) := by
  unfold openBootstrapperApplication
  dsimp only
  split <;> refine ⟨?_, ?_, ?_⟩ <;> simp

theorem tame_log : Tame site scope (within scope (openLog site)) := by
  refine ⟨?_, ?_, ?_⟩ <;> simp [openLog]

theorem tame_update : Tame site scope (within scope (openUpdate site)) := by
  refine ⟨?_, ?_, ?_⟩ <;> simp [openUpdate]

theorem tame_relatedBundle : Tame site scope (within scope (openRelatedBundle site)) := by
  refine ⟨?_, ?_, ?_⟩ <;> simp [openRelatedBundle]

theorem tame_variable : Tame site scope (within scope (openVariable site)) := by
  refine ⟨?_, ?_, ?_⟩ <;> simp [openVariable]

/-! ### Payloads and packages -/

@[simp] theorem inside_resolve (fields : PayloadFields) (e : Element) (remoteAllowed : Bool) :
    (fields.resolve e remoteAllowed).All (Step.Inside site) := by
  unfold PayloadFields.resolve
  dsimp only
  split_ifs <;> simp

theorem tame_payload (h : scope.Has .group) : Tame site scope (openPayload scope site) := by
  obtain ⟨cursor, hc⟩ := Option.isSome_iff_exists.mp h
  refine ⟨?_, ?_, ?_⟩ <;> simp [openPayload, hc]

theorem inside_scanChildren (context : Context) :
    (scanChildren site context).All (Step.Inside site) := by
  simp only [scanChildren, Logged.all_tell, List.forall_mem_map]
  intro c _
  split_ifs <;> simp

theorem inside_readTypedPayload (kind : Symbol.PackageKind) (package : Element)
    (inline : PayloadFields) :
    (readTypedPayload kind package inline site).All (Step.Inside site) := by
  simp [readTypedPayload, inside_scanChildren]

theorem inside_packagePayload (kind : Symbol.PackageKind) :
    (packagePayload kind site).All (Step.Inside site) := by
  unfold packagePayload
  dsimp only
  split
  · next child position _ =>
    have h : (readTypedPayload kind site.element (site.element.payloadFields .inline)
        (site.child position child)).All (Step.Inside site) :=
      fun s hs => (inside_readTypedPayload _ kind site.element _ s hs).of_child
    simpa using h
  · simp

theorem inside_packageSteps (kind : Symbol.PackageKind) (e : Element) (p : PackagePayload)
    (entry : Option ArpEntry) : ∀ s ∈ packageSteps kind e p entry, s.Inside site := by
  simp [packageSteps, or_imp, forall_and]

/-- The package that an element is a part of. -/
theorem Scope.Has.package {scope : Scope} (h : scope.Has .package) :
    ∃ id entry, scope.parent = .package id entry := by
  obtain ⟨parent, cursor, context⟩ := scope
  cases parent <;> first | exact ⟨_, _, rfl⟩ | cases h

theorem Scope.Has.closePackage_eq {inner : Scope} (h : inner.Has .package)
    (kind : Symbol.PackageKind) (e : Element) (p : PackagePayload) :
    ∃ id entry, inner.parent = .package id entry ∧
      closePackage kind e p inner = packageSteps kind e p entry := by
  obtain ⟨id, entry, hparent⟩ := h.package
  exact ⟨id, entry, hparent, by rw [closePackage, hparent]⟩

/-- Closing an element does not give up if its children leave this scope. -/
def Body.Closes (body : Body) (inner : Scope) : Prop := ∀ reason, .halt reason ∉ body.close inner

/-- Closing a package gives up unless the scope of its children is that of a package still. -/
theorem close_openChainPackage_cases {site : Site} {scope : Scope} {kind : Symbol.PackageKind}
    {env : Env} {body : Body} (hb : (openChainPackage kind env scope site).value.body = some body)
    (inner : Scope) :
    (∃ id entry, inner.parent = .package id entry ∧
      body.close inner = packageSteps kind site.element (packagePayload kind site).value entry) ∨
    body.close inner = [.halt .noPackage] := by
  simp only [openChainPackage] at hb
  split at hb
  · cases hb
  · obtain rfl := Option.some.inj hb
    cases hparent : inner.parent with
    | package id entry => exact .inl ⟨id, entry, rfl, by simp [closePackage, hparent]⟩
    | _ => exact .inr (by simp [closePackage, hparent])

/-- A package that is closed found its entry in the scope of its children. -/
theorem close_openChainPackage {site : Site} {scope inner : Scope} {kind : Symbol.PackageKind}
    {env : Env} {body : Body} (hb : (openChainPackage kind env scope site).value.body = some body)
    (h : body.Closes inner) : ∃ id entry, inner.parent = .package id entry ∧
      body.close inner = packageSteps kind site.element (packagePayload kind site).value entry :=
  (close_openChainPackage_cases hb inner).resolve_right fun hhalt => h .noPackage (by simp [hhalt])

/-- What holds of the steps after a package holds in any scope, if it also holds of giving up. -/
theorem forall_mem_closePackage {kind : Symbol.PackageKind} {e : Element} {p : PackagePayload}
    {P : Step → Prop} (hsteps : ∀ entry, ∀ s ∈ packageSteps kind e p entry, P s)
    (hhalt : P (.halt .noPackage)) (inner : Scope) : ∀ s ∈ closePackage kind e p inner, P s := by
  unfold closePackage
  split
  · exact hsteps _
  · simpa using hhalt

theorem tame_chainPackage (kind : Symbol.PackageKind) (env : Env) (h : scope.Has .group) :
    Tame site scope (openChainPackage kind env scope site) := by
  obtain ⟨cursor, hc⟩ := Option.isSome_iff_exists.mp h
  refine ⟨?_, ?_, ?_⟩
  · simp [openChainPackage, hc, inside_packagePayload]
  · simp [openChainPackage, hc]
  · simp only [openChainPackage, hc, Logged.value_bind, value_within, Logged.value_pure,
      Option.some.injEq, forall_eq']
    refine ⟨by simp, by simp, fun inner hinner => ?_⟩
    obtain ⟨id, entry, -, hclose⟩ := (hinner .package rfl).closePackage_eq kind site.element
      (packagePayload kind site).value
    rw [hclose]
    exact inside_packageSteps site kind _ _ entry

theorem tame_msiProperty (h : scope.Has .package) :
    Tame site scope (openMsiProperty scope site) := by
  obtain ⟨owner, entry, hp⟩ := h.package
  refine ⟨?_, ?_, ?_⟩ <;> simp [openMsiProperty, hp]

theorem tame_slipstreamMsp (h : scope.Has .package) :
    Tame site scope (openSlipstreamMsp scope site) := by
  obtain ⟨owner, entry, hp⟩ := h.package
  refine ⟨?_, ?_, ?_⟩ <;> simp [openSlipstreamMsp, hp]

theorem tame_exitCode (h : scope.Has .package) : Tame site scope (openExitCode scope site) := by
  obtain ⟨owner, entry, hp⟩ := h.package
  refine ⟨?_, ?_, ?_⟩ <;> simp [openExitCode, hp]

/-- A detection entry changes the parent of its siblings, which stays the same package. -/
theorem tame_arpEntry (h : scope.Has .package) : Tame site scope (openArpEntry scope site) := by
  obtain ⟨owner, entry, hp⟩ := h.package
  refine ⟨?_, ?_, ?_⟩
  · simp [openArpEntry, hp]
  · rintro (_ | _ | _ | _) <;> simp [openArpEntry, hp, Scope.Has]
  · simp [openArpEntry, hp]

/-! ### Databases -/

theorem tame_component (env : Env) : Tame site scope (within scope (openComponent env site)) := by
  refine ⟨?_, ?_, ?_⟩ <;> simp [openComponent]

theorem tame_registryKey (h : scope.Has .component) :
    Tame site scope (openRegistryKey scope site) := by
  obtain ⟨place, hp⟩ := Option.isSome_iff_exists.mp h
  refine ⟨?_, ?_, ?_⟩ <;> simp [openRegistryKey, hp]

theorem tame_registryValue (h : scope.Has .component) :
    Tame site scope (openRegistryValue scope site) := by
  obtain ⟨place, hp⟩ := Option.isSome_iff_exists.mp h
  refine ⟨?_, ?_, ?_⟩ <;> simp [openRegistryValue, hp]

theorem tame_customAction : Tame site scope (within scope (openCustomAction site)) := by
  unfold openCustomAction
  dsimp only
  split <;> refine ⟨?_, ?_, ?_⟩ <;> simp

theorem tame_property : Tame site scope (within scope (openProperty site)) := by
  refine ⟨?_, ?_, ?_⟩ <;> simp [openProperty]

theorem tame_patchProperty : Tame site scope (within scope (openPatchProperty site)) := by
  refine ⟨?_, ?_, ?_⟩ <;> simp [openPatchProperty]

theorem tame_sequence (s : Symbol.Sequence) (env : Env) :
    Tame site scope (within scope (openSequence s env site)) := by
  refine ⟨?_, ?_, ?_⟩ <;> simp [openSequence]

theorem inside_actionSteps (kind : ActionKind) (e : Element) (table : Symbol.SequenceTable)
    (action : String) : ∀ s ∈ actionSteps kind e table action, s.Inside site := by
  unfold actionSteps
  dsimp only
  split_ifs
  · simp
  · simp [or_imp, forall_and]

theorem tame_refuse (d : Diagnostic) : Tame site scope (refuse scope d) := by
  refine ⟨?_, ?_, ?_⟩ <;> simp

theorem tame_action (kind : ActionKind) : Tame site scope (openAction kind scope site) := by
  unfold openAction
  dsimp only
  split
  · split_ifs
    · exact tame_refuse site scope _
    · refine ⟨?_, ?_, ?_⟩
      · simp
      · simp
      · simpa using fun _ => inside_actionSteps site _ _ _ _
  · exact tame_refuse site scope _

end Tame

/-- **Rules that are no units open their elements tamely**, in scopes that have what they need. -/
theorem tame_open {rule : Rule} (hu : ¬ rule.isUnit) (env : Env) {scope : Scope} (site : Site)
    (h : scope.Has rule.need) : Tame site scope (rule.open env scope site) := by
  cases rule with
  | bundle | package | module | patch | fragment => exact absurd rfl hu
  | bootstrapperApplication => exact tame_bootstrapperApplication site scope
  | log => exact tame_log site scope
  | update => exact tame_update site scope
  | relatedBundle => exact tame_relatedBundle site scope
  | variableValue => exact tame_variable site scope
  | chain => exact tame_chain site scope
  | packageGroup => exact tame_packageGroup site scope
  | packageGroupRef => exact tame_packageGroupRef site scope h
  | payloadGroup => exact tame_payloadGroup site scope
  | payloadGroupRef => exact tame_payloadGroupRef site scope h
  | container => exact tame_container site scope
  | rollbackBoundary => exact tame_rollbackBoundary site scope h
  | payload => exact tame_payload site scope h
  | chainPackage kind => exact tame_chainPackage site scope kind env h
  | msiProperty => exact tame_msiProperty site scope h
  | slipstreamMsp => exact tame_slipstreamMsp site scope h
  | exitCode => exact tame_exitCode site scope h
  | arpEntry => exact tame_arpEntry site scope h
  | component => exact tame_component site scope env
  | registryKey => exact tame_registryKey site scope h
  | registryValue => exact tame_registryValue site scope h
  | customAction => exact tame_customAction site scope
  | property => exact tame_property site scope
  | patchProperty => exact tame_patchProperty site scope
  | sequence s => exact tame_sequence site scope s env
  | action kind => exact tame_action site scope kind

end Installer
