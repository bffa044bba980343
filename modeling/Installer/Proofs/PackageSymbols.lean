import Installer.Proofs.SymbolBlocks

/-! # Packages and their payloads

The element of a package defines two symbols when it is closed, its payload and right after it the
package. Packages do not contain each other, so that the packages of a document are defined in the order of
their elements. `PackagesOf` is the relation between the elements and the symbols that says both, and it
holds for every plan without errors (`packagesOf_plan`). -/

namespace Installer

open Compile Planned

/-! ### The elements of packages -/

/-- The kind of package that the elements of a rule are. -/
def Rule.packageKind? : Rule → Option Symbol.PackageKind
  | chainPackage kind => some kind
  | _ => none

namespace Symbol.PackageKind

/-- The elements of packages are those that are read as packages. -/
theorem ofElementName?_of_named? {name : String} {rule : Rule} (h : Rule.named? name = some rule) :
    ofElementName? name = rule.packageKind? := by
  have hall : ∀ content ∈ Content.all, ∀ p ∈ content.entries, ∀ rule ∈ p.2.rule?,
      ofElementName? p.1 = rule.packageKind? := by
    decide +kernel
  obtain ⟨content, entry, hmem, hrule⟩ := Rule.exists_gives_of_named? h
  exact hall content content.mem_all _ hmem rule hrule

theorem ofElementName?_of_absorbed {content : Content} {name : String}
    (h : content.absorbed? = some name) : ofElementName? name = none := by
  cases content with
  | package kind => cases h; cases kind <;> decide
  | _ => cases h

end Symbol.PackageKind

/-- The element is a package of a chain. -/
def Site.isPackage (s : Site) : Bool := (Symbol.PackageKind.ofElementName? s.element.name).isSome

/-! ### Packages in a list of symbols -/

/-- The symbols of a package: its payload and then the package itself. `R` holds of the element, the
identifier of the payload, the payload and the package. -/
inductive PackageBlock (R : Site → Identifier → Symbol.Payload → Symbol.Package → Prop) (site : Site) :
    List Definition → Prop
  | mk {payloadId id : Identifier} {payload : Symbol.Payload} {package : Symbol.Package}
      (hr : R site payloadId payload package) :
      PackageBlock R site [(payloadId, .payload payload), (id, .package package)]

/-- A list of symbols with the symbols of the packages of the given elements, one after the other and in
order. No other symbol is a package. -/
def PackagesOf (R : Site → Identifier → Symbol.Payload → Symbol.Package → Prop) :
    List Site → List Definition → Prop :=
  BlocksOf [.package] (PackageBlock R)

/-- What follows from the relation for the packages of the list. -/
theorem PackagesOf.imp {R R' : Site → Identifier → Symbol.Payload → Symbol.Package → Prop}
    {sites : List Site} {l : List Definition} (h : PackagesOf R sites l)
    (himp : ∀ site payloadId id payload package, (id, .package package) ∈ l →
      R site payloadId payload package → R' site payloadId payload package) :
    PackagesOf R' sites l := by
  refine BlocksOf.imp h fun site block hblock hpackage => ?_
  cases hpackage with
  | @mk payloadId id payload package hr =>
    have hmem : (id, .package package) ∈ l := hblock (by simp)
    exact .mk (himp _ _ _ _ _ hmem hr)

/-! ### Packages in a plan -/

/-- The package that an element without errors defines, with the entry that its children found. -/
structure Packs (config : Config) (kind : Symbol.PackageKind) (entry : Option ArpEntry) (site : Site)
    (package : Symbol.Package) : Prop where
  name : Symbol.PackageKind.ofElementName? site.element.name = some kind
  passes : site.element.Passes (commonChecks ++ kindChecks config kind)
  payload : (packagePayload kind site).All Step.Smooth
  findings : ∀ d ∈ (detailsOf site.element entry kind).1, d.isError = false
  kind_eq : package.kind = kind
  payload_eq : package.payload = (packagePayload kind site).value.payloadId.id
  permanent_eq : package.permanent = isPermanent site.element
  visible_eq : package.visible = visibleOf site.element kind
  perMachine_eq : package.perMachine = perMachineOf site.element kind
  details_eq : package.details = (detailsOf site.element entry kind).2

/-- The relation between the element of a package, its payload and the package. -/
def Site.Packages (config : Config) (site : Site) (payloadId : Identifier)
    (payload : Symbol.Payload) (package : Symbol.Package) : Prop :=
  ∃ kind entry, Packs config kind entry site package ∧
    payloadId = (packagePayload kind site).value.payloadId ∧
    payload = (packagePayload kind site).value.payload

/-- The last two symbols of the element of a package are its payload and the package. -/
theorem packs_of_smooth {kind : Symbol.PackageKind} {env : Env} {scope inner : Scope} {site : Site}
    {body : Body} (hname : Rule.named? site.element.name = some (.chainPackage kind))
    (h : (openChainPackage kind env scope site).All Step.Smooth)
    (hb : (openChainPackage kind env scope site).value.body = some body)
    (hclose : ∀ s ∈ body.close inner, s.Smooth) :
    ∃ id entry package, (body.close inner).filterMap Step.symbol? = [
        ((packagePayload kind site).value.payloadId, .payload (packagePayload kind site).value.payload),
        (id, .package package)] ∧
      Packs env.config kind entry site package := by
  obtain ⟨-, entry, -, hsteps⟩ := close_openChainPackage hb (Step.Smooth.closes hclose)
  rw [hsteps] at hclose ⊢
  cases hcursor : scope.cursor with
  | none => simp [openChainPackage, hcursor, halt] at hb
  | some cursor =>
    simp only [openChainPackage, hcursor, Logged.all_bind] at h
    have hfindings : ∀ d ∈ (detailsOf site.element entry kind).1, d.isError = false := fun d hd =>
      hclose (.report d) (List.mem_append_left _ (List.mem_map_of_mem hd))
    have hreports : ∀ ds : List Diagnostic, (ds.map Step.report).filterMap Step.symbol? = [] := by
      simp [Step.symbol?, Function.comp_def]
    simp only [packageSteps, List.filterMap_append, hreports]
    exact ⟨_, entry, _, rfl, Symbol.PackageKind.ofElementName?_of_named? hname, passes_of_smooth h.1, h.2.1,
      hfindings, rfl, rfl, rfl, rfl, rfl, rfl⟩

/-- Only packages define packages and are read as such. -/
theorem Rule.package_notMem {rule : Rule} (h : rule.packageKind? = none) :
    (∀ kind, rule.content ≠ .package kind) ∧
      SymbolKind.package ∉ rule.asides ++ rule.namesakes := by
  cases rule with
  | chainPackage kind => cases h
  | _ => simp [content, asides, namesakes]

/-- Nothing inside of a package is a package. -/
theorem Content.package_gives {kind : Symbol.PackageKind} {name : String} {rule : Rule}
    (h : (Content.package kind).Gives name rule) :
    (Symbol.PackageKind.ofElementName? name).isSome = false ∧ rule.content = .nothing := by
  obtain ⟨entry, hmem, hrule⟩ := h
  have hall : ∀ p ∈ (Content.package kind).entries, ∀ rule ∈ p.2.rule?,
      (Symbol.PackageKind.ofElementName? p.1).isSome = false ∧ rule.content = .nothing := by
    cases kind <;> decide
  exact hall _ hmem rule hrule

namespace Compile

theorem Entered.exists_chainPackage {config : Config} {unit : Option SectionKind}
    {scope inner : Scope} {site : Site} {rule : Rule} {body : Body} {l : List Step}
    (h : Entered config unit scope inner site rule body l) (hs : site.isPackage) :
    ∃ kind, rule = .chainPackage kind := by
  rw [Site.isPackage, Symbol.PackageKind.ofElementName?_of_named? h.named] at hs
  cases rule with
  | chainPackage kind => exact ⟨kind, rfl⟩
  | _ => cases hs

/-- Packages define their payloads and themselves. -/
theorem definesBlocks_package (config : Config) :
    DefinesBlocks config [.package] (PackageBlock (Site.Packages config))
      (fun name => (Symbol.PackageKind.ofElementName? name).isSome)
      (fun content => ∀ kind, content ≠ .package kind) where
  absorbed h := by rw [Symbol.PackageKind.ofElementName?_of_absorbed h, Option.isSome_none]
  other _ hgives hname := by
    rw [Symbol.PackageKind.ofElementName?_of_named? (Rule.named?_of_gives hgives)] at hname
    obtain ⟨hcontent, hkinds⟩ := Rule.package_notMem (by simpa using hname)
    exact ⟨hcontent, by simpa using hkinds⟩
  below h hname := by
    obtain ⟨kind, rfl⟩ := h.exists_chainPackage hname
    refine h.walk.not_below (A := fun content => content = .nothing ∨ content = .package kind)
      (fun h => ?_) (fun hc hgives => ?_) (.inr h.content) h.reached
    · rw [Symbol.PackageKind.ofElementName?_of_absorbed h, Option.isSome_none]
    · rcases hc with rfl | rfl
      · obtain ⟨entry, hmem, -⟩ := hgives
        cases hmem
      · obtain ⟨hnot, hnothing⟩ := Content.package_gives hgives
        exact ⟨hnot, .inl hnothing⟩
  block {unit scope inner site rule body l} h hname := by
    obtain ⟨kind, rfl⟩ := h.exists_chainPackage hname
    have hlog : ((Rule.chainPackage kind).open ⟨config, unit⟩ scope site).log.filterMap
        Step.symbol? = [] := collect_chainPackage site scope kind _
    obtain ⟨id, entry, package, hsymbols, hpacks⟩ := packs_of_smooth h.named h.smooth h.body_eq h.close
    rw [List.filterMap_append, List.filterMap_append, hlog, List.nil_append, hsymbols]
    refine .of_forall_append (fun d hd hkind => ?_)
      (.single (.mk ⟨kind, _, hpacks, rfl, rfl⟩))
    have hmem := h.walk.mem_kinds d hd
    rw [h.content, List.mem_singleton.mp hkind] at hmem
    simp [Rule.content, Content.kinds, Content.packageKinds] at hmem

/-- **The packages of a plan without errors.** -/
theorem packagesOf_plan {config : Config} {root : Element}
    (h : ∀ s ∈ plan config root, s.Smooth) :
    PackagesOf (Site.Packages config) (root.reached.filter Site.isPackage)
      ((plan config root).filterMap Step.symbol?) :=
  (definesBlocks_package config).blocksOf_plan nofun (by decide) h

end Compile

end Installer
