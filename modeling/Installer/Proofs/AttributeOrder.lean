import Installer.Proofs.Reordering

/-! # The order of attributes

If the attributes of a document are put in another order, without extensions it compiles to the same
intermediate, or fails as before (`Compiler.order_of_attributes`). There is one thing to heed: a command
line of a package has a deprecated name beside its proper one, and the last of the two counts
(`order_of_argument_names`), so that these two have to keep their order. -/

namespace Installer

open Compile Planned

/-! ### Documents of one shape -/

/-- Two documents of one shape whose elements are related in pairs. -/
inductive Element.Matched (R : Element → Element → Prop) : Element → Element → Prop
  | node {e e' : Element} (here : R e e')
      (children : List.Forall₂ (Matched R) e.children e'.children) : Matched R e e'

namespace Element.Matched

variable {R : Element → Element → Prop} {e e' : Element}

theorem here (h : e.Matched R e') : R e e' := by
  cases h with
  | node here children => exact here

theorem children (h : e.Matched R e') :
    List.Forall₂ (Element.Matched R) e.children e'.children := by
  cases h with
  | node here children => exact children

end Element.Matched

/-- An element that says the same, with the same command lines if it is a package that has some. -/
structure Element.Echoes (e e' : Element) : Prop extends e.Restates e' where
  arguments : ∀ kind : Symbol.PackageKind, kind.hasArguments →
    e.qname = QName.core kind.elementName → e.SameArguments e'

/-- Sites of matching elements at the same place among their siblings. -/
structure Site.Echoes (s s' : Site) : Prop where
  element : s.element.Matched Element.Echoes s'.element
  position : s.position = s'.position

/-! ### Openings -/

/-- What a body comes to. -/
structure Body.Gist where
  content : Content
  scope : Scope
  unit : Option SectionKind
  close : Scope → Option (List Step)

def Body.gist (b : Body) : Body.Gist :=
  ⟨b.content, b.scope, b.unit, fun inner => Step.gist (b.close inner)⟩

/-- What an opening comes to. -/
def Opening.gist (o : Opening) : Scope × Option Body.Gist := (o.outer, o.body.map Body.gist)

namespace Compile

/-- The payload elements of packages whose children are related in pairs are such a pair. -/
theorem typedPayload?_cases {R : Element → Element → Prop}
    (hR : ∀ {c c'}, R c c' → c.isCore = c'.isCore ∧ c.name = c'.name) {e e' : Element}
    (h : List.Forall₂ R e.children e'.children) (kind : Symbol.PackageKind) :
    (typedPayload? e kind = none ∧ typedPayload? e' kind = none) ∨
      ∃ c c' position, typedPayload? e kind = some (c, position) ∧
        typedPayload? e' kind = some (c', position) ∧ R c c' := by
  unfold typedPayload?
  generalize e.children = l at h
  generalize e'.children = l' at h
  generalize 0 = start
  induction h generalizing start with
  | nil => exact .inl ⟨rfl, rfl⟩
  | @cons c c' l l' hc hl ih =>
    rw [List.zipIdx_cons, List.zipIdx_cons, List.find?_cons, List.find?_cons, (hR hc).1, (hR hc).2]
    cases c'.isCore && c'.name == kind.payloadElementName with
    | true => exact .inr ⟨c, c', start, rfl, rfl, hc⟩
    | false => exact ih (start + 1)

section Sites
variable {s s' : Site} (h : s.Echoes s')
include h

theorem gist_scanChildren (context : Context) :
    (scanChildren s context).gist = (scanChildren s' context).gist := by
  have hchildren := h.element.children
  rw [← List.zipIdx_map_fst 0 s.element.children, ← List.zipIdx_map_fst 0 s'.element.children,
    List.forall₂_map_left_iff, List.forall₂_map_right_iff] at hchildren
  refine Logged.gist_eq_iff.mpr ⟨Step.gist_map_congr hchildren fun {c c'} hc => ?_, fun _ _ => rfl⟩
  rw [hc.here.isCore]
  split_ifs
  · rfl
  · rw [Step.gist_offer, Step.gist_offer]

theorem gist_readTypedPayload {package package' : Element} (hp : package.Restates package')
    (kind : Symbol.PackageKind) :
    (readTypedPayload kind package (package.payloadFields .inline) s).gist =
      (readTypedPayload kind package' (package'.payloadFields .inline) s').gist := by
  have he := h.element.here.toRestates
  have hfields := alike_payloadFields he (.typed kind)
  have hsource : ∀ (package e : Element) (inline : PayloadFields), Diagnostic.hasErrors
      ((inline.firstSeen? sourceNames).toList.map (package.elementWithAttribute e)) =
        (inline.firstSeen? sourceNames).isSome :=
    fun package e inline => Diagnostic.hasErrors_optional _ fun _ => rfl
  simp only [readTypedPayload, PayloadFields.gather_eq, Logged.gist_bind, gist_report,
    gist_offerAttributes, Logged.gist_pure, hsource, (alike_payloadFields hp .inline).isSome_firstSeen?,
    he.hasErrors_checkAttributes, Option.bind_some, Logged.value_pure,
    hfields.gist_resolve s.element s'.element, hfields.id, gist_scanChildren h, Logged.log_pure]

theorem gist_packagePayload (kind : Symbol.PackageKind) :
    (packagePayload kind s).gist = (packagePayload kind s').gist := by
  have he := h.element.here.toRestates
  simp only [packagePayload, he.identifier?_eq]
  rcases typedPayload?_cases (fun hc => ⟨hc.here.isCore, hc.here.name⟩) h.element.children kind with
    ⟨ht, ht'⟩ | ⟨c, c', position, ht, ht', hc⟩
  · have hfields := alike_payloadFields he .inline
    simp [ht, ht', hfields.saw_eq, hfields.resolveInline_eq]
  · have hchild : (s.child position c).Echoes (s'.child position c') := ⟨hc, rfl⟩
    simp [ht, ht', gist_readTypedPayload hchild he]

/-- A second source or target of a custom action is an error wherever it stands, and without one the
code is the same. -/
theorem gist_openCustomAction : (openCustomAction s).gist = (openCustomAction s').gist := by
  have he := h.element.here.toRestates
  have hfindings := hasErrors_customActionFindings he
  simp only [openCustomAction, Logged.gist_bind, gist_report, hfindings, gist_requiredId he]
  cases herrors : Diagnostic.hasErrors
      (customActionFindings s'.element none none s'.element.coreAttributes) with
  | true => rfl
  | false =>
    obtain ⟨hsource, htarget, -⟩ := (customActionFindings_iff _ _ _ _).mp (hfindings.trans herrors)
    obtain ⟨hcode, hsame⟩ := codeOf_eq he hsource htarget
    simp only [hcode, hsame, he.value?_eq]
    cases referenceKind? (codeOf s'.element).2.sourceKind <;> cases (codeOf s'.element).2.source <;>
      simp

/-- Rules that open an element without a look at command lines. -/
theorem gist_open_of_restates {rule : Rule} (hrule : ∀ kind, rule ≠ .chainPackage kind) (env : Env)
    (scope : Scope) : (rule.open env scope s).gist = (rule.open env scope s').gist := by
  have he := h.element.here.toRestates
  cases rule with
  | bundle | package | module | patch | fragment =>
    simp [Rule.open, openBundle, openPackage, openModule, openPatch, openFragment,
      he.hasErrors_checkAttributes, he.hasErrors_missingAttributes, he.value?_eq, he.identifier?_eq,
      gist_providerSteps he, patchId_eq he]
  | bootstrapperApplication =>
    simp [Rule.open, openBootstrapperApplication, he.hasErrors_checkAttributes, he.value?_eq,
      he.identifier?_eq]
  | log | update | relatedBundle | variableValue =>
    simp [Rule.open, openLog, openUpdate, openRelatedBundle, openVariable,
      he.hasErrors_checkAttributes, he.hasErrors_missingAttributes, he.value?_eq,
      hasErrors_variableFindings he]
  | chain | packageGroup | payloadGroup | container =>
    simp [Rule.open, openChain, openPackageGroup, openPayloadGroup, openContainer,
      he.hasErrors_checkAttributes, he.value?_eq, gist_requiredId he, gist_containerId he]
  | packageGroupRef | payloadGroupRef | payload | rollbackBoundary =>
    have hfields := alike_payloadFields he .own
    cases hc : scope.cursor <;>
      simp [Rule.open, openPackageGroupRef, openPayloadGroupRef, openPayload, openRollbackBoundary,
        hc, he.hasErrors_checkAttributes, he.hasErrors_missingAttributes, he.value?_eq,
        he.identifier?_eq, hfields.id, hfields.gist_resolve s.element s'.element, h.position]
  | chainPackage kind => exact absurd rfl (hrule kind)
  | msiProperty | slipstreamMsp | exitCode | arpEntry =>
    cases hp : scope.parent <;>
      simp [Rule.open, openMsiProperty, openSlipstreamMsp, openExitCode, openArpEntry, hp,
        he.hasErrors_checkAttributes, he.hasErrors_missingAttributes, he.value?_eq]
  | registryKey | registryValue =>
    cases hp : Parent.registryPlace? scope.parent <;>
      simp [Rule.open, openRegistryKey, openRegistryValue, hp, he.hasErrors_checkAttributes,
        he.hasErrors_missingAttributes, he.has_eq, he.value?_eq, he.identifier?_eq, enter_eq he,
        hasErrors_registryValueFindings he]
  | component | property | patchProperty | sequence kind =>
    simp [Rule.open, openComponent, openProperty, openPatchProperty, openSequence,
      he.hasErrors_checkAttributes, he.hasErrors_missingAttributes, he.has_eq, he.value?_eq,
      gist_requiredId he, componentDirectory_eq he]
  | customAction =>
    simp only [Rule.open, gist_within]
    rw [gist_openCustomAction h]
  | action kind =>
    cases hp : scope.parent <;>
      simp [Rule.open, openAction, hp, he.hasErrors_checkAttributes, he.hasErrors_missingAttributes,
        actionName_eq he, actionSteps_eq he, hasErrors_scheduleFindings he]

/-- **Matching elements are opened in the same way**, if a package with command lines has the same. -/
theorem gist_open (rule : Rule) (env : Env) (scope : Scope)
    (hargs : ∀ kind, rule = .chainPackage kind → kind.hasArguments →
      s.element.SameArguments s'.element) :
    (do return (← rule.open env scope s).gist : Planned (Scope × Option Body.Gist)).gist =
      (do return (← rule.open env scope s').gist : Planned (Scope × Option Body.Gist)).gist := by
  by_cases hrule : ∃ kind, rule = .chainPackage kind
  · obtain ⟨kind, rfl⟩ := hrule
    have he := h.element.here.toRestates
    have hclose := gist_closePackage he (hargs kind rfl)
    cases hc : scope.cursor with
    | none => simp [Rule.open, openChainPackage, hc]
    | some cursor =>
      simp only [Rule.open, openChainPackage, hc, Logged.gist_bind, gist_report, gist_packagePayload h,
        he.hasErrors_checkAttributes, he.value?_eq]
      cases Diagnostic.hasErrors (s'.element.checkAttributes _) with
      | true => simp only [if_true, Option.bind_none]
      | false =>
        cases (packagePayload kind s').gist with
        | none => simp only [Option.bind_none, Option.map_none]
        | some p => simp [Opening.gist, Body.gist, Logged.after, hclose]
  · rw [Logged.gist_bind, Logged.gist_bind,
      gist_open_of_restates h (fun kind hkind => hrule ⟨kind, hkind⟩)]

end Sites

/-! ### Plans -/

/-- What is to be done with a child depends on its name alone and on whether that was seen before; a
refusal is an error. -/
theorem admissionOf_cases (content : Content) (parent parent' : Element) {child child' : Element}
    (h : child.name = child'.name) {seen seen' : List String}
    (hseen : seen.contains child.name = seen'.contains child.name) :
    (∃ d d', admissionOf content seen parent child = .refuse d ∧
        admissionOf content seen' parent' child' = .refuse d' ∧ d.isError ∧ d'.isError) ∨
      (admissionOf content seen parent child = .skip ∧
        admissionOf content seen' parent' child' = .skip) ∨
      ∃ rule, admissionOf content seen parent child = .accept rule ∧
        admissionOf content seen' parent' child' = .accept rule := by
  unfold admissionOf
  rw [hseen, h]
  split
  · exact .inl ⟨_, _, rfl, rfl, rfl, rfl⟩
  · next rule _ => exact .inr (.inr ⟨rule, rfl, rfl⟩)
  · next rule _ =>
    split_ifs
    · exact .inl ⟨_, _, rfl, rfl, rfl, rfl⟩
    · exact .inr (.inr ⟨rule, rfl, rfl⟩)
  · split_ifs
    · exact .inl ⟨_, _, rfl, rfl, rfl, rfl⟩
    · exact .inr (.inl ⟨rfl, rfl⟩)

/-- The steps for an element come to the same for every element that matches it. -/
def Echoed (config : Config) (e : Element) : Prop :=
  ∀ unit depth rule scope position ancestors ancestors' e', e.Matched Element.Echoes e' →
    (∀ kind, rule = .chainPackage kind → kind.hasArguments → e.SameArguments e') →
      (planElement config unit depth rule scope position ancestors e).gist =
        (planElement config unit depth rule scope position ancestors' e').gist

theorem gist_planChildren (config : Config) (unit : Option SectionKind) (depth : Nat)
    (content : Content) (s s' : Site) {children children' : List Element}
    (h : List.Forall₂ (Element.Matched Element.Echoes) children children') :
    (∀ child ∈ children, Echoed config child) → ∀ (scope : Scope) (position : Nat) (seen : List String),
      (planChildren config unit depth content s scope position seen children).gist =
        (planChildren config unit depth content s' scope position seen children').gist := by
  induction h with
  | nil =>
    intro _ scope position seen
    rw [planChildren, planChildren]
  | @cons child child' rest rest' hc hrest ih =>
    intro hplans scope position seen
    obtain ⟨hplan, hplans⟩ := List.forall_mem_cons.mp hplans
    have ih := ih hplans
    rw [planChildren, planChildren, hc.here.isCore]
    by_cases hcore : child'.isCore
    · simp only [hcore, Bool.not_true, Bool.false_eq_true, ↓reduceIte, hc.here.name]
      have hseen : seen.contains child.name = seen.contains child.name := rfl
      rcases admissionOf_cases content s.element s'.element hc.here.name hseen with
        ⟨d, d', hadm, hadm', hd, hd'⟩ | ⟨hadm, hadm'⟩ | ⟨rule, hadm, hadm'⟩
      · simp [hadm, hadm', Diagnostic.hasErrors, hd, hd']
      · simp only [hadm, hadm', ih]
      · have hargs : ∀ kind, rule = .chainPackage kind → kind.hasArguments →
            child.SameArguments child' := by
          rintro kind rfl hkind
          refine hc.here.arguments kind hkind ?_
          rw [Element.qname_eq_core (hc.here.isCore.trans hcore),
            Content.name_of_gives (gives_of_accept hadm) rfl]
        have hchild := hplan unit (depth + 1) rule scope position (s.element :: s.ancestors)
          (s'.element :: s'.ancestors) child' hc hargs
        simp only [hadm, hadm', Logged.gist_ite, Logged.gist_bind, hchild, ih]
    · simp [hcore, ih]

theorem echoed (config : Config) (e : Element) : Echoed config e := by
  induction e using Element.induct with
  | node tag children ih =>
    intro unit depth rule scope position ancestors ancestors' e' h hargs
    have hs : Site.Echoes ⟨.node tag children, position, ancestors⟩ ⟨e', position, ancestors'⟩ :=
      ⟨h, rfl⟩
    obtain ⟨tag', children'⟩ := e'
    rw [planElement, planElement]
    refine Logged.gist_bind_congr (gist_open hs rule ⟨config, unit⟩ scope hargs) ?_
    rintro ⟨outer, body⟩ ⟨outer', body'⟩ ho
    obtain ⟨houter, hbody⟩ := Prod.mk.inj ho
    dsimp only at houter hbody
    subst houter
    rcases body with _ | ⟨content, inner, kind, close⟩ <;>
      rcases body' with _ | ⟨content', inner', kind', close'⟩
    · simp
    · cases hbody
    · cases hbody
    · obtain ⟨rfl, rfl, rfl, hclose⟩ := Body.Gist.mk.inj (Option.some.inj hbody)
      have hinner := gist_planChildren config (kind.or unit) depth content
        ⟨.node tag children, position, ancestors⟩ ⟨.node tag' children', position, ancestors'⟩
        h.children ih inner 0 []
      have hclose : ∀ inner, Step.gist (close inner) = Step.gist (close' inner) := congrFun hclose
      rw [Element.children, Element.children] at hinner
      simp [hinner, hclose]

/-- Matching documents have plans that come to the same. -/
theorem gist_plan (config : Config) {root root' : Element} (h : root.Matched Element.Echoes root') :
    Step.gist (plan config root) = Step.gist (plan config root') := by
  unfold plan
  rw [h.here.qname]
  split_ifs
  · rfl
  · have hchildren := gist_planChildren config none 0 .document (Site.root root) (Site.root root')
      h.children (fun child _ => echoed config child) {} 0 []
    refine (Logged.gist_eq_iff.mp ?_).1
    simp [h.here.hasErrors_checkAttributes, hchildren]

end Compile

/-! ### Documents in another order -/

instance : DecidablePred Element.Distinct := fun e =>
  inferInstanceAs (Decidable (e.coreAttributes.map (·.name)).Nodup)

instance (e e' : Element) : Decidable (e.SameArguments e') :=
  inferInstanceAs (Decidable (∀ names ∈ argumentNames, _ = _))

/-- An attribute without its place in the source. -/
def Attribute.unplaced (a : Attribute) : Attribute := { a with range := TextRange.none }

namespace Element

/-- The element is the other one with its attributes in some order, wherever the two stand. -/
structure Permuted (e e' : Element) : Prop where
  qname : e.qname = e'.qname
  text : e.text = e'.text
  attributes : (e.attributes.map Attribute.unplaced).Perm (e'.attributes.map Attribute.unplaced)

/-- An order in which the last of the two names of a command line is still the last. -/
structure Reordered (e e' : Element) : Prop extends e.Permuted e' where
  arguments : ∀ kind : Symbol.PackageKind, kind.hasArguments →
    e.qname = QName.core kind.elementName → e.SameArguments e'

theorem Permuted.said {e e' : Element} (h : e.Permuted e') :
    (e.coreAttributes.map Attribute.said).Perm (e'.coreAttributes.map Attribute.said) := by
  have hsaid : ∀ e : Element, e.coreAttributes.map Attribute.said =
      ((e.attributes.map Attribute.unplaced).filter (·.isCore)).map Attribute.said := by
    intro e
    rw [List.filter_map, List.map_map]
    rfl
  rw [hsaid, hsaid]
  exact (h.attributes.filter _).map _

theorem Reordered.echoes {e e' : Element} (h : e.Reordered e') (hd : e.Distinct) : e.Echoes e' where
  qname := h.qname
  text := h.text
  said := h.said
  distinct := hd
  arguments := h.arguments

/-- A relation may use what holds of all elements of the first document. -/
theorem Matched.of_sites {R S : Element → Element → Prop} {P : Element → Prop}
    (hS : ∀ {e e'}, R e e' → P e → S e e') (e : Element) :
    ∀ (position : Nat) (ancestors : List Element) (e' : Element), e.Matched R e' →
      (∀ s ∈ e.sitesAt position ancestors, P s.element) → e.Matched S e' := by
  induction e using Element.induct with
  | node tag children ih =>
    intro position ancestors e' h hP
    rw [sitesAt, List.forall_mem_cons] at hP
    have hchildren : ∀ (l l' : List Element) (i : Nat), List.Forall₂ (Matched R) l l' →
        (∀ c ∈ l, c ∈ children) →
          (∀ s ∈ sitesOfList i (Element.node tag children :: ancestors) l, P s.element) →
            List.Forall₂ (Matched S) l l' := by
      intro l l' i hl
      induction hl generalizing i with
      | nil => exact fun _ _ => .nil
      | @cons c c' l l' hc hl ihl =>
        intro hmem hsites
        rw [sitesOfList, List.forall_mem_append] at hsites
        exact .cons (ih c (hmem c List.mem_cons_self) i _ c' hc hsites.1)
          (ihl (i + 1) (fun d hd => hmem d (List.mem_cons_of_mem _ hd)) hsites.2)
    exact .node (hS h.here hP.1) (hchildren children e'.children 0 h.children (fun _ hc => hc) hP.2)

end Element

/-- **The order of attributes does not matter.** Let no element of a document have two core attributes
of one name, and let its attributes be put in another order, but for the two names of a command line.
Without extensions both documents fail to compile or both give the same intermediate. -/
theorem Compiler.order_of_attributes {c : Compiler} {k : UInt32} {root root' : Element}
    (hc : c.extensions = []) (hd : ∀ s ∈ root.sites, s.element.Distinct)
    (h : root.Matched Element.Reordered root') :
    ((∃ o, (c.compileAs k root).result = .ok o ∧ o.isSuccess) ↔
        ∃ o, (c.compileAs k root').result = .ok o ∧ o.isSuccess) ∧
      ∀ o o', (c.compileAs k root).result = .ok o → o.isSuccess →
        (c.compileAs k root').result = .ok o' → o'.isSuccess → o.intermediate = o'.intermediate := by
  have hgist := gist_plan c.config
    (h.of_sites (fun hr hd => hr.echoes hd) root 0 [] root' hd)
  refine ⟨⟨?_, ?_⟩, ?_⟩
  · rintro ⟨o, ho, hs⟩
    obtain ⟨o', ho', hs', -⟩ := delivers_of_gist hc hgist ⟨o, ho, hs, rfl⟩
    exact ⟨o', ho', hs'⟩
  · rintro ⟨o', ho', hs'⟩
    obtain ⟨o, ho, hs, -⟩ := delivers_of_gist hc hgist.symm ⟨o', ho', hs', rfl⟩
    exact ⟨o, ho, hs⟩
  · intro o o' ho hs ho' hs'
    obtain ⟨o'', ho'', -, hsame⟩ := delivers_of_gist hc hgist ⟨o, ho, hs, rfl⟩
    rw [ho'] at ho''
    cases ho''
    exact hsame.symm

namespace Sample

/-- A package with the given attributes, in a group. -/
def setup (attributes : List (String × String)) : Element :=
  element "Wix" [] [
    element "Fragment" [("Id", "F")] [
      element "PackageGroup" [("Id", "G")] [element "ExePackage" attributes []]]]

theorem matched_setup {R : Element → Element → Prop}
    (htag : ∀ tag children children', R (.node tag children) (.node tag children'))
    {attributes attributes' : List (String × String)}
    (h : R (element "ExePackage" attributes []) (element "ExePackage" attributes' [])) :
    (setup attributes).Matched R (setup attributes') := by
  have hpackage : (element "ExePackage" attributes []).Matched R
      (element "ExePackage" attributes' []) := .node h .nil
  exact .node (htag _ _ _) (.cons (.node (htag _ _ _) (.cons (.node (htag _ _ _)
    (.cons hpackage .nil)) .nil)) .nil)

/-- A package with both names of a command line. -/
def aliased : Element :=
  setup [("Id", "E"), ("SourceFile", "e.exe"), ("Permanent", "yes"), ("InstallCommand", "/old"),
    ("InstallArguments", "/new")]

/-- The package with its attributes turned around, but for the two names. -/
def realigned : Element :=
  setup [("InstallCommand", "/old"), ("InstallArguments", "/new"), ("Permanent", "yes"),
    ("SourceFile", "e.exe"), ("Id", "E")]

/-- The package with the two names turned around. -/
def swapped : Element :=
  setup [("Id", "E"), ("SourceFile", "e.exe"), ("Permanent", "yes"), ("InstallArguments", "/new"),
    ("InstallCommand", "/old")]

end Sample

/-- A package whose attributes are turned around. -/
theorem order_of_attributes_aliased :
    (∀ s ∈ Sample.aliased.sites, s.element.Distinct) ∧
      Sample.aliased.Matched Element.Reordered Sample.realigned ∧
      ∃ o o', (Compiler.compileAs {} 0 Sample.aliased).result = .ok o ∧
        (Compiler.compileAs {} 0 Sample.realigned).result = .ok o' ∧ o.isSuccess ∧ o'.isSuccess ∧
          o.intermediate.symbols.length = 3 ∧ o.intermediate = o'.intermediate := by
  have hd : ∀ s ∈ Sample.aliased.sites, s.element.Distinct := by decide +kernel
  have hm : Sample.aliased.Matched Element.Reordered Sample.realigned :=
    Sample.matched_setup (fun _ _ _ => ⟨⟨rfl, rfl, .refl _⟩, fun _ _ _ _ _ => rfl⟩)
      ⟨⟨rfl, rfl, by decide +kernel⟩, fun _ _ _ => by decide +kernel⟩
  have h : (Compiler.compileAs {} 0 Sample.aliased).result = .ok _ := rfl
  have h' : (Compiler.compileAs {} 0 Sample.realigned).result = .ok _ := rfl
  exact ⟨hd, hm, _, _, h, h', by decide +kernel, by decide +kernel, by decide +kernel,
    (Compiler.order_of_attributes rfl hd hm).2 _ _ h (by decide +kernel) h' (by decide +kernel)⟩

/-- If the two names of a command line change their places, the other one counts. -/
theorem order_of_argument_names :
    (∀ s ∈ Sample.aliased.sites, s.element.Distinct) ∧
      Sample.aliased.Matched Element.Permuted Sample.swapped ∧
      ∃ o o', (Compiler.compileAs {} 0 Sample.aliased).result = .ok o ∧
        (Compiler.compileAs {} 0 Sample.swapped).result = .ok o' ∧ o.isSuccess ∧ o'.isSuccess ∧
          o.intermediate ≠ o'.intermediate := by
  refine ⟨by decide +kernel, Sample.matched_setup (fun _ _ _ => ⟨rfl, rfl, .refl _⟩)
    ⟨rfl, rfl, by decide +kernel⟩, ?_⟩
  exact ⟨_, _, rfl, rfl, by decide +kernel, by decide +kernel, by decide +kernel⟩

end Installer
