import Installer.Proofs.Congruence
import Installer.Proofs.Dispatch

/-! # Deprecated names

The command lines of a package have deprecated names beside their proper ones. The two mean the same: if
deprecated names are replaced by the proper ones, anywhere in a document, without extensions it compiles to
the same output, but for one warning less for each name that is replaced in a package that is read
(`Compiler.deprecated_names_agree`). -/

namespace Installer

open Compile Planned

open Installer.Symbol (PackageKind)

/-! ### Documents with other names -/

/-- The attribute with the name that replaces its own, if this is a deprecated one. -/
def Attribute.replaced (a : Attribute) : Attribute :=
  match replacement? a.name with
  | some name => { a with qname := { a.qname with name } }
  | none => a

/-- The same attribute, or a core attribute with its name replaced. -/
def Attribute.MayReplace (a a' : Attribute) : Prop := a' = a ∨ a.isCore ∧ a' = a.replaced

/-- The second element is the first one, where in a package with command lines deprecated names may be
replaced. -/
structure Element.Replaces (e e' : Element) : Prop where
  tag : { e'.tag with attributes := e.attributes } = e.tag
  attributes : List.Forall₂ Attribute.MayReplace e.attributes e'.attributes
  package : e'.attributes = e.attributes ∨
    ∃ kind : PackageKind, kind.hasArguments ∧ e.qname = QName.core kind.elementName

/-- The attributes whose names are replaced in the elements that are read, each with its element and with
the new attribute. -/
def Element.replacements (root root' : Element) : List (Element × Attribute × Attribute) :=
  (root.dispatched.zip root'.dispatched).flatMap fun p =>
    ((p.1.2.coreAttributes.zip p.2.2.coreAttributes).filter fun q =>
      q.1.name != q.2.name).map (p.1.2, ·)

/-! ### Attributes -/

namespace Attribute

theorem replaced_of_none {a : Attribute} (h : replacement? a.name = none) : a.replaced = a := by
  rw [replaced, h]

theorem name_replaced {a : Attribute} {name : String} (h : replacement? a.name = some name) :
    a.replaced.name = name := by
  rw [replaced, h]
  rfl

theorem isCore_replaced (a : Attribute) : a.replaced.isCore = a.isCore := by
  unfold replaced
  split <;> rfl

theorem value_replaced (a : Attribute) : a.replaced.value = a.value := by
  unfold replaced
  split <;> rfl

/-- What replaces an attribute: the attribute itself, or one for its deprecated name. -/
theorem MayReplace.cases {a a' : Attribute} (h : a.MayReplace a') :
    a' = a ∨ a.isCore ∧ a'.isCore ∧ a'.value = a.value ∧
      (a.name, a'.name) ∈ deprecatedNames ∧ replacement? a.name = some a'.name := by
  rcases h with rfl | ⟨hcore, rfl⟩
  · exact .inl rfl
  · cases hr : replacement? a.name with
    | none => exact .inl (replaced_of_none hr)
    | some name =>
      rw [name_replaced hr, isCore_replaced, value_replaced]
      obtain ⟨l₁, l₂, hl, -⟩ := List.lookup_eq_some_iff.mp hr
      exact .inr ⟨hcore, hcore, rfl, by rw [hl]; simp, rfl⟩

end Attribute

/-- Whether the name is not one of the two names of a command line. -/
def isPlain (name : String) : Bool := !argumentNames.flatten.contains name

theorem not_isPlain : ∀ p ∈ deprecatedNames, isPlain p.1 = false ∧ isPlain p.2 = false := by decide

namespace Element.Replaces

variable {e e' : Element} (h : e.Replaces e')
include h

theorem sameTag (ha : e'.attributes = e.attributes) : e.SameTag e' :=
  sameTag_of_attributes h.tag ha

theorem coreAttributes :
    List.Forall₂ Attribute.MayReplace e.coreAttributes e'.coreAttributes := by
  refine (forall₂_filter h.attributes fun {a a'} ha => ?_).imp fun _ _ => And.left
  rcases ha.cases with rfl | ⟨hcore, hcore', -⟩
  · rfl
  · rw [hcore, hcore']

theorem agreesOn : e.AgreesOn isPlain e' where
  qname := (sameHead_of_tag h.tag).qname
  range := (sameHead_of_tag h.tag).range
  text := (sameHead_of_tag h.tag).text
  attributes := by
    rw [← List.forall₂_eq_eq_eq]
    have hfilter := forall₂_filter (q := (isPlain ·.name)) h.coreAttributes
      fun {a a'} ha => by
        rcases ha.cases with rfl | ⟨-, -, -, hname, -⟩
        · rfl
        · rw [(not_isPlain _ hname).1, (not_isPlain _ hname).2]
    refine hfilter.imp ?_
    rintro a a' ⟨ha, hplain⟩
    rcases ha.cases with rfl | ⟨-, -, -, hname, -⟩
    · rfl
    · rw [(not_isPlain _ hname).1] at hplain
      cases hplain

theorem foreignAttributes_eq : e.foreignAttributes = e'.foreignAttributes := by
  rw [← List.forall₂_eq_eq_eq]
  have hfilter := forall₂_filter (q := (!·.isCore)) h.attributes
    fun {a a'} ha => by
      rcases ha.cases with rfl | ⟨hcore, hcore', -⟩
      · rfl
      · rw [hcore, hcore']
  refine hfilter.imp fun a a' ⟨ha, hforeign⟩ => ?_
  rcases ha.cases with rfl | ⟨hcore, -⟩
  · rfl
  · rw [hcore] at hforeign
    cases hforeign

/-- The last of the two names of a command line has the same value. -/
theorem last?_eq {names : List String} (hnames : names ∈ argumentNames) :
    (e.last? names).map (·.value) = (e'.last? names).map (·.value) := by
  have hpair : ∀ names ∈ argumentNames, ∀ p ∈ deprecatedNames,
      names.contains p.1 = names.contains p.2 := by decide
  have hfilter := forall₂_filter (q := (names.contains ·.name)) h.coreAttributes
    fun {a a'} ha => by
      rcases ha.cases with rfl | ⟨-, -, -, hname, -⟩
      · rfl
      · exact hpair names hnames _ hname
  have hvalues := map_eq_of_forall₂ hfilter (f := (·.value)) (g := (·.value)) fun {a a'} ha => by
    rcases ha.1.cases with rfl | ⟨-, -, hvalue, -⟩
    · rfl
    · exact hvalue.symm
  rw [last?, last?, ← List.getLast?_map, ← List.getLast?_map, hvalues]

end Element.Replaces

namespace Compile

/-! ### Openings -/

/-- The proper names of command lines are legal with any value. -/
theorem checkAttribute_replaced {kind : PackageKind} (h : kind.hasArguments) (config : Config)
    (e : Element) {a : Attribute} {name : String} (ha : (name, a.name) ∈ deprecatedNames) :
    e.checkAttribute (commonChecks ++ kindChecks config kind) a = [] := by
  have hlookup : ∀ p ∈ deprecatedNames, (commonChecks ++ kindChecks config kind).lookup p.2 =
      some (Field.anyText p.2).read.findings := by
    cases kind with
    | exe | bundle => simp only [deprecatedNames, List.forall_mem_cons]; exact ⟨rfl, rfl, rfl, by simp⟩
    | _ => cases h
  rw [Element.checkAttribute, hlookup _ ha]
  rfl

/-- Without warnings the attributes of packages are found right or wrong by either name. -/
theorem checkAttributes_replaced {e e' : Element} (h : e.Replaces e') {kind : PackageKind}
    (hkind : kind.hasArguments) (config : Config) :
    e.checkAttributes (commonChecks ++ kindChecks config.lenient kind) =
      e'.checkAttributes (commonChecks ++ kindChecks config.lenient kind) := by
  unfold Element.checkAttributes
  rw [List.flatMap_def, List.flatMap_def]
  refine congrArg List.flatten (map_eq_of_forall₂ h.coreAttributes fun {a a'} ha => ?_)
  rcases ha.cases with rfl | ⟨-, -, -, hname, hr⟩
  · rw [h.agreesOn.checkAttribute_eq]
  · rw [checkAttribute_replaced hkind _ e' hname, checkAttribute_package hkind, hr]
    rfl

theorem sameHead_of_replaced {e e' : Element} (h : e.Matched Element.Replaces e') : e.SameHead e' :=
  h.here.agreesOn.sameHead

/-- A payload element is no package, so that no name is replaced in it. -/
theorem payloadAlike_of_replaced {kind : PackageKind} {c c' : Element}
    (h : c.Matched Element.Replaces c') : PayloadAlike kind c c' := by
  refine ⟨sameHead_of_replaced h, fun hcore hname => ?_⟩
  rcases h.here.package with hsame | ⟨kind', -, hqname⟩
  · exact ⟨h.here.sameTag hsame, h.children.imp fun _ _ => sameHead_of_replaced⟩
  · have hne : kind'.elementName ≠ kind.payloadElementName := by
      cases kind' <;> cases kind <;> decide
    exact absurd ((Element.core_of_qname hqname).2.symm.trans hname) hne

theorem bare_open_replaced {rule : Rule} {s s' : Site} (h : MatchedSite Element.Replaces rule s s')
    (config : Config) (unit : Option SectionKind) (scope : Scope) :
    (rule.open ⟨config.lenient, unit⟩ scope s).bare =
      (rule.open ⟨config.lenient, unit⟩ scope s').bare := by
  have hchildren : ∀ kind, List.Forall₂ (PayloadAlike kind) s.element.children s'.element.children :=
    fun kind => h.element.children.imp fun _ _ => payloadAlike_of_replaced
  rcases h.element.here.package with hsame | ⟨kind, hkind, hname⟩
  · exact bare_open_of_children (h.element.here.sameTag hsame) hchildren rule _ scope
      (fun _ => h.position) h.parent
  · obtain ⟨content, hgiven⟩ := h.given
    rw [chainPackage_of_gives hgiven hname]
    have hargs : argumentsOf s.element = argumentsOf s'.element := by
      unfold argumentsOf
      rw [h.element.here.last?_eq (by decide), h.element.here.last?_eq (by decide),
        h.element.here.last?_eq (by decide)]
    exact bare_openChainPackage h.element.here.agreesOn (by decide)
      (checkAttributes_replaced h.element.here hkind config) hargs
      h.element.here.foreignAttributes_eq (hchildren kind)

/-- Without warnings the rules do not notice names that are replaced. -/
theorem indiscernible_replaced (config : Config) :
    Indiscernible config.lenient Element.Replaces where
  head h := h.agreesOn.sameHead
  root := by
    intro e e' h hroot
    rcases h.package with hsame | ⟨kind, -, hname⟩
    · exact h.sameTag hsame
    · exact absurd (hname.symm.trans hroot) (by cases kind <;> decide)
  opens h := bare_open_replaced h config

/-- Without warnings the plans of two documents are the same if names are replaced. -/
theorem bare_plan_replaced (config : Config) {root root' : Element}
    (h : root.Matched Element.Replaces root') :
    (plan config.lenient root).map Step.bare = (plan config.lenient root').map Step.bare :=
  (indiscernible_replaced config).bare_plan h

/-! ### Warnings -/

/-- Elements that are read by one rule, where names are replaced. -/
structure ReplacedEntry (p p' : Rule × Element) : Prop where
  rule : p.1 = p'.1
  element : p.2.Replaces p'.2
  package : ∀ kind : PackageKind, p.2.qname = QName.core kind.elementName → p.1 = .chainPackage kind

theorem forall₂_dispatchedOfList {children children' : List Element}
    (h : List.Forall₂ (Element.Matched Element.Replaces) children children')
    (hchildren : ∀ child ∈ children, ∀ rule child', child.Matched Element.Replaces child' →
      (∀ kind : PackageKind, child.qname = QName.core kind.elementName → rule = .chainPackage kind) →
        List.Forall₂ ReplacedEntry (child.dispatchedFrom rule) (child'.dispatchedFrom rule)) :
    ∀ (content : Content) (seen : List String), List.Forall₂ ReplacedEntry
      (Element.dispatchedOfList content seen children)
      (Element.dispatchedOfList content seen children') := by
  induction h with
  | nil =>
    intro content seen
    rw [Element.dispatchedOfList]
    exact .nil
  | @cons child child' rest rest' hc _ ih =>
    intro content seen
    obtain ⟨hchild, hrest⟩ := List.forall_mem_cons.mp hchildren
    have ih := ih hrest content
    have hhead := sameHead_of_replaced hc
    cases hcore : child.isCore with
    | false =>
      rw [Element.dispatchedOfList_of_foreign hcore,
        Element.dispatchedOfList_of_foreign (hhead.isCore.symm.trans hcore)]
      exact ih seen
    | true =>
      have hcore' := hhead.isCore.symm.trans hcore
      cases hr : content.enters? seen child.name with
      | none =>
        rw [Element.dispatchedOfList_of_passed hcore hr,
          Element.dispatchedOfList_of_passed hcore' (hhead.name ▸ hr), ← hhead.name]
        exact ih _
      | some rule =>
        rw [Element.dispatchedOfList_of_entered hcore hr,
          Element.dispatchedOfList_of_entered hcore' (hhead.name ▸ hr), ← hhead.name]
        exact List.rel_append
          (hchild rule child' hc fun _ => chainPackage_of_gives (gives_of_entered hr)) (ih _)

theorem forall₂_dispatchedFrom (e : Element) : ∀ rule e', e.Matched Element.Replaces e' →
    (∀ kind : PackageKind, e.qname = QName.core kind.elementName → rule = .chainPackage kind) →
      List.Forall₂ ReplacedEntry (e.dispatchedFrom rule) (e'.dispatchedFrom rule) := by
  induction e using Element.induct with
  | node tag children ih =>
    intro rule e' h hpackage
    rw [Element.dispatchedFrom_eq, Element.dispatchedFrom_eq]
    exact .cons ⟨rfl, h.here, hpackage⟩ (forall₂_dispatchedOfList h.children ih rule.content [])

theorem forall₂_dispatched {root root' : Element} (h : root.Matched Element.Replaces root') :
    List.Forall₂ ReplacedEntry root.dispatched root'.dispatched := by
  unfold Element.dispatched topElements
  rw [← (sameHead_of_replaced h).qname]
  split_ifs
  · rw [Element.dispatchedOfList]
    exact .nil
  · exact forall₂_dispatchedOfList h.children (fun child _ => forall₂_dispatchedFrom child) _ _

end Compile

theorem perm_flatMap_of_forall₂ {α β γ : Type} {R : α → β → Prop} {l : List α} {l' : List β}
    (h : List.Forall₂ R l l') {f : α → List γ} {g : β → List γ} {d : α × β → List γ}
    (hd : ∀ {a b}, R a b → (f a).Perm (d (a, b) ++ g b)) :
    (l.flatMap f).Perm ((l.zip l').flatMap d ++ l'.flatMap g) := by
  induction h with
  | nil => exact .nil
  | @cons a b l l' hab _ ih =>
    rw [List.flatMap_cons, List.zip_cons_cons, List.flatMap_cons, List.flatMap_cons]
    refine ((hd hab).append ih).trans ?_
    simp only [List.append_assoc]
    exact List.Perm.append_left _ (List.perm_append_comm_assoc _ _ _)

theorem map_filter_eq_flatMap {α β : Type} (q : α → Bool) (f : α → β) (l : List α) :
    (l.filter q).map f = l.flatMap fun a => if q a then [f a] else [] := by
  induction l with
  | nil => rfl
  | cons a l ih =>
    rw [List.filter_cons, List.flatMap_cons, ← ih]
    split_ifs <;> rfl

/-- The warnings about the names that are replaced in an element. -/
def Element.dropped (e e' : Element) : List Diagnostic :=
  (e.coreAttributes.zip e'.coreAttributes).flatMap fun q =>
    if q.1.name != q.2.name then [e.deprecatedAttribute q.1 q.2.name] else []

theorem Element.Replaces.perm_deprecations {e e' : Element} (h : e.Replaces e') :
    e.deprecations.Perm (e.dropped e' ++ e'.deprecations) := by
  have hnames : ∀ p ∈ deprecatedNames, p.1 ≠ p.2 ∧ replacement? p.2 = none := by decide
  have hsame : e.deprecatedAttribute = e'.deprecatedAttribute := by
    funext a name
    simp only [deprecatedAttribute, h.agreesOn.qualify_eq, h.agreesOn.name]
  refine perm_flatMap_of_forall₂ h.coreAttributes fun {a a'} ha => ?_
  rcases ha.cases with rfl | ⟨-, -, -, hname, hr⟩
  · simp [hsame]
  · obtain ⟨hne, hnone⟩ := hnames _ hname
    simp [hr, hnone, hne]

theorem Element.dropped_of_eq {e e' : Element} (h : e'.attributes = e.attributes) :
    e.dropped e' = [] := by
  have hcore : e'.coreAttributes = e.coreAttributes := congrArg (List.filter _) h
  rw [dropped, hcore]
  generalize e.coreAttributes = l
  generalize e.deprecatedAttribute = warning
  induction l with
  | nil => rfl
  | cons a l ih => simpa using ih

theorem Compile.ReplacedEntry.perm_warnings {config : Config} (hw : config.deprecationWarnings)
    {p p' : Rule × Element} (h : ReplacedEntry p p') :
    (p.1.warnings config p.2).Perm (p.2.dropped p'.2 ++ p'.1.warnings config p'.2) := by
  have hperm := h.element.perm_deprecations
  rw [← h.rule]
  rcases h.element.package with hsame | ⟨kind, hkind, hname⟩
  · rw [Element.dropped_of_eq hsame, List.nil_append] at hperm ⊢
    cases p.1 with
    | chainPackage kind =>
      dsimp only [Rule.warnings]
      split_ifs
      · exact hperm
      · exact .refl _
    | _ => exact .refl _
  · rw [h.package kind hname]
    simpa [Rule.warnings, hw, hkind] using hperm

/-- Of the warnings about the elements that are read, those about the replaced names are lost. -/
theorem perm_warnings {config : Config} (hw : config.deprecationWarnings) {root root' : Element}
    (h : root.Matched Element.Replaces root') :
    (root.dispatched.flatMap fun p => p.1.warnings config p.2).Perm
      ((root.replacements root').map (fun q => q.1.deprecatedAttribute q.2.1 q.2.2.name) ++
        root'.dispatched.flatMap fun p => p.1.warnings config p.2) := by
  have hlost : (root.replacements root').map (fun q => q.1.deprecatedAttribute q.2.1 q.2.2.name) =
      (root.dispatched.zip root'.dispatched).flatMap fun p => p.1.2.dropped p.2.2 := by
    rw [Element.replacements, List.map_flatMap]
    refine congrArg (List.flatMap · _) (funext fun p => ?_)
    rw [List.map_map, map_filter_eq_flatMap]
    rfl
  rw [hlost]
  exact perm_flatMap_of_forall₂ (forall₂_dispatched h) fun hp => hp.perm_warnings hw

/-- **Deprecated names mean the same.** The setting decides about the warnings alone, with any
extensions. Without extensions, a compile without the setting gives the output with it, less the warnings;
and if deprecated names of command lines are replaced, the outputs are the same but for the warnings, of
which just those about the replaced names of packages that are read are lost. -/
theorem Compiler.deprecated_names_agree (c : Compiler) (k : UInt32) (root : Element) :
    ((c.compileAs k root).result.map Output.lenient =
        (c.lenient.compileAs k root).result.map Output.lenient ∧
      (c.compileAs k root).deliveries = (c.lenient.compileAs k root).deliveries) ∧
    (c.extensions = [] →
      (c.lenient.compileAs k root).result = (c.compileAs k root).result.map Output.lenient ∧
      ∀ root', root.Matched Element.Replaces root' →
        (c.compileAs k root').result.map Output.lenient =
          (c.compileAs k root).result.map Output.lenient ∧
        ∀ o o', (c.compileAs k root).result = .ok o → (c.compileAs k root').result = .ok o' →
          c.config.deprecationWarnings → o.diagnostics.Perm
            ((root.replacements root').map (fun q => q.1.deprecatedAttribute q.2.1 q.2.2.name) ++
              o'.diagnostics)) := by
  refine ⟨c.compileAs_lenient k root, fun hc => ⟨result_lenient hc k root, fun root' h => ?_⟩⟩
  have hlenient : (c.lenient.compileAs k root').result = (c.lenient.compileAs k root).result := by
    have hc' : c.lenient.extensions = [] := hc
    unfold compileAs
    rw [hc', ← Run.steps_bare, ← Run.steps_bare _ (plan _ root)]
    exact congrArg (fun l => (Run.steps [] { compilation := k } l).outcome.result)
      (bare_plan_replaced c.config h).symm
  have hresult : (c.compileAs k root').result.map Output.lenient =
      (c.compileAs k root).result.map Output.lenient := by
    rw [← result_lenient hc, ← result_lenient hc, hlenient]
  refine ⟨hresult, fun o o' ho ho' hw => ?_⟩
  have hkept : Diagnostic.lenient o'.diagnostics = Diagnostic.lenient o.diagnostics := by
    rw [ho, ho'] at hresult
    exact congrArg Output.diagnostics (Except.ok.inj hresult)
  have hlost := perm_warnings hw h
  rw [← deprecations_eq hc ho, ← deprecations_eq hc ho'] at hlost
  refine (List.filter_append_perm Diagnostic.isDeprecation _).symm.trans
    ((hlost.append_right _).trans ?_)
  rw [List.append_assoc]
  refine List.Perm.append_left _ ?_
  rw [← Diagnostic.lenient, ← hkept]
  exact List.filter_append_perm Diagnostic.isDeprecation _

namespace Sample

/-- A package with the given names of command lines, and one in a foreign note, which is not read. -/
def commands (install uninstall : String) : Element :=
  element "Wix" [] [
    element "Fragment" [("Id", "F")] [
      element "PackageGroup" [("Id", "G")] [
        element "ExePackage" [("Id", "E"), ("SourceFile", "e.exe"), ("DetectCondition", "found"),
          (install, "/i"), (uninstall, "/u"), ("RepairCommand", "/r")] [],
        .node (tag "notes" "Note" []) [element "ExePackage" [(install, "/i")] []]]]]

theorem replaces_commands : (commands "InstallCommand" "UninstallCommand").Matched Element.Replaces
    (commands "InstallArguments" "UninstallArguments") := by
  have htag : ∀ tag children children',
      Element.Replaces (.node tag children) (.node tag children') :=
    fun tag _ _ => ⟨rfl, List.forall₂_same.mpr fun _ _ => .inl rfl, .inl rfl⟩
  have hpackage : (element "ExePackage" [("Id", "E"), ("SourceFile", "e.exe"),
      ("DetectCondition", "found"), ("InstallCommand", "/i"), ("UninstallCommand", "/u"),
      ("RepairCommand", "/r")] []).Replaces
      (element "ExePackage" [("Id", "E"), ("SourceFile", "e.exe"), ("DetectCondition", "found"),
        ("InstallArguments", "/i"), ("UninstallArguments", "/u"), ("RepairCommand", "/r")] []) :=
    ⟨rfl, .cons (.inl rfl) (.cons (.inl rfl) (.cons (.inl rfl) (.cons (.inr ⟨rfl, rfl⟩)
      (.cons (.inr ⟨rfl, rfl⟩) (.cons (.inl rfl) .nil))))), .inr ⟨.exe, rfl, rfl⟩⟩
  have hstray : (element "ExePackage" [("InstallCommand", "/i")] []).Replaces
      (element "ExePackage" [("InstallArguments", "/i")] []) :=
    ⟨rfl, .cons (.inr ⟨rfl, rfl⟩) .nil, .inr ⟨.exe, rfl, rfl⟩⟩
  exact .node (htag _ _ _) (.cons (.node (htag _ _ _) (.cons (.node (htag _ _ _)
    (.cons (.node hpackage .nil) (.cons (.node (htag _ _ _) (.cons (.node hstray .nil) .nil))
      .nil))) .nil)) .nil)

end Sample

/-- Two of three deprecated names of a package are replaced, and one of a package that is not read. -/
theorem deprecated_names_agree_commands :
    ∃ o o', (Compiler.compileAs {} 0 (Sample.commands "InstallCommand" "UninstallCommand")).result =
        .ok o ∧
      (Compiler.compileAs {} 0 (Sample.commands "InstallArguments" "UninstallArguments")).result =
        .ok o' ∧
      o.isSuccess ∧ o.diagnostics.length = 4 ∧ o'.diagnostics.length = 2 ∧
      o.lenient = o'.lenient ∧
      ∃ l : List Diagnostic, l.length = 2 ∧ o.diagnostics.Perm (l ++ o'.diagnostics) := by
  have ho : (Compiler.compileAs {} 0
      (Sample.commands "InstallCommand" "UninstallCommand")).result = .ok _ := rfl
  have ho' : (Compiler.compileAs {} 0
      (Sample.commands "InstallArguments" "UninstallArguments")).result = .ok _ := rfl
  obtain ⟨hresult, hperm⟩ := ((Compiler.deprecated_names_agree {} 0 _).2 rfl).2 _
    Sample.replaces_commands
  rw [ho, ho'] at hresult
  exact ⟨_, _, ho, ho', by decide +kernel, by decide +kernel, by decide +kernel,
    (Except.ok.inj hresult).symm, _, by decide +kernel, hperm _ _ ho ho' rfl⟩

end Installer
