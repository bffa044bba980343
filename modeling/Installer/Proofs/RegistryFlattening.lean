import Installer.Proofs.Nesting
import Installer.Proofs.PayloadForms
import Installer.Proofs.RegistryTrees

/-! # Flat registries

Keys are only a way to write values down. If the values of a component are placed directly below it, each
with the root and the joined key that it has inside of its keys, then without extensions the document
still compiles to the same intermediate. The converse fails, since a key may have an error of its own, so
plans are compared in one direction (`Logged.Persists`). -/

namespace Installer

open Compile Planned

open Installer.Symbol (PackageKind Registry RegistryRoot RegistryValueType)

/-! ### What persists -/

namespace Logged

variable {α β : Type} {x y : Logged Step α}

/-- Unless the first planned value fails, the second one comes to the same. -/
def Persists (x y : Logged Step α) : Prop := ∀ z, x.gist = some z → y.gist = some z

theorem Persists.of_eq (h : x.gist = y.gist) : x.Persists y := by
  intro z hz
  rw [← h, hz]

theorem eq_of_gist {z : Logged Step α} (h : x.gist = some z) :
    x.All Step.Smooth ∧ z = ⟨x.log.filter Step.lasts, x.value⟩ := by
  obtain ⟨l, hl, rfl⟩ := Option.map_eq_some_iff.mp h
  obtain ⟨hsmooth, rfl⟩ := Step.gist_eq_some_iff.mp hl
  exact ⟨hsmooth, rfl⟩

/-- Planned values without errors come to the same. -/
theorem Persists.gist_eq (h : x.Persists y) (hs : x.All Step.Smooth) : x.gist = y.gist := by
  have hx : x.gist = some ⟨x.log.filter Step.lasts, x.value⟩ := by
    rw [gist, Step.gist_of_smooth hs, Option.map_some]
  rw [hx, h _ hx]

theorem Persists.bind (h : x.Persists y) {f f' : α → Logged Step β}
    (hf : (f x.value).Persists (f' x.value)) : (x >>= f).Persists (y >>= f') := by
  intro z hz
  rw [gist_bind] at hz ⊢
  obtain ⟨x', hx, hz⟩ := Option.bind_eq_some_iff.mp hz
  obtain ⟨w, hw, rfl⟩ := Option.map_eq_some_iff.mp hz
  obtain ⟨-, rfl⟩ := eq_of_gist hx
  rw [h _ hx, Option.bind_some, hf w hw, Option.map_some]

end Logged

/-! ### Flat components -/

/-- The attributes that say where a registry value is stored. -/
def placeNames : List String := ["Root", "Key"]

/-- Whether the attribute says where a registry value is stored. -/
def Attribute.isPlace (a : Attribute) : Bool := a.isCore && placeNames.contains a.name

/-- The attribute that names the root of a registry value. -/
def Site.rootAttribute (s : Site) : Attribute :=
  ⟨.unqualified "Root", (Element.rootAlong? (s.element :: s.between)).getD "", .none⟩

/-- The attribute that names the whole key of a registry value. -/
def Site.keyAttribute (s : Site) : Attribute :=
  ⟨.unqualified "Key", "\\".intercalate (Element.keysAlong (s.element :: s.between)), .none⟩

/-- A registry value with the root and the key that it has inside of the keys around it. -/
def Site.explicit (s : Site) : Element :=
  .node { s.element.tag with
    attributes := s.element.attributes.filter (!·.isPlace) ++ [s.rootAttribute, s.keyAttribute] }
    s.element.children

namespace Element

/-- The second document is the first one, where the registry elements of some components are replaced by
the values among them, with their roots and keys made explicit. -/
inductive RegistryFlattened : Element → Element → Prop
  | same {tag : Tag} {children children' : List Element}
      (h : List.Forall₂ RegistryFlattened children children') :
      RegistryFlattened (.node tag children) (.node tag children')
  | flattened {tag : Tag} {children children' : List Element}
      (hcomponent : tag.qname = QName.core "Component")
      (hvalues : children'.filter (·.isCore) =
        (node tag children).registryValues.map Site.explicit)
      (hforeign : children'.filter (!·.isCore) = children.filter (!·.isCore)) :
      RegistryFlattened (.node tag children) (.node tag children')

theorem RegistryFlattened.sameTag {e e' : Element} (h : e.RegistryFlattened e') : e.SameTag e' := by
  cases h <;> exact ⟨rfl, rfl, rfl, rfl⟩

theorem RegistryFlattened.sameHead {e e' : Element} (h : e.RegistryFlattened e') : e.SameHead e' :=
  h.sameTag.agrees.sameHead

end Element

/-! ### Explicit values -/

namespace Site

variable (s : Site)

theorem coreAttributes_explicit : s.explicit.coreAttributes =
    s.element.coreAttributes.filter (!placeNames.contains ·.name) ++
      [s.rootAttribute, s.keyAttribute] := by
  have hstays : (s.element.attributes.filter (!·.isPlace)).filter (·.isCore) =
      s.element.coreAttributes.filter (!placeNames.contains ·.name) := by
    simp only [Element.coreAttributes, List.filter_filter]
    refine List.filter_congr fun a _ => ?_
    cases ha : a.isCore <;> simp [Attribute.isPlace, ha]
  have hnew : [s.rootAttribute, s.keyAttribute].filter (·.isCore) =
      [s.rootAttribute, s.keyAttribute] := rfl
  rw [Element.coreAttributes, explicit, Element.attributes, Element.tag, List.filter_append, hstays,
    hnew]

/-- Nothing else is changed. -/
theorem agreesOn_explicit : s.element.AgreesOn (!placeNames.contains ·) s.explicit where
  qname := rfl
  range := rfl
  text := rfl
  attributes := by
    have hnew : [s.rootAttribute, s.keyAttribute].filter (!placeNames.contains ·.name) = [] := rfl
    rw [coreAttributes_explicit, List.filter_append, hnew, List.append_nil, List.filter_filter]
    simp only [Bool.and_self]

theorem last?_explicit {name : String} (h : name ∈ placeNames) :
    s.explicit.last? [name] =
      ([s.rootAttribute, s.keyAttribute].filter ([name].contains ·.name)).getLast? := by
  have hnone : (s.element.coreAttributes.filter (!placeNames.contains ·.name)).filter
      ([name].contains ·.name) = [] := by
    refine List.filter_eq_nil_iff.mpr fun a ha hname => ?_
    obtain rfl : a.name = name := by simpa using hname
    simp [h] at ha
  rw [Element.last?, coreAttributes_explicit, List.filter_append, hnone, List.nil_append]

end Site

namespace Compile

instance : Check.AllLocal registryValueChecks := by
  unfold registryValueChecks
  infer_instance

theorem registryValueFindings_explicit (t : Site) :
    registryValueFindings t.explicit = registryValueFindings t.element := by
  have hagree := t.agreesOn_explicit
  funext valueType
  unfold registryValueFindings
  rw [← hagree.value?_eq (.anyText "Value") (by decide), ← hagree.attribute?_eq (by decide),
    ← hagree.illegalValueBecause_eq]

namespace Stores

variable {component : String} {t : Site} {id : Identifier} {r : Registry}
  (h : Stores component t.element t.between id r)
include h

theorem value_rootAttribute : t.rootAttribute.value = Choice.keyword r.root := by
  rw [Site.rootAttribute, h.root_eq, Option.getD_some]

theorem value_keyAttribute : t.keyAttribute.value = r.key := h.key_eq.symm

theorem read_rootAttribute (e : Element) :
    Reader.choice RegistryRoot e t.rootAttribute = pure (some r.root) := by
  rw [Reader.choice, Reader.nonEmpty, h.value_rootAttribute]
  cases r.root <;> rfl

theorem read_keyAttribute (e : Element) :
    Reader.string .nonBlank e t.keyAttribute = pure (some r.key) := by
  obtain ⟨c, hc, hblank⟩ := h.ink
  have hallows : EmptyRule.nonBlank.allows r.key := by
    simpa [EmptyRule.allows, Text.isAllBlank] using ⟨c, hc, hblank⟩
  rw [Reader.string, h.value_keyAttribute, if_pos hallows]

theorem value?_root : t.explicit.value? (.choice RegistryRoot "Root") = some r.root := by
  have hlast : t.explicit.last? ["Root"] = some t.rootAttribute :=
    t.last?_explicit (by decide)
  simp [Element.value?, Field.choice, hlast, h.read_rootAttribute]

theorem value?_key : t.explicit.value? (.text "Key") = some r.key := by
  have hlast : t.explicit.last? ["Key"] = some t.keyAttribute := t.last?_explicit (by decide)
  simp [Element.value?, Field.text, hlast, h.read_keyAttribute]

/-- An explicit value has no errors. -/
theorem passes_explicit : t.explicit.Passes registryValueChecks := by
  have hagree := t.agreesOn_explicit.checkAttribute_eq registryValueChecks
  intro d hd
  obtain ⟨a, ha, hd⟩ := List.mem_flatMap.mp hd
  rw [t.coreAttributes_explicit, List.mem_append] at ha
  rcases ha with ha | ha
  · rw [← hagree] at hd
    exact h.passes d (List.mem_flatMap.mpr ⟨a, (List.mem_filter.mp ha).1, hd⟩)
  · have hclean : t.explicit.checkAttribute registryValueChecks a = [] := by
      simp only [List.mem_cons, List.not_mem_nil, or_false] at ha
      rcases ha with rfl | rfl
      · show Reader.findings (Reader.choice RegistryRoot) t.explicit t.rootAttribute = []
        rw [Reader.findings, h.read_rootAttribute, Logged.findings_pure]
      · show Reader.findings (Reader.string .nonBlank) t.explicit t.keyAttribute = []
        rw [Reader.findings, h.read_keyAttribute, Logged.findings_pure]
    rw [hclean] at hd
    cases hd

/-- **An explicit value defines the symbol of the value.** -/
theorem gist_openRegistryValue {scope : Scope} (hparent : scope.parent = .component component)
    {s : Site} (hs : s.element = t.explicit) :
    (openRegistryValue scope s).gist = some (pure ⟨scope, some {
      content := .nothing
      scope := { context := id.validContext }
      close := fun _ => [storeStep (id, r)] }⟩) := by
  obtain rfl : r.component = component := h.component_eq
  have hplace : Parent.registryPlace? scope.parent = some ⟨r.component, none, none⟩ := by
    rw [hparent]
    rfl
  have hagree := t.agreesOn_explicit
  have hname : t.explicit.value? (.anyText "Name") = r.name := by
    rw [← hagree.value?_eq _ (by decide), h.name_eq]
  have hvalue : t.explicit.value? (.anyText "Value") = r.value := by
    rw [← hagree.value?_eq _ (by decide), h.value_eq]
  have htype : (t.explicit.value? (.choice RegistryValueType "Type")).getD .string = r.valueType := by
    rw [← hagree.value?_eq _ (by decide), h.valueType_eq]
  have hkeyPath : (t.explicit.value? (.yesNo "KeyPath")).getD false = r.keyPath := by
    rw [← hagree.value?_eq _ (by decide), h.keyPath_eq]
  have hid : (t.explicit.identifier? .id).getD
      (registryValueId r.component r.root r.key (r.name.getD "")) = id := by
    rw [← hagree.identifier?_eq _ (by decide), h.id_eq]
  have hroot : t.explicit.has "Root" := Element.has_of_value? h.value?_root
  have hkey : t.explicit.has "Key" := Element.has_of_value? h.value?_key
  have henter : RegistryPlace.enter ⟨r.component, none, none⟩ t.explicit =
      ⟨r.component, some r.root, some r.key⟩ := by
    simp [RegistryPlace.enter, h.value?_root, h.value?_key, joinKey]
  have hchecks : Diagnostic.hasErrors (t.explicit.checkAttributes registryValueChecks) = false := by
    simpa [Diagnostic.hasErrors, Element.Passes] using h.passes_explicit
  have hfindings : Diagnostic.hasErrors (registryValueFindings t.explicit r.valueType) = false := by
    rw [registryValueFindings_explicit]
    simpa [Diagnostic.hasErrors] using h.findings
  rw [registryValueChecks] at hchecks
  simp only [openRegistryValue, hplace, hs, Logged.gist_bind, gist_report, gist_reportIf, hchecks,
    hroot, hkey, henter, htype, hfindings, hname, hvalue, hkeyPath, Option.getD_some, hid,
    gist_within, gist_leaf]
  rfl

end Stores

/-! ### Flat components in a plan -/

section Plans
variable {config : Config} {unit : Option SectionKind} {depth : Nat} {site : Site} {scope : Scope}

/-- Foreign children come to nothing. -/
theorem gist_planChildren_foreign {content : Content} {children : List Element}
    (h : ∀ c ∈ children, c.isCore = false) (position : Nat) (seen : List String) :
    (planChildren config unit depth content site scope position seen children).gist =
      some ⟨[], scope⟩ := by
  induction children generalizing position with
  | nil => rw [planChildren]; rfl
  | cons c children ih =>
    obtain ⟨hc, hchildren⟩ := List.forall_mem_cons.mp h
    rw [planChildren_of_foreign hc, Logged.gist_bind, Logged.gist_tell, Step.gist_offer,
      Option.map_some, Option.bind_some, ih hchildren]
    rfl

/-- At the limit of nesting there is nothing but foreign children. -/
theorem foreign_of_smooth {content : Content} (hcontent : content.absorbed? = none)
    (hlimit : config.recursionLimit ≤ depth) {children : List Element} {position : Nat}
    {seen : List String}
    (h : (planChildren config unit depth content site scope position seen children).All
      Step.Smooth) : ∀ c ∈ children, c.isCore = false := by
  induction children generalizing position seen with
  | nil => simp
  | cons child rest ih =>
    by_cases hcore : child.isCore
    · rw [planChildren] at h
      simp only [hcore, Bool.not_true, Bool.false_eq_true, ↓reduceIte] at h
      have hadmission : ∀ d, admissionOf content seen site.element child = .refuse d →
          d.isError = false := by
        intro d hd
        simp only [hd, Logged.all_bind, all_report] at h
        exact h.1 d List.mem_cons_self
      rcases admissionOf_of_smooth hadmission with ⟨-, hname, -⟩ | ⟨rule, hr⟩
      · rw [hcontent] at hname
        cases hname
      · simp only [hr, hlimit, ↓reduceIte] at h
        exact absurd (h (.halt .tooDeep) List.mem_cons_self) Step.smooth_halt
    · have hcore : child.isCore = false := by simpa using hcore
      rw [planChildren_of_foreign hcore, Logged.all_bind] at h
      exact List.forall_mem_cons.mpr ⟨hcore, ih h.2⟩

variable {component : String} (hparent : scope.parent = .component component)
include hparent

theorem Stores.gist_planElement {t : Site} {id : Identifier} {r : Registry}
    (h : Stores component t.element t.between id r) (position : Nat) (ancestors : List Element) :
    (planElement config unit depth .registryValue scope position ancestors t.explicit).gist =
      some ⟨[storeStep (id, r)], scope⟩ := by
  have hopen : (Rule.registryValue.open ⟨config, unit⟩ scope
      ⟨t.explicit, position, ancestors⟩).gist = _ := h.gist_openRegistryValue hparent rfl
  rw [Site.explicit] at hopen ⊢
  have hstep : Step.gist [storeStep (id, r)] = some [storeStep (id, r)] :=
    Step.gist_of_smooth fun s hs => by rw [List.mem_singleton.mp hs]; trivial
  simp only [planElement, Logged.gist_bind, hopen, Option.bind_some, Logged.value_pure,
    gist_planChildren_foreign h.foreign, Logged.gist_tell, hstep, Option.map_some,
    Logged.gist_pure]
  rfl

/-- **The values of a flat component** come to their symbols. -/
theorem gist_planChildren_explicit {children : List Element} {sites : List Site}
    {values : List (Identifier × Registry)}
    (hcore : children.filter (·.isCore) = sites.map Site.explicit)
    (hvalues : List.Forall₂ (fun t v => Stores component t.element t.between v.1 v.2) sites values)
    (hdepth : sites ≠ [] → ¬ config.recursionLimit ≤ depth) (position : Nat) (seen : List String) :
    (planChildren config unit depth .component site scope position seen children).gist =
      some ⟨values.map storeStep, scope⟩ := by
  induction children generalizing sites values position seen with
  | nil =>
    obtain rfl : sites = [] := by simpa using hcore.symm
    cases hvalues
    rw [planChildren]
    rfl
  | cons c children ih =>
    by_cases hc : c.isCore
    · rw [List.filter_cons_of_pos hc] at hcore
      cases hvalues with
      | nil => cases hcore
      | @cons t v sites values hv hvalues =>
        obtain ⟨rfl, hrest⟩ := List.cons.inj hcore
        have hname : t.explicit.name = "RegistryValue" := congrArg QName.name hv.qname
        have henters : Content.component.enters? seen t.explicit.name = some .registryValue := by
          rw [hname]
          rfl
        rw [planChildren_of_entered hc henters, if_neg (hdepth (List.cons_ne_nil t sites)),
          Logged.gist_bind, hv.gist_planElement hparent, Option.bind_some,
          ih hrest hvalues fun _ => hdepth (List.cons_ne_nil t sites)]
        rfl
    · have hc : c.isCore = false := by simpa using hc
      rw [List.filter_cons_of_neg (by simp [hc])] at hcore
      rw [planChildren_of_foreign hc, Logged.gist_bind, Logged.gist_tell, Step.gist_offer,
        Option.map_some, Option.bind_some, ih hcore hvalues hdepth]
      rfl

/-- **A component is the same when it is flat.** -/
theorem persists_planChildren_flattened {tag : Tag} {children children' : List Element}
    (hcomponent : tag.qname = QName.core "Component")
    (hvalues : children'.filter (·.isCore) =
      (Element.node tag children).registryValues.map Site.explicit) (site' : Site) :
    (planChildren config unit depth .component site scope 0 [] children).Persists
      (planChildren config unit depth .component site' scope 0 [] children') := by
  intro z hz
  obtain ⟨hsmooth, rfl⟩ := Logged.eq_of_gist hz
  obtain ⟨hcore, hname⟩ := Element.core_of_qname (e := .node tag children) hcomponent
  have hfits : Content.component.Fits scope := by
    simp [Content.fits_iff, Content.provides, hparent, Parent.registryPlace?]
  have hwalk := walkable config (.node tag children) unit depth .component site scope hfits
    (by intro name child hname; cases hname) hsmooth
  obtain ⟨hafter, values, hl, hstores⟩ := hwalk.stores_component hparent hcore hname
  have hdepth : (Element.node tag children).registryValues ≠ [] →
      ¬ config.recursionLimit ≤ depth := by
    intro hne hlimit
    refine hne ?_
    rw [Element.registryValues_eq hcore hname, Element.children,
      Site.reachedBelow_eq_nil _ (foreign_of_smooth rfl hlimit hsmooth), List.filter_nil]
  rw [Element.children] at hl hafter
  rw [gist_planChildren_explicit hparent hvalues hstores hdepth, hl, hafter]

end Plans

/-! ### Flat documents -/

theorem payloadAlike_of_flattened {kind : PackageKind} {c c' : Element}
    (h : c.RegistryFlattened c') : PayloadAlike kind c c' := by
  refine ⟨h.sameHead, fun hcore hname => ?_⟩
  cases h with
  | same h => exact ⟨⟨rfl, rfl, rfl, rfl⟩, h.imp fun _ _ => Element.RegistryFlattened.sameHead⟩
  | flattened hcomponent =>
    have hne : "Component" ≠ kind.payloadElementName := by cases kind <;> decide
    exact absurd ((congrArg QName.name hcomponent).symm.trans hname) hne

/-- Sites that are opened by a rule, where components are flat. -/
structure FlattenedSite (rule : Rule) (s s' : Site) : Prop where
  element : s.element.RegistryFlattened s'.element
  position : s.position = s'.position
  parent : s.parent.name = s'.parent.name
  component : s.element.qname = QName.core "Component" → rule = .component

theorem gist_open_flattened {rule : Rule} {s s' : Site} (h : FlattenedSite rule s s') (env : Env)
    (scope : Scope) : (rule.open env scope s).gist = (rule.open env scope s').gist := by
  obtain ⟨e, position, ancestors⟩ := s
  obtain ⟨e', position', ancestors'⟩ := s'
  have htag := h.element.sameTag
  refine Logged.gist_eq_of_bare ?_
  cases h.element with
  | same hchildren =>
    exact bare_open_of_children htag
      (fun _ => hchildren.imp fun _ _ => payloadAlike_of_flattened) rule env scope
      (fun _ => h.position) h.parent
  | flattened hcomponent =>
    obtain rfl := h.component hcomponent
    have hrule : ∀ kind, Rule.component ≠ .chainPackage kind := nofun
    exact bare_open_of_tag htag hrule env scope nofun h.parent

/-- The steps for an element persist if components are made flat. -/
def Flattens (config : Config) (e : Element) : Prop :=
  ∀ unit depth rule scope (s s' : Site), s.element = e → FlattenedSite rule s s' →
    (planElement config unit depth rule scope s.position s.ancestors s.element).Persists
      (planElement config unit depth rule scope s'.position s'.ancestors s'.element)

theorem component_of_gives {content : Content} {e : Element} {rule : Rule}
    (h : content.Gives e.name rule) (hname : e.qname = QName.core "Component") :
    rule = .component :=
  (Rule.name_eq_component_iff (Rule.named?_of_gives h)).mp (Element.core_of_qname hname).2

theorem persists_planChildren {config : Config} {unit : Option SectionKind} {depth : Nat}
    {content : Content} {s s' : Site} (hparent : s.element.name = s'.element.name)
    {children children' : List Element}
    (h : List.Forall₂ Element.RegistryFlattened children children') :
    (∀ child ∈ children, Flattens config child) → ∀ (position : Nat) (seen : List String)
      (scope : Scope),
      (planChildren config unit depth content s scope position seen children).Persists
        (planChildren config unit depth content s' scope position seen children') := by
  induction h with
  | nil =>
    intro _ position seen scope
    rw [planChildren, planChildren]
    exact .of_eq rfl
  | @cons child child' rest rest' hc hrest ih =>
    intro hplans position seen scope
    obtain ⟨hplan, hplans⟩ := List.forall_mem_cons.mp hplans
    have ih := ih hplans
    have hhead := hc.sameHead
    rw [planChildren, planChildren, ← hhead.isCore]
    cases hcore : child.isCore with
    | false => exact .bind (.of_eq (by simp)) (ih _ _ _)
    | true =>
      simp only [Bool.not_true, Bool.false_eq_true, ↓reduceIte, ← hhead.name]
      rcases admissionOf_cases content s.element s'.element hhead.name
          (rfl : seen.contains child.name = seen.contains child.name) with
        ⟨d, d', hadm, hadm', hd, hd'⟩ | ⟨hadm, hadm'⟩ | ⟨rule, hadm, hadm'⟩
      · simp only [hadm, hadm']
        refine .of_eq ?_
        simp [Diagnostic.hasErrors, hd, hd']
      · simp only [hadm, hadm']
        exact ih _ _ _
      · have hsite : FlattenedSite rule (s.child position child) (s'.child position child') :=
          { element := hc
            position := rfl
            parent := hparent
            component := component_of_gives (gives_of_accept hadm) }
        simp only [hadm, hadm']
        split_ifs
        · exact .of_eq rfl
        · exact .bind (hplan unit (depth + 1) rule scope _ _ rfl hsite) (ih _ _ _)

theorem flattens (config : Config) (e : Element) : Flattens config e := by
  induction e using Element.induct with
  | node tag children ih =>
    intro unit depth rule scope s s' hs h
    obtain ⟨_, position, ancestors⟩ := s
    obtain ⟨⟨tag', children'⟩, position', ancestors'⟩ := s'
    cases hs
    rw [planElement, planElement]
    refine .bind (.of_eq (gist_open_flattened h ⟨config, unit⟩ scope)) ?_
    cases hb : (rule.open ⟨config, unit⟩ scope ⟨.node tag children, position, ancestors⟩).value.body with
    | none => exact .of_eq rfl
    | some body =>
      refine .bind ?_ (.of_eq rfl)
      have hname := h.element.sameHead.name
      cases h.element with
      | same hchildren => exact persists_planChildren hname hchildren ih _ _ _
      | flattened hcomponent hvalues =>
        have hcontent := ((leads_open _ _ _ _).body body hb).1
        obtain rfl := h.component hcomponent
        obtain ⟨component, hparent⟩ : ∃ component, body.scope.parent = .component component := by
          cases hb
          exact ⟨_, rfl⟩
        rw [hcontent]
        exact persists_planChildren_flattened hparent hcomponent hvalues _

/-- A plan without errors comes to the same if components are made flat. -/
theorem gist_plan_flattened {config : Config} {root root' : Element}
    (h : root.RegistryFlattened root') (hs : ∀ s ∈ plan config root, s.Smooth) :
    Step.gist (plan config root) = Step.gist (plan config root') := by
  obtain ⟨hroot, -⟩ := exists_walk hs
  have hagree := h.sameTag.agrees
  have hroot' : root'.qname = QName.core "Wix" := hagree.qname.symm.trans hroot
  simp only [plan, hroot, hroot', bne_self_eq_false, Bool.false_eq_true, ↓reduceIte] at hs ⊢
  refine (Logged.gist_eq_iff.mp (Logged.Persists.gist_eq ?_ hs)).1
  refine .bind (.of_eq ?_) (.bind (.of_eq ?_) ?_)
  · rw [hagree.checkAttributes_eq]
  · rw [gist_offerAttributes, gist_offerAttributes]
  · have hname := hagree.name
    cases h with
    | flattened hcomponent => exact absurd (hcomponent.symm.trans hroot) (by decide)
    | same hchildren =>
      exact persists_planChildren hname hchildren (fun c _ => flattens config c) 0 [] {}

end Compile

/-- **Registry nesting is flattening.** Without extensions the values of the components of a document that
is compiled without errors are defined for the registry values below them, one for each and in order, under
the root that the innermost element names and the keys of all of them; and the document gives the same
intermediate if its components are made flat. -/
theorem Compiler.registry_flattens {c : Compiler} (hc : c.extensions = []) {k : UInt32}
    {root : Element} {o : Output} (h : (c.compileAs k root).result = .ok o) (hs : o.isSuccess) :
    ComponentsOf (root.reached.filter Site.isComponent)
        (o.intermediate.symbols.map fun s => (s.id, s.data)) ∧
      ∀ root', root.RegistryFlattened root' → c.Delivers k root' o.intermediate := by
  have hsmooth := smooth_of_isSuccess h hs
  refine ⟨?_, fun root' hflat => ?_⟩
  · rw [(yields_of_isSuccess hc h hs).symbols]
    exact componentsOf_plan hsmooth
  · exact delivers_of_gist hc (gist_plan_flattened hflat hsmooth) ⟨o, h, hs, rfl⟩

namespace Sample

/-- A fragment with a component that contains the given elements. -/
def registry (children : List Element) : Element :=
  element "Wix" [] [
    element "Fragment" [("Id", "F")] [
      element "Component" [("Id", "C"), ("Directory", "D")] children]]

/-- A foreign element. -/
def foreignElement (children : List Element) : Element := .node (tag "urn:notes" "Note" []) children

/-- Values in keys with a root of their own, beside a foreign element. -/
def nestedRegistry : Element :=
  registry [
    element "RegistryKey" [("Root", "HKLM"), ("Key", "Software")] [
      element "RegistryValue" [("Id", "V"), ("Value", "1")] [],
      element "RegistryKey" [("Key", "Acme"), ("Root", "HKCU")] [
        element "RegistryValue" [("Key", "App"), ("Id", "W"), ("Name", "N")] []]],
    foreignElement [],
    element "RegistryValue" [("Id", "X"), ("Root", "HKCR"), ("Key", "Acme")] []]

/-- The same values without keys. -/
def flatRegistry : Element :=
  registry [
    element "RegistryValue" [("Id", "V"), ("Value", "1"), ("Root", "HKLM"), ("Key", "Software")] [],
    element "RegistryValue" [("Id", "W"), ("Name", "N"), ("Root", "HKCU"),
      ("Key", "Software\\Acme\\App")] [],
    foreignElement [],
    element "RegistryValue" [("Id", "X"), ("Root", "HKCR"), ("Key", "Acme")] []]

theorem registryFlattened_flatRegistry : nestedRegistry.RegistryFlattened flatRegistry :=
  .same (.cons (.same (.cons (.flattened rfl rfl rfl) .nil)) .nil)

/-- A value inside of a foreign element of a component. -/
def veiledRegistry : Element :=
  registry [foreignElement [
    element "RegistryValue" [("Id", "V"), ("Root", "HKLM"), ("Key", "Software")] []]]

end Sample

/-- Three values at three depths, and the same ones in a flat component. -/
theorem registry_flattens_nestedRegistry : ∃ o,
    (Compiler.compileAs {} 0 Sample.nestedRegistry).result = .ok o ∧ o.isSuccess ∧
      o.intermediate.symbols.length = 4 ∧
      ComponentsOf (Sample.nestedRegistry.reached.filter Site.isComponent)
        (o.intermediate.symbols.map fun s => (s.id, s.data)) ∧
      Compiler.Delivers {} 0 Sample.flatRegistry o.intermediate := by
  have h : (Compiler.compileAs {} 0 Sample.nestedRegistry).result = .ok _ := rfl
  obtain ⟨hcomponents, hflat⟩ := Compiler.registry_flattens rfl h (by decide +kernel)
  exact ⟨_, h, by decide +kernel, by decide +kernel, hcomponents,
    hflat _ Sample.registryFlattened_flatRegistry⟩

/-- A value inside of a foreign element is a descendant of the component, and nothing is stored for it. -/
theorem registry_values_not_descendants : ∃ o,
    (Compiler.compileAs {} 0 Sample.veiledRegistry).result = .ok o ∧ o.isSuccess ∧
      (Sample.veiledRegistry.sites.filter fun s =>
        s.isRegistryValue && s.element.isCore && s.ancestors.any (·.name == "Component")).length = 1 ∧
      o.intermediate.symbols.filter (·.data.kind = .registry) = [] :=
  ⟨_, rfl, by decide +kernel, by decide +kernel, by decide +kernel⟩

end Installer
