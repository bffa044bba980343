import Installer.Proofs.Gist
import Installer.Proofs.SymbolBlocks
import Installer.Proofs.WellFormed.Databases

/-! # Registry trees

The values of a component may be nested in keys, and these in each other. A value is stored under the
root that the innermost element around it names and under the keys of all of them, from the outermost to
the innermost. `Sets` says so with the attributes as they are authored, and it holds for every value of a
component without errors: while the keys are entered, what they hand down follows their attributes
(`RegistryPlace.Follows`, `Walk.stores`). `ComponentsOf` is the relation between the components of a
document and its symbols, and it holds for every plan without errors (`componentsOf_plan`). -/

namespace Installer

open Compile Planned

open Installer.Symbol (Registry RegistryRoot RegistryValueType)

/-! ### Roots and keys -/

namespace Element

/-- The text of the last core attribute of a name. -/
def authored? (e : Element) (name : String) : Option String := (e.last? [name]).map (·.value)

/-- The root that the innermost of some elements inside of each other names, the innermost first. -/
def rootAlong? (es : List Element) : Option String := es.findSome? (·.authored? "Root")

/-- The keys of some elements inside of each other, the innermost first, from the outermost to the
innermost. -/
def keysAlong (es : List Element) : List String := es.reverse.filterMap (·.authored? "Key")

theorem rootAlong?_cons (e : Element) (es : List Element) :
    rootAlong? (e :: es) = (e.authored? "Root").or (rootAlong? es) := by
  rw [rootAlong?, List.findSome?_cons]
  cases e.authored? "Root" <;> rfl

theorem keysAlong_cons (e : Element) (es : List Element) :
    keysAlong (e :: es) = keysAlong es ++ (e.authored? "Key").toList := by
  rw [keysAlong, List.reverse_cons, List.filterMap_append, keysAlong]
  cases h : e.authored? "Key" <;> simp [h]

/-- A value that passes its check and can be written back is the text of the attribute. -/
theorem Passes.map_value? {α : Type} {e : Element} {checks : List (String × Check)} {f : Field α}
    {P : α → Prop} (hp : e.Passes checks) (hc : Reads checks f) (hf : f.read.Of P)
    {write : α → String} (hw : ∀ {a v}, (f.read e a).value = some v → write v = a.value) :
    (e.value? f).map write = e.authored? f.name := by
  cases ha : e.last? [f.name] with
  | none => simp [value?, authored?, ha]
  | some a =>
    obtain ⟨v, hv⟩ := (hp.at _).exists_read hc hf ha
    simp [value?, authored?, ha, hv, hw hv]

end Element

theorem Reader.eq_of_string {rule : EmptyRule} {e : Element} {a : Attribute} {v : String}
    (h : (Reader.string rule e a).value = some v) : v = a.value := by
  unfold Reader.string at h
  split_ifs at h <;> cases h
  rfl

theorem Reader.keyword_of_choice {α : Type} [Choice α] {e : Element} {a : Attribute} {v : α}
    (h : (Reader.choice α e a).value = some v) : Choice.keyword v = a.value := by
  unfold Reader.choice Reader.nonEmpty at h
  split_ifs at h
  · cases h
  · split at h
    · next hfind =>
      cases h
      simpa using List.find?_some hfind
    · cases h

/-! ### Places -/

namespace Compile

/-- A key from its parts, if there are some. -/
def joinedKey? (keys : List String) : Option String :=
  if keys = [] then none else some ("\\".intercalate keys)

theorem joinKey_joinedKey? (keys : List String) (key : Option String) :
    joinKey (joinedKey? keys) key = joinedKey? (keys ++ key.toList) := by
  by_cases hkeys : keys = []
  · cases key <;> simp [joinedKey?, hkeys, joinKey]
  · cases key with
    | none => simp [joinedKey?, hkeys, joinKey]
    | some k =>
      have hsnoc : "\\".intercalate (keys ++ [k]) = "\\".intercalate keys ++ "\\" ++ k := by
        rw [String.intercalate_append_of_ne_nil hkeys (by simp), String.intercalate_singleton]
      simp [joinedKey?, hkeys, joinKey, hsnoc]

theorem eq_of_joinedKey? {keys : List String} {key : String} (h : joinedKey? keys = some key) :
    key = "\\".intercalate keys := by
  unfold joinedKey? at h
  split_ifs at h
  exact (Option.some.inj h).symm

/-- The place that registry elements hand down follows their attributes. The innermost of them is the
first one. -/
structure RegistryPlace.Follows (place : RegistryPlace) (component : String) (es : List Element) :
    Prop where
  component_eq : place.component = component
  root_eq : place.root.map Choice.keyword = Element.rootAlong? es
  key_eq : place.key = joinedKey? (Element.keysAlong es)
  ink : ∀ k ∈ place.key, Text.HasInk k

namespace RegistryPlace.Follows

variable {place : RegistryPlace} {component : String} {e : Element} {es : List Element}
  {checks : List (String × Check)}

/-- A component has neither a root nor a key. -/
theorem start (component : String) : RegistryPlace.Follows ⟨component, none, none⟩ component [] :=
  ⟨rfl, rfl, rfl, by simp⟩

/-- The place follows the attributes of one more element. -/
theorem enter (h : place.Follows component es) (hp : e.Passes checks)
    (hroot : Element.Reads checks (.choice RegistryRoot "Root"))
    (hkey : Element.Reads checks (.text "Key")) : (place.enter e).Follows component (e :: es) where
  component_eq := h.component_eq
  root_eq := by
    have hvalue : (e.value? (.choice RegistryRoot "Root")).map Choice.keyword =
        e.authored? "Root" :=
      hp.map_value? hroot (Field.of_choice _ _) Reader.keyword_of_choice
    rw [Element.rootAlong?_cons, ← hvalue, ← h.root_eq,
      RegistryPlace.enter]
    cases e.value? (.choice RegistryRoot "Root") <;> rfl
  key_eq := by
    have hvalue : (e.value? (.text "Key")).map id = e.authored? "Key" :=
      hp.map_value? hkey (Field.of_text "Key") Reader.eq_of_string
    rw [Option.map_id_fun, id] at hvalue
    rw [Element.keysAlong_cons, ← hvalue, ← joinKey_joinedKey?, ← h.key_eq,
      RegistryPlace.enter]
  ink := by
    intro k hk
    have hsome : place.key.isSome ∨ (e.value? (.text "Key")).isSome := by
      by_contra hn
      simp only [not_or, Bool.not_eq_true, Option.isSome_eq_false_iff, Option.isNone_iff_eq_none]
        at hn
      simp [RegistryPlace.enter, hn, joinKey] at hk
    obtain ⟨k', hk', hink⟩ := exists_joinKey h.ink
      (fun k hk => Element.domain_of_value? (Field.of_text "Key") hk) hsome
    have heq : some k' = some k := hk'.symm.trans hk
    rwa [Option.some.inj heq] at hink

end RegistryPlace.Follows

/-- The root of a registry element, if it or an element around it has one. -/
theorem exists_root_enter {place : RegistryPlace} {e : Element} {checks : List (String × Check)}
    (hp : e.Passes checks) (hc : Element.Reads checks (.choice RegistryRoot "Root"))
    (h : place.root.isSome ∨ e.has "Root") : ∃ root, (place.enter e).root = some root := by
  cases hvalue : e.value? (.choice RegistryRoot "Root") with
  | some root => exact ⟨root, by simp [RegistryPlace.enter, hvalue]⟩
  | none =>
    have hhas : ¬ e.has "Root" := by
      intro hh
      obtain ⟨root, hroot, -⟩ := hp.exists_value? hc (Field.of_choice "Root" RegistryRoot) hh
      rw [hvalue] at hroot
      cases hroot
    obtain ⟨root, hroot⟩ := Option.isSome_iff_exists.mp (h.resolve_right hhas)
    exact ⟨root, by simp [RegistryPlace.enter, hvalue, hroot]⟩

/-- What is inherited or required is there. -/
theorem isSome_or_has_of_smooth {α : Type} {inherited : Option α} {e : Element} {name : String}
    (h : (reportIf (inherited.isNone && !e.has name) (e.missingAttribute name)).All Step.Smooth) :
    inherited.isSome ∨ e.has name := by
  rw [all_reportIf, Step.smooth_report, Element.isError_missingAttribute] at h
  cases inherited with
  | some a => exact .inl rfl
  | none => exact .inr (by simpa using h)

/-! ### Values -/

/-- **What a value sets.** The symbol of a value of a component, with the keys around the value, the
innermost first. -/
structure Sets (component : String) (e : Element) (keys : List Element) (id : Identifier)
    (r : Registry) : Prop where
  component_eq : r.component = component
  root_eq : Element.rootAlong? (e :: keys) = some (Choice.keyword r.root)
  key_eq : r.key = "\\".intercalate (Element.keysAlong (e :: keys))
  name_eq : r.name = e.value? (.anyText "Name")
  value_eq : r.value = e.value? (.anyText "Value")
  valueType_eq : r.valueType = (e.value? (.choice RegistryValueType "Type")).getD .string
  keyPath_eq : r.keyPath = (e.value? (.yesNo "KeyPath")).getD false
  id_eq : id = (e.identifier? .id).getD
    (registryValueId component r.root r.key (r.name.getD ""))

/-- The checks of a registry value. -/
def registryValueChecks : List (String × Check) := [
  Field.check .id,
  Field.check (.choice RegistryRoot "Root"),
  Field.check (.text "Key"),
  Field.check (.anyText "Name"),
  Field.check (.anyText "Value"),
  Field.check (.choice RegistryValueType "Type"),
  Field.check (.yesNo "KeyPath")]

/-- The symbol of a value without errors. -/
structure Stores (component : String) (e : Element) (keys : List Element) (id : Identifier)
    (r : Registry) : Prop extends Sets component e keys id r where
  qname : e.qname = QName.core "RegistryValue"
  foreign : ∀ c ∈ e.children, c.isCore = false
  passes : e.Passes registryValueChecks
  findings : ∀ d ∈ registryValueFindings e r.valueType, d.isError = false
  ink : Text.HasInk r.key

/-- The step that defines a value. -/
def storeStep (v : Identifier × Registry) : Step := .emit v.1 (.registry v.2)

section Openings
variable {scope : Scope} {site : Site} {place : RegistryPlace} {component : String}
  {keys : List Element} (hplace : Parent.registryPlace? scope.parent = some place)
  (hf : place.Follows component keys)
include hplace hf

/-- A key without errors leaves nothing behind and hands its attributes down. -/
theorem follows_of_smooth (h : (openRegistryKey scope site).All Step.Smooth) :
    (openRegistryKey scope site).log.filter Step.lasts = [] ∧
      (openRegistryKey scope site).value.outer = scope ∧
      ∀ body, (openRegistryKey scope site).value.body = some body →
        (∀ inner, body.close inner = []) ∧
        ∃ place', Parent.registryPlace? body.scope.parent = some place' ∧
          place'.Follows component (site.element :: keys) := by
  simp only [openRegistryKey, hplace, Logged.all_bind] at h ⊢
  refine ⟨?_, rfl, ?_⟩
  · simp [report, reportIf, offerAttributes, within, Step.lasts]
  · rintro body ⟨⟩
    exact ⟨fun _ => rfl, _, rfl, hf.enter (passes_of_smooth h.1) rfl rfl⟩

/-- A value without errors leaves its symbol behind. -/
theorem stores_of_smooth (h : (openRegistryValue scope site).All Step.Smooth)
    (hqname : site.element.qname = QName.core "RegistryValue")
    (hforeign : ∀ c ∈ site.element.children, c.isCore = false) :
    (openRegistryValue scope site).log.filter Step.lasts = [] ∧
      (openRegistryValue scope site).value.outer = scope ∧
      ∀ body, (openRegistryValue scope site).value.body = some body →
        ∃ v, (∀ inner, body.close inner = [storeStep v]) ∧
          Stores component site.element keys v.1 v.2 := by
  simp only [openRegistryValue, hplace, Logged.all_bind] at h ⊢
  refine ⟨?_, rfl, ?_⟩
  · simp [report, reportIf, leaf, offerAttributes, within, Step.lasts]
  · rintro body ⟨⟩
    obtain ⟨hchecks, hroot, hkey, hfindings, -⟩ := h
    rw [all_report] at hfindings
    have hp : site.element.Passes registryValueChecks := passes_of_smooth hchecks
    have hinner := hf.enter hp rfl rfl
    obtain ⟨root, hroot⟩ := exists_root_enter hp rfl (isSome_or_has_of_smooth hroot)
    obtain ⟨key, hkey, hink⟩ := exists_key_enter hf.ink hp rfl (isSome_or_has_of_smooth hkey)
    have hjoined := eq_of_joinedKey? (hinner.key_eq.symm.trans hkey)
    refine ⟨(_, _), fun _ => rfl, ?_⟩
    exact {
      component_eq := hinner.component_eq
      root_eq := by rw [← hinner.root_eq, hroot]; rfl
      key_eq := by rw [hkey]; exact hjoined
      name_eq := rfl
      value_eq := rfl
      valueType_eq := rfl
      keyPath_eq := rfl
      id_eq := by rw [← hinner.component_eq]; rfl
      qname := hqname
      foreign := hforeign
      passes := hp
      findings := hfindings
      ink := by rw [hkey]; exact hink }

end Openings

end Compile

/-- The element is a registry value. -/
def Site.isRegistryValue (s : Site) : Bool := s.element.name == "RegistryValue"

/-- What a component contains is a key or a value. -/
theorem Content.gives_component {name : String} {rule : Rule}
    (h : Content.component.Gives name rule) :
    (name, rule) = ("RegistryKey", .registryKey) ∨ (name, rule) = ("RegistryValue", .registryValue) := by
  obtain ⟨entry, hmem, hrule⟩ := h
  simp only [entries, List.mem_cons, Prod.mk.injEq, List.not_mem_nil, or_false] at hmem
  rcases hmem with ⟨rfl, rfl⟩ | ⟨rfl, rfl⟩
  · cases hrule; exact .inl rfl
  · cases hrule; exact .inr rfl

namespace Compile

section Walks
variable {config : Config} {unit : Option SectionKind} {content : Content} {site : Site}
  {scope after : Scope} {position : Nat} {seen : List String} {children : List Element}
  {l : List Step} (h : Walk config unit content site scope position seen children l after)
include h

/-- An element without content has foreign children only. -/
theorem Walk.foreign_of_nothing (hc : content = .nothing) :
    (∀ c ∈ children, c.isCore = false) ∧ l.filter Step.lasts = [] := by
  induction h with
  | nil => simp
  | foreign hcore _ ih =>
    obtain ⟨hrest, hl⟩ := ih hc
    exact ⟨List.forall_mem_cons.mpr ⟨hcore, hrest⟩, hl⟩
  | absorbed hcore hname => subst hc; cases hname
  | entered hcore hgives =>
    subst hc
    obtain ⟨entry, hmem, -⟩ := hgives
    cases hmem

/-- **The values of a component.** What lasts of the plan of the registry elements inside of some keys
of a component are the values among them, in order. It does not matter what is around the component. -/
theorem Walk.stores (hc : content = .component) {place : RegistryPlace} {component : String}
    {keys : List Element} (hplace : Parent.registryPlace? scope.parent = some place)
    (hf : place.Follows component keys) :
    after = scope ∧ ∃ values : List (Identifier × Registry),
      l.filter Step.lasts = values.map storeStep ∧
        ∀ (s : Site) (p : Nat) (around : List Element), s.isReached → s.lineage = keys ++ around →
          List.Forall₂ (fun t v => ∃ keys', t.ancestors = keys' ++ around ∧
              Stores component t.element keys' v.1 v.2)
            ((s.reachedBelow p children).filter Site.isRegistryValue) values := by
  induction h generalizing place keys with
  | nil => exact ⟨rfl, [], rfl, fun s p around _ _ => by simp⟩
  | foreign hcore _ ih =>
    obtain ⟨hafter, values, hl, hvalues⟩ := ih hc hplace hf
    refine ⟨hafter, values, hl, fun s p around hs hkeys => ?_⟩
    rw [Site.reachedBelow_of_foreign hcore]
    exact hvalues s _ around hs hkeys
  | absorbed hcore hname => subst hc; cases hname
  | @entered unit content site scope inner after position seen child rest rule o body l l' hcore
      hgives hneed hopen hsmooth hbody hchildren hclose hrest ihchildren ihrest =>
    subst hopen hc
    have hcontent := ((leads_open rule ⟨config, unit⟩ scope _).body body hbody).1
    rcases Content.gives_component hgives with heq | heq
    · obtain ⟨hname, rfl⟩ := Prod.mk.inj heq
      obtain ⟨hlog, houter, hbodies⟩ := follows_of_smooth hplace hf hsmooth
      obtain ⟨hclosed, place', hplace', hf'⟩ := hbodies body hbody
      obtain ⟨-, values, hl, hvalues⟩ := ihchildren hcontent hplace' hf'
      obtain ⟨hafter, values', hl', hvalues'⟩ := ihrest rfl (by rwa [Rule.open, houter]) hf
      refine ⟨hafter.trans houter, values ++ values', ?_, fun s p around hs hkeys => ?_⟩
      · simp only [List.filter_append, hl, hl', hclosed, List.map_append, List.append_nil]
        rw [Rule.open, hlog, List.nil_append]
      · have hchild := hvalues (s.child p child) 0 around (Site.isReached_child hs hcore)
          (by rw [Site.lineage_child, hkeys]; rfl)
        have hkey : ¬ (s.child p child).isRegistryValue := by
          simp [Site.isRegistryValue, Site.child, hname]
        rw [Site.reachedBelow_of_core hs hcore, List.filter_append, List.filter_cons_of_neg hkey]
        exact List.rel_append hchild (hvalues' s _ around hs hkeys)
    · obtain ⟨hname, rfl⟩ := Prod.mk.inj heq
      obtain ⟨hforeign, hl⟩ := hchildren.foreign_of_nothing hcontent
      have hqname : child.qname = QName.core "RegistryValue" := by
        rw [Element.qname_eq_core hcore, hname]
      obtain ⟨hlog, houter, hbodies⟩ := stores_of_smooth hplace hf hsmooth hqname hforeign
      obtain ⟨v, hclosed, hstores⟩ := hbodies body hbody
      obtain ⟨hafter, values, hl', hvalues⟩ := ihrest rfl (by rwa [Rule.open, houter]) hf
      refine ⟨hafter.trans houter, v :: values, ?_, fun s p around hs hkeys => ?_⟩
      · simp only [List.filter_append, hl, hl', hclosed, List.map_cons]
        rw [Rule.open, hlog]
        rfl
      · have hvalue : (s.child p child).isRegistryValue := by
          simp [Site.isRegistryValue, Site.child, hname]
        rw [Site.reachedBelow_of_core hs hcore, Site.reachedBelow_eq_nil _ hforeign,
          List.filter_append, List.filter_cons_of_pos hvalue]
        exact .cons ⟨keys, hkeys, hstores⟩ (hvalues s _ around hs hkeys)

end Walks

end Compile

/-! ### Components -/

/-- The elements between an element and the root of its tree, the innermost first. -/
def Site.between (s : Site) : List Element := s.ancestors.dropLast

/-- The registry values below a component with core elements between them only. -/
def Element.registryValues (e : Element) : List Site := e.reached.filter Site.isRegistryValue

/-- The element is a component. -/
def Site.isComponent (s : Site) : Bool := s.element.name == "Component"

theorem Element.registryValues_eq {e : Element} (hcore : e.isCore) (hname : e.name = "Component") :
    e.registryValues =
      ((Site.root e).reachedBelow 0 e.children).filter Site.isRegistryValue := by
  have hnot : ¬ (Site.root e).isRegistryValue := by
    simp [Site.isRegistryValue, Site.root, hname]
  rw [registryValues, reached_eq hcore, List.filter_cons_of_neg hnot]

/-- The values of a component without errors. -/
theorem Compile.Walk.stores_component {config : Config} {unit : Option SectionKind} {site : Site}
    {scope after : Scope} {e : Element} {component : String} {l : List Step}
    (h : Walk config unit .component site scope 0 [] e.children l after)
    (hparent : scope.parent = .component component) (hcore : e.isCore)
    (hname : e.name = "Component") :
    after = scope ∧ ∃ values : List (Identifier × Registry),
      l.filter Step.lasts = values.map storeStep ∧
        List.Forall₂ (fun t v => Stores component t.element t.between v.1 v.2) e.registryValues
          values := by
  have hplace : Parent.registryPlace? scope.parent = some ⟨component, none, none⟩ := by
    rw [hparent]
    rfl
  obtain ⟨hafter, values, hl, hvalues⟩ := h.stores rfl hplace (.start component)
  refine ⟨hafter, values, hl, ?_⟩
  rw [Element.registryValues_eq hcore hname]
  refine (hvalues (Site.root e) 0 [e] (Site.isReached_root hcore) rfl).imp ?_
  rintro t v ⟨keys, hkeys, hstores⟩
  rwa [Site.between, hkeys, List.dropLast_concat]

/-- A component without errors has an identifier and defines itself after its values. -/
theorem Compile.component_of_smooth {env : Env} {scope : Scope} {site : Site} {body : Body}
    (h : (within scope (openComponent env site)).All Step.Smooth)
    (hb : (within scope (openComponent env site)).value.body = some body) :
    ∃ id c, site.element.identifier? .id = some id ∧ body.scope.parent = .component id.id ∧
      ∀ inner, body.close inner = [.emit id (.component c)] := by
  simp only [openComponent, all_within, Logged.all_bind] at h
  cases hb
  cases hid : site.element.identifier? .id with
  | none =>
    have hmissing := h.2.1
    simp [requiredId, hid] at hmissing
  | some id =>
    have hvalue : (requiredId site.element).value = id := by simp [requiredId, hid]
    simp only [openComponent, Logged.value_bind, hvalue]
    exact ⟨id, _, rfl, rfl, fun _ => rfl⟩

/-- The symbols of a component: its values, for the registry values below it, one for each and in order,
and then the component itself. -/
inductive ComponentBlock (site : Site) : List Definition → Prop
  | mk {id : Identifier} {c : Symbol.Component} {values : List (Identifier × Registry)}
      (hid : site.element.identifier? .id = some id)
      (hvalues : List.Forall₂ (fun t v => Sets id.id t.element t.between v.1 v.2)
        site.element.registryValues values) :
      ComponentBlock site (values.map (fun v => (v.1, .registry v.2)) ++ [(id, .component c)])

/-- A list of symbols with the symbols of the components of the given elements, one after the other and
in order. No other symbol is a component or a value. -/
def ComponentsOf : List Site → List Definition → Prop :=
  BlocksOf [.component, .registry] ComponentBlock

theorem Rule.named?_component : named? "Component" = some .component := by decide +kernel

theorem Rule.name_eq_component_iff {name : String} {rule : Rule} (h : named? name = some rule) :
    name = "Component" ↔ rule = .component := by
  constructor
  · rintro rfl
    rw [named?_component] at h
    exact (Option.some.inj h).symm
  · rintro rfl
    have hall : ∀ content ∈ Content.all, ∀ p ∈ content.entries, p.2.rule? = some .component →
        p.1 = "Component" := by
      decide +kernel
    obtain ⟨content, entry, hmem, hrule⟩ := exists_gives_of_named? h
    exact hall content content.mem_all _ hmem hrule

theorem Content.absorbed?_ne_component {content : Content} {name : String}
    (h : content.absorbed? = some name) : name ≠ "Component" := by
  rintro rfl
  have hnone := Rule.named?_of_absorbed h
  rw [Rule.named?_component] at hnone
  cases hnone

/-- Only components have to do with the registry, outside of them. -/
theorem Content.Gives.not_registry {content : Content} {name : String} {rule : Rule}
    (h : content.Gives name rule) (hc : content ≠ .component) (hr : rule ≠ .component) :
    rule.content ≠ .component ∧
      ∀ kind ∈ [SymbolKind.component, .registry], kind ∉ rule.asides ++ rule.namesakes := by
  have hall : ∀ content ∈ Content.all, ∀ p ∈ content.entries,
      p.2.rule? = some .registryKey ∨ p.2.rule? = some .registryValue → content = .component := by
    decide +kernel
  obtain ⟨entry, hmem, hrule⟩ := h
  have hne := mt (hall content content.mem_all _ hmem) hc
  rw [hrule] at hne
  cases rule with
  | component => exact absurd rfl hr
  | registryKey | registryValue => simp at hne
  | _ => simp [Rule.content, Rule.asides, Rule.namesakes]

theorem Step.filterMap_symbol?_filter_lasts (l : List Step) :
    (l.filter lasts).filterMap symbol? = l.filterMap symbol? := by
  rw [List.filterMap_filter]
  refine List.filterMap_congr fun s _ => ?_
  cases s <;> rfl

namespace Compile

theorem Entered.eq_component {config : Config} {unit : Option SectionKind} {scope inner : Scope}
    {site : Site} {rule : Rule} {body : Body} {l : List Step}
    (h : Entered config unit scope inner site rule body l) (hs : site.isComponent) :
    rule = .component :=
  (Rule.name_eq_component_iff h.named).mp (beq_iff_eq.mp hs)

/-- Components define their values and themselves. -/
theorem definesBlocks_component (config : Config) :
    DefinesBlocks config [.component, .registry] ComponentBlock (· == "Component")
      (· ≠ .component) where
  absorbed h := beq_eq_false_iff_ne.mpr (Content.absorbed?_ne_component h)
  other hc hgives hname := by
    refine hgives.not_registry hc fun hrule => ?_
    rw [(Rule.name_eq_component_iff (Rule.named?_of_gives hgives)).mpr hrule] at hname
    cases hname
  below h hname := by
    obtain rfl := h.eq_component hname
    refine h.walk.not_below (A := fun content => content = .nothing ∨ content = .component)
      (fun h => beq_eq_false_iff_ne.mpr (Content.absorbed?_ne_component h)) (fun hc hgives => ?_)
      (.inr h.content) h.reached
    rcases hc with rfl | rfl
    · obtain ⟨entry, hmem, -⟩ := hgives
      cases hmem
    · rcases Content.gives_component hgives with heq | heq
      · obtain ⟨rfl, rfl⟩ := Prod.mk.inj heq
        exact ⟨by decide, .inr rfl⟩
      · obtain ⟨rfl, rfl⟩ := Prod.mk.inj heq
        exact ⟨by decide, .inl rfl⟩
  block {unit scope inner site rule body l} h hname := by
    obtain rfl := h.eq_component hname
    obtain ⟨id, c, hid, hparent, hclosed⟩ := component_of_smooth h.smooth h.body_eq
    have hwalk := h.walk
    rw [h.content] at hwalk
    obtain ⟨-, values, hl, hvalues⟩ := hwalk.stores_component hparent h.core (beq_iff_eq.mp hname)
    have hlog : (Rule.component.open ⟨config, unit⟩ scope site).log.filterMap Step.symbol? = [] :=
      List.eq_nil_iff_forall_not_mem.mpr fun d hd =>
        List.not_mem_nil ((introduces_open site scope .component ⟨config, unit⟩).log d hd)
    have hsymbols : l.filterMap Step.symbol? = values.map fun v => (v.1, .registry v.2) := by
      rw [← Step.filterMap_symbol?_filter_lasts, hl, List.filterMap_map]
      simp [Function.comp_def, storeStep, Step.symbol?]
    rw [List.filterMap_append, List.filterMap_append, hlog, hsymbols, hclosed, List.nil_append]
    exact .single (.mk hid (hvalues.imp fun _ _ h => h.toSets))

/-- **The components of a plan without errors.** -/
theorem componentsOf_plan {config : Config} {root : Element}
    (h : ∀ s ∈ plan config root, s.Smooth) :
    ComponentsOf (root.reached.filter Site.isComponent)
      ((plan config root).filterMap Step.symbol?) :=
  (definesBlocks_component config).blocksOf_plan nofun (by decide) h

end Compile

end Installer
