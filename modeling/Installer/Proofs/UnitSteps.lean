import Installer.Proofs.Kinds
import Installer.Proofs.WellFormed.Units

/-! # The steps for a unit

In a plan without errors the steps for a unit define what its section may hold (`UnitSteps`): the symbol of
the unit comes last and has the identifier of the section, the others are of the kinds that the section
allows and suit it, and of some kinds there is only one. The children of a unit are walked through
(`UnitWalk`), so that most of this is known of walks already. -/

namespace Installer

open Compile Planned

/-! ### What sections allow -/

namespace SectionKind

/-- The kind of the symbol that a section is defined by. Fragments are defined by none. -/
def unitKind? : SectionKind → Option SymbolKind
  | bundle => some .bundle
  | package => some .packageSummary
  | module => some .moduleSignature
  | patch => some .patch
  | fragment => none

/-- The kinds of the symbols that define sections. -/
def unitKinds : List SymbolKind := [.bundle, .packageSummary, .moduleSignature, .patch]

/-- The kinds of symbols that the rules define in a section. -/
def kinds : SectionKind → List SymbolKind
  | bundle => .bundle :: .dependencyProvider :: Content.bundleKinds
  | package => .packageSummary :: .dependencyProvider :: Content.databaseKinds
  | module => .moduleSignature :: Content.databaseKinds
  | patch => [.patch, .patchProperty]
  | fragment => Content.groupingKinds ++ Content.databaseKinds

end SectionKind

/-! ### What the steps define -/

/-- What the steps for a unit define. -/
structure UnitSteps (header : UnitHeader) (l : List Step) : Prop where
  unit : ∀ kind, header.kind.unitKind? = some kind →
    ∃ (before : List Step) (id : Identifier) (data : Symbol.Data),
      l = before ++ [.emit id data, .closeUnit] ∧ data.kind = kind ∧ header.id = some id.id ∧
        ∀ d ∈ before.filterMap Step.symbol?, d.2.kind ∉ SectionKind.unitKinds
  fragment : header.kind.unitKind? = none →
    ∀ d ∈ l.filterMap Step.symbol?, d.2.kind ∉ SectionKind.unitKinds
  kinds : ∀ d ∈ l.filterMap Step.symbol?, d.2.kind ∈ header.kind.kinds
  sole : header.kind = .bundle →
    ∀ kind ∈ SymbolKind.sole, countKind kind (l.filterMap Step.symbol?) ≤ 1
  suits : ∀ d ∈ l.filterMap Step.symbol?, d.2.Suits header.kind

theorem openedBy_append (l l' : List Step) :
    openedBy (l ++ l') = (openedBy l).or (openedBy l') := by
  simp [openedBy, List.findSome?_append]

theorem openedBy_reports (ds : List Diagnostic) (header : UnitHeader) (l : List Step) :
    openedBy (ds.map .report ++ .openUnit header :: l) = some header := by
  have hreports : openedBy (ds.map .report) = none := by simp [openedBy]
  rw [openedBy_append, hreports]
  rfl

theorem openedBy_report_bind {α : Type} (ds : List Diagnostic) (f : Unit → Planned α) :
    openedBy (report ds >>= f).log = openedBy (f ()).log := by
  have hreports : openedBy (report ds).log = none := by simp [openedBy, report]
  rw [Logged.log_bind, openedBy_append, hreports]
  rfl

theorem openedBy_openUnit_bind {α : Type} (header : UnitHeader) (f : Unit → Planned α) :
    openedBy (Logged.tell [.openUnit header] >>= f).log = some header := rfl

theorem openedBy_within (scope : Scope) (x : Planned Body) :
    openedBy (within scope x).log = openedBy x.log := by
  simp [within]

theorem sectionName_of_valid {id : Identifier} (h : id.isInvalid = false) :
    sectionName id = some id.id := by
  simp [sectionName, h]

/-- A unit that is no fragment defines its own symbol right before its section is closed, with the
identifier of the section. -/
theorem exists_own_of_unit {rule : Rule} (hu : rule.isUnit) (hn : rule.namesakes ≠ []) {env : Env}
    {scope : Scope} {site : Site} {header : UnitHeader} {body : Body}
    (hh : openedBy (rule.open env scope site).log = some header)
    (hb : (rule.open env scope site).value.body = some body) (inner : Scope) :
    ∃ (before : List Step) (id : Identifier) (data : Symbol.Data),
      body.close inner = before ++ [.emit id data, .closeUnit] ∧ data.kind ∈ rule.namesakes ∧
        (id.isInvalid = false → header.id = some id.id) := by
  cases rule with
  | fragment => exact absurd rfl hn
  | bundle =>
    simp only [Rule.open, openBundle, openedBy_within, openedBy_report_bind, openedBy_openUnit_bind,
      Option.some.injEq] at hh
    subst hh
    cases hb
    exact ⟨[], _, _, rfl, .head _, sectionName_of_valid⟩
  | package =>
    simp only [Rule.open, openPackage, openedBy_within, openedBy_report_bind, openedBy_openUnit_bind,
      Option.some.injEq] at hh
    subst hh
    cases hb
    exact ⟨_, _, _, rfl, .head _, fun _ => rfl⟩
  | module =>
    simp only [Rule.open, openModule, openedBy_within, openedBy_report_bind, openedBy_openUnit_bind,
      Option.some.injEq] at hh
    subst hh
    cases hb
    exact ⟨[], _, _, rfl, .head _, sectionName_of_valid⟩
  | patch =>
    simp only [Rule.open, openPatch, openedBy_within, openedBy_report_bind, openedBy_openUnit_bind,
      Option.some.injEq] at hh
    subst hh
    cases hb
    exact ⟨[], _, _, rfl, .head _, fun _ => rfl⟩
  | _ => cases hu

/-- What comes before the own symbol of an element is defined beside it. -/
theorem Introduces.mem_asides_of_concat {rule : Rule} {o : Planned Opening} (h : Introduces rule o)
    (hn : rule.namesakes ≠ []) {body : Body} (hb : o.value.body = some body) {inner : Scope}
    (hcloses : body.Closes inner) {ds : List Definition} {d : Definition}
    (hclose : (body.close inner).filterMap Step.symbol? = ds ++ [d]) :
    ∀ d ∈ ds, d.2.kind ∈ rule.asides := by
  obtain ⟨others, own, heq, hothers, hnone, -⟩ := h.close body hb inner
  obtain ⟨d', rfl⟩ := Option.ne_none_iff_exists'.mp (mt (hnone hcloses).mp hn)
  rw [heq] at hclose
  obtain ⟨rfl, -⟩ := List.append_inj' hclose rfl
  exact hothers

/-- What a unit defines is allowed in its section, and beside itself it defines no unit. -/
theorem Rule.kinds_of_unit {rule : Rule} {kind : SectionKind} (hk : rule.sectionKind? = some kind) :
    rule.namesakes = kind.unitKind?.toList ∧
      (∀ k ∈ rule.asides ++ rule.content.kinds, k ∉ SectionKind.unitKinds ∧ k ∈ kind.kinds) ∧
      (∀ k ∈ rule.namesakes, k ∈ kind.kinds) ∧
      ∀ k ∈ SymbolKind.sole, k ∉ rule.asides ∧ k ∉ rule.namesakes := by
  cases rule <;> cases hk <;> decide

/-- A unit in a plan without errors: it is opened, its children are walked through and it is closed. -/
structure UnitWalk (config : Config) (site : Site) (header : UnitHeader) (rule : Rule) (body : Body)
    (l : List Step) (inner : Scope) : Prop where
  kind : rule.sectionKind? = some header.kind
  opened : openedBy (rule.open ⟨config, none⟩ {} site).log = some header
  entered : (rule.open ⟨config, none⟩ {} site).value.body = some body
  children : Walk config (some header.kind) rule.content site body.scope 0 [] site.element.children l
    inner
  once : ∀ name rule', rule.content.entry? name = some (.single rule') →
    (site.element.children.countP fun c => c.isCore && c.name == name) ≤ 1
  closes : body.Closes inner
  named : ∀ id data, .emit id data ∈ body.close inner → id.isInvalid = false

section UnitWalk
variable {config : Config} {site : Site} {rule : Rule} {kind : SectionKind} {body : Body}

/-- The children of a unit are walked through in its section. -/
theorem walk_of_unit (hg : Content.document.Gives site.element.name rule)
    (hk : rule.sectionKind? = some kind)
    (hb : (rule.open ⟨config, none⟩ {} site).value.body = some body)
    (hopen : (rule.open ⟨config, none⟩ {} site).All Step.Smooth) {depth : Nat}
    (hinner : ∀ s ∈ (planChildren config (body.unit.or none) depth body.content site body.scope 0 []
      site.element.children).log, s.Smooth) :
    Walk config (some kind) rule.content site body.scope 0 [] site.element.children
      (planChildren config (body.unit.or none) depth body.content site body.scope 0 []
        site.element.children).log
      (planChildren config (body.unit.or none) depth body.content site body.scope 0 []
        site.element.children).value := by
  obtain ⟨hcontent, hunit, -⟩ := (leads_open rule _ _ _).body body hb
  have hfits : Content.document.Fits {} := by simp [Content.fits_iff, Content.provides]
  have hwalk := walkable config site.element _ depth _ site _
    ((fits_open hg hfits ⟨config, none⟩ site).2 body hb) (leafFirst_of_smooth hopen hb) hinner
  have hsome : body.unit.or none = some kind := by rw [hunit, hk]; rfl
  rw [hsome, hcontent] at hwalk ⊢
  exact hwalk

/-- What a unit defines when it is closed has valid identifiers. -/
theorem valid_of_unit (hg : Content.document.Gives site.element.name rule)
    (hb : (rule.open ⟨config, none⟩ {} site).value.body = some body)
    (hopen : (rule.open ⟨config, none⟩ {} site).All Step.Smooth) {depth : Nat}
    (hinner : ∀ s ∈ (planChildren config (body.unit.or none) depth body.content site body.scope 0 []
      site.element.children).log, s.Smooth) :
    ∀ id data, .emit id data ∈ body.close (planChildren config (body.unit.or none) depth body.content
      site body.scope 0 [] site.element.children).value → id.isInvalid = false := by
  have hstart : Scope.Sound {} := trivial
  have hcareful := careful_open hstart (fun he => (he ▸ hg).isName) fun s hs => (hopen s hs).clean
  obtain ⟨hscope, hclose⟩ := hcareful.body body hb
  have hsound := ((definingTrail_closed config).children _ _ _ _ _ _ _ _ hscope
    fun s hs => (hinner s hs).clean).2
  intro id data hmem
  have hnamed := (hclose _ hsound _ hmem id data rfl).1
  simpa [Identifier.isInvalid] using hnamed.1

end UnitWalk

theorem exists_unitWalk {config : Config} {root child : Element} {position : Nat}
    {header : UnitHeader} (hs : ∀ s ∈ childSteps config root position child, s.Smooth)
    (hh : sectionHeader? config root position child = some header) :
    ∃ rule body l inner,
      UnitWalk config ((Site.root root).child position child) header rule body l inner ∧
      childSteps config root position child = (rule.open ⟨config, none⟩ {}
        ((Site.root root).child position child)).log ++ (l ++ body.close inner) := by
  have hcore := ((block_childSteps config root position child).2 header hh).1
  unfold sectionHeader? at hh
  cases hr : topRule? child with
  | none =>
    rw [childSteps_of_refused hcore hr] at hh
    cases hh
  | some rule =>
    obtain ⟨kind, hk, -⟩ := sectionKind?_of_topRule? hr
    have hg : Content.document.Gives child.name rule :=
      @gives_of_accept _ [] child _ _ (by rw [admissionOf_document, hr])
    rw [childSteps_of_unit hcore hr] at hs hh ⊢
    split_ifs at hs hh ⊢
    · cases hh
    · have hunit := opensUnit_open hk ⟨config, none⟩ {} ((Site.root root).child position child)
      obtain ⟨body, hb, -⟩ := hunit.body
      obtain ⟨ds, header', mid, hlog, hkind, -⟩ := hunit.log.exists_eq
      have hplan : planElement config none 1 rule {} position [root] child = _ :=
        planElement_of_some hb
      rw [hplan] at hs hh ⊢
      obtain ⟨hopen, hs⟩ := List.forall_mem_append.mp hs
      obtain ⟨hinner, hclose⟩ := List.forall_mem_append.mp hs
      have hopened : openedBy (rule.open ⟨config, none⟩ {}
          ((Site.root root).child position child)).log = some header' := by
        rw [hlog, openedBy_reports]
      obtain rfl : header' = header := by
        have hfirst := (openedBy_append _ _).symm.trans hh
        change (openedBy (rule.open ⟨config, none⟩ {}
          ((Site.root root).child position child)).log).or _ = some header at hfirst
        rw [hopened] at hfirst
        exact Option.some.inj hfirst
      refine ⟨rule, body, _, _, ⟨by rw [hk, hkind], hopened, hb, ?_, ?_,
        Step.Smooth.closes hclose, ?_⟩, rfl⟩
      · exact walk_of_unit hg (by rw [hk, hkind]) hb hopen hinner
      · intro name rule' hentry
        have hcontent := ((leads_open rule _ _ _).body body hb).1
        exact countP_le_of_smooth _ _ _ _ _ (hcontent ▸ hentry) _ _ _ _ hinner
      · exact valid_of_unit hg hb hopen hinner

namespace UnitWalk

variable {config : Config} {site : Site} {header : UnitHeader} {rule : Rule} {body : Body}
  {l : List Step} {inner : Scope}

/-- The tables below a unit are those of its section. There is none in the scope of the unit itself. -/
theorem follows (h : UnitWalk config site header rule body l inner) :
    body.scope.Follows header.kind := by
  intro table hp
  obtain ⟨s, rfl, -⟩ := ((leads_open rule _ _ _).body body h.entered).2.2 table hp
  exact absurd h.kind (by simp [Rule.sectionKind?])

/-- What is defined before the children of a unit, below it and after them. -/
theorem mem_kinds (h : UnitWalk config site header rule body l inner) :
    (∀ d ∈ (rule.open ⟨config, none⟩ {} site).log.filterMap Step.symbol?, d.2.kind ∈ rule.asides) ∧
      (∀ d ∈ l.filterMap Step.symbol?, d.2.kind ∈ rule.content.kinds) ∧
      ∀ d ∈ (body.close inner).filterMap Step.symbol?,
        d.2.kind ∈ rule.asides ∨ d.2.kind ∈ rule.namesakes :=
  ⟨(introduces_open site {} rule ⟨config, none⟩).log, h.children.mem_kinds, fun _ hd =>
    (introduces_open site {} rule ⟨config, none⟩).kind_of_mem_close h.entered hd⟩

/-- The symbol of the unit is the last one. -/
theorem exists_own (h : UnitWalk config site header rule body l inner) {kind : SymbolKind}
    (hk : header.kind.unitKind? = some kind) :
    ∃ (before : List Step) (id : Identifier) (data : Symbol.Data),
      (rule.open ⟨config, none⟩ {} site).log ++ (l ++ body.close inner) =
        before ++ [.emit id data, .closeUnit] ∧ data.kind = kind ∧ header.id = some id.id ∧
      ∀ d ∈ before.filterMap Step.symbol?, d.2.kind ∉ SectionKind.unitKinds := by
  obtain ⟨hnamesakes, hbeside, -, -⟩ := Rule.kinds_of_unit h.kind
  rw [hk, Option.toList_some] at hnamesakes
  have hn : rule.namesakes ≠ [] := by simp [hnamesakes]
  have hu : rule.isUnit := by simp [Rule.isUnit, h.kind]
  obtain ⟨before, id, data, hclose, hdata, hid⟩ := exists_own_of_unit hu hn h.opened h.entered inner
  obtain ⟨hlog, hinner, -⟩ := h.mem_kinds
  have hvalid := h.named id data (by simp [hclose])
  have hsymbols : (body.close inner).filterMap Step.symbol? =
      before.filterMap Step.symbol? ++ [(id, data)] := by
    rw [hclose, List.filterMap_append]
    rfl
  have hbefore := (introduces_open site {} rule ⟨config, none⟩).mem_asides_of_concat hn h.entered
    h.closes hsymbols
  refine ⟨(rule.open ⟨config, none⟩ {} site).log ++ (l ++ before), id, data, by simp [hclose],
    by simpa [hnamesakes] using hdata, hid hvalid, fun d hd => ?_⟩
  simp only [List.filterMap_append, List.mem_append] at hd
  rcases hd with hd | hd | hd
  · exact (hbeside _ (List.mem_append_left _ (hlog d hd))).1
  · exact (hbeside _ (List.mem_append_right _ (hinner d hd))).1
  · exact (hbeside _ (List.mem_append_left _ (hbefore d hd))).1

/-- A bundle has one chain at most, and so on. -/
theorem countKind_le (h : UnitWalk config site header rule body l inner)
    (hbundle : header.kind = .bundle) {kind : SymbolKind} (hk : kind ∈ SymbolKind.sole) :
    countKind kind (((rule.open ⟨config, none⟩ {} site).log ++ (l ++ body.close inner)).filterMap
      Step.symbol?) ≤ 1 := by
  obtain ⟨-, -, -, hsole⟩ := Rule.kinds_of_unit h.kind
  obtain ⟨hasides, hnamesakes⟩ := hsole kind hk
  obtain ⟨name, rule', hname, hentry⟩ := SymbolKind.exists_entry_of_sole kind hk
  have hcontent : rule.content = .bundle := by
    have hrule := h.kind
    rw [hbundle] at hrule
    cases rule <;> cases hrule
    rfl
  have hrule := introduces_open site {} rule ⟨config, none⟩
  have hlog : countKind kind ((rule.open ⟨config, none⟩ {} site).log.filterMap Step.symbol?) = 0 :=
    countKind_eq_zero hrule.log hasides
  have hclose := hrule.countKind_close_le h.entered inner hasides
  rw [if_neg hnamesakes] at hclose
  have hwalk := h.children.countKind_le hcontent hk hname
  have honce := h.once name rule' (hcontent ▸ hentry)
  rw [List.filterMap_append, List.filterMap_append, countKind_append, countKind_append, hlog]
  omega

theorem unitSteps (h : UnitWalk config site header rule body l inner) :
    UnitSteps header ((rule.open ⟨config, none⟩ {} site).log ++ (l ++ body.close inner)) := by
  obtain ⟨hnamesakes, hbeside, hown, -⟩ := Rule.kinds_of_unit h.kind
  obtain ⟨hlog, hinner, hclose⟩ := h.mem_kinds
  have hall : ∀ d ∈ ((rule.open ⟨config, none⟩ {} site).log ++
      (l ++ body.close inner)).filterMap Step.symbol?,
      d.2.kind ∈ rule.asides ++ rule.content.kinds ∨ d.2.kind ∈ rule.namesakes := by
    intro d hd
    simp only [List.filterMap_append, List.mem_append] at hd ⊢
    rcases hd with hd | hd | hd
    · exact .inl (.inl (hlog d hd))
    · exact .inl (.inr (hinner d hd))
    · exact (hclose d hd).imp_left .inl
  refine ⟨fun kind hk => h.exists_own hk, fun hf d hd => ?_, fun d hd => ?_,
    fun hbundle kind hk => h.countKind_le hbundle hk, fun d hd => ?_⟩
  · rcases hall d hd with hk | hk
    · exact (hbeside _ hk).1
    · rw [hnamesakes, hf] at hk
      cases hk
  · rcases hall d hd with hk | hk
    · exact (hbeside _ hk).2
    · exact hown _ hk
  · have hc : rule ≠ .component := by
      rintro rfl
      cases h.kind
    have ha : ∀ k, rule ≠ .action k := by
      rintro k rfl
      cases h.kind
    obtain ⟨hopen, hown⟩ :=
      (introduces_open site {} rule ⟨config, none⟩).suits hc ha h.entered inner
    simp only [List.filterMap_append, List.mem_append] at hd
    rcases hd with hd | hd | hd
    · exact hopen d hd
    · exact h.children.suits rfl rule.content_ne_document h.follows d hd
    · exact hown d hd

end UnitWalk

end Installer
