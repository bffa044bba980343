import Installer.Proofs.Namesakes

/-! # What a section may hold

The content of an element decides which kinds of symbols are defined below it (`Content.kinds`), since it
gives the rules of the children and they decide the content below them. In a plan without errors some
symbols fit only into sections of some kinds (`Symbol.Data.Suits`): the actions of a sequence are in a table
of the module if the section is one, and only databases have components with a GUID that is generated
later. Children that may appear only once define their symbols only once (`Walk.countP_le`). -/

namespace Installer

open Compile Planned

/-! ### Kinds by content -/

namespace Content

/-- What is defined for the parts of a package. -/
def packageKinds : List SymbolKind := [.payload, .msiProperty, .slipstreamMsp, .exitCode]

/-- What is defined in a chain. -/
def chainKinds : List SymbolKind := .package :: .rollbackBoundary :: packageKinds

/-- What is defined for the parts that bundles and fragments have in common. -/
def groupingKinds : List SymbolKind :=
  [.bootstrapperApplication, .container, .packageGroup, .payloadGroup, .variableValue] ++ chainKinds

/-- What is defined in a bundle beside itself. -/
def bundleKinds : List SymbolKind :=
  [.chain, .bundleLog, .bundleUpdate, .relatedBundle] ++ groupingKinds

/-- What is defined in a database beside itself. -/
def databaseKinds : List SymbolKind :=
  [.component, .registry, .customAction, .property, .action, .suppressAction]

/-- The kinds of symbols that are defined below an element with this content. -/
def kinds : Content → List SymbolKind
  | document => [.bundle, .packageSummary, .moduleSignature, .patch, .dependencyProvider,
      .patchProperty] ++ bundleKinds ++ databaseKinds
  | fragment => groupingKinds ++ databaseKinds
  | bundle => bundleKinds
  | payloads => [.payload]
  | chainItems => chainKinds
  | package _ => packageKinds
  | component => [.registry]
  | database => databaseKinds
  | patch => [.patchProperty]
  | sequence => [.action, .suppressAction]
  | packageGroupRefs | nothing => []

/-- What a rule of a content defines, and what is defined below it, is defined below the content. -/
theorem kinds_spec (content : Content) : ∀ p ∈ content.entries, ∀ rule ∈ p.2.rule?,
    ∀ kind ∈ rule.asides ++ rule.namesakes ++ rule.content.kinds, kind ∈ content.kinds := by
  have h : ∀ content ∈ all, ∀ p ∈ content.entries, ∀ rule ∈ p.2.rule?,
      ∀ kind ∈ rule.asides ++ rule.namesakes ++ rule.content.kinds, kind ∈ content.kinds := by
    decide +kernel
  exact h content content.mem_all

theorem Gives.mem_kinds {content : Content} {name : String} {rule : Rule}
    (h : content.Gives name rule) {kind : SymbolKind}
    (hk : kind ∈ rule.asides ∨ kind ∈ rule.namesakes ∨ kind ∈ rule.content.kinds) :
    kind ∈ content.kinds := by
  obtain ⟨entry, hmem, hr⟩ := h
  refine content.kinds_spec _ hmem rule hr kind ?_
  simpa [or_assoc] using hk

/-- What extensions define is defined by no rule. -/
theorem extensionData_notMem_kinds (content : Content) : .extensionData ∉ content.kinds := by
  cases content with
  | package kind => cases kind <;> decide
  | _ => decide

end Content

theorem Introduces.kind_of_mem_close {rule : Rule} {o : Planned Opening} (h : Introduces rule o)
    {body : Body} (hb : o.value.body = some body) {inner : Scope} {d : Definition}
    (hd : d ∈ (body.close inner).filterMap Step.symbol?) :
    d.2.kind ∈ rule.asides ∨ d.2.kind ∈ rule.namesakes := by
  obtain ⟨others, own, hclose, hothers, -, hown⟩ := h.close body hb inner
  rw [hclose, List.mem_append, Option.mem_toList] at hd
  rcases hd with hd | hd
  · exact .inl (hothers d hd)
  · exact .inr (hown d hd).1

/-- **What is defined below an element is of the kinds of its content.** -/
theorem Compile.Walk.mem_kinds {config : Config} {unit : Option SectionKind} {content : Content}
    {site : Site} {scope after : Scope} {position : Nat} {seen : List String}
    {children : List Element} {l : List Step}
    (h : Walk config unit content site scope position seen children l after) :
    ∀ d ∈ l.filterMap Step.symbol?, d.2.kind ∈ content.kinds := by
  induction h with
  | nil => simp
  | foreign hcore _ ih => exact ih
  | absorbed hcore hname hseen hleaf _ ih => exact ih
  | @entered unit _ site scope inner _ position _ child rest rule o body l l' hcore hgives hneed
      hopen hsmooth hbody _ hclose _ ih ih' =>
    subst hopen
    have hrule := introduces_open (site.child position child) scope rule ⟨config, unit⟩
    have hcontent := ((leads_open rule ⟨config, unit⟩ scope _).body body hbody).1
    intro d hd
    simp only [List.filterMap_append, List.mem_append] at hd
    rcases hd with (hd | hd | hd) | hd
    · exact hgives.mem_kinds (.inl (hrule.log d hd))
    · exact hgives.mem_kinds (.inr (.inr (hcontent ▸ ih d hd)))
    · exact hgives.mem_kinds ((hrule.kind_of_mem_close hbody hd).imp_right .inl)
    · exact ih' d hd

/-! ### Symbols that suit a section -/

namespace Symbol

/-- Whether a table belongs to a merge module, by its name. -/
def SequenceTable.IsModule (t : SequenceTable) : Prop := "Module".toList <+: t.name.toList

theorem SequenceTable.isModule_iff {t : SequenceTable} : t.IsModule ↔ t.ofModule := by
  obtain ⟨s, b⟩ := t
  unfold IsModule
  cases b <;> cases s <;> decide

namespace Data

/-- The table that a scheduled action is in. -/
def table? : Data → Option SequenceTable
  | action a => some a.table
  | suppressAction a => some a.table
  | _ => none

/-- The GUID of a component. -/
def guid? : Data → Option String
  | component c => c.guid
  | _ => none

/-- A symbol that can be defined in sections of a kind: actions are in the tables of modules if and only
if the section is one, and a GUID is left to be generated only in databases. -/
structure Suits (data : Data) (kind : SectionKind) : Prop where
  table : ∀ t, data.table? = some t → (t.IsModule ↔ kind = .module)
  guid : data.guid? = some "*" → kind.isDatabase

/-- Most symbols suit all sections. -/
theorem suits_of_kind {data : Data} (kind : SectionKind)
    (h : data.kind ∉ [.component, .action, .suppressAction]) : data.Suits kind := by
  cases data with
  | component | action | suppressAction => exact absurd (by simp [Data.kind]) h
  | _ => exact ⟨nofun, nofun⟩

end Data

end Symbol

/-- Only components and actions define what does not suit all sections. -/
theorem Rule.notMem_of_ne {rule : Rule} (hc : rule ≠ .component) (ha : ∀ k, rule ≠ .action k) :
    ∀ kind ∈ rule.asides ++ rule.namesakes, kind ∉ [.component, .action, .suppressAction] := by
  cases rule with
  | component => exact absurd rfl hc
  | action k => exact absurd rfl (ha k)
  | _ => simp [asides, namesakes]

/-- The tables in a scope are those of a section of the given kind. -/
def Scope.Follows (scope : Scope) (kind : SectionKind) : Prop :=
  ∀ table, scope.parent = .sequence table → (table.ofModule ↔ kind = .module)

theorem Element.PassesAt.of_lookup {e : Element} {checks : List (String × Check)} {name : String}
    (hp : e.PassesAt checks name) {check : Check} (hc : checks.lookup name = some check)
    {a : Attribute} (ha : a ∈ e.coreAttributes) (hn : a.name = name) :
    ∀ d ∈ check e a, d.isError = false := by
  have h := hp a ha hn
  simpa only [Element.checkAttribute, hn, hc] using h

section Suits
variable {env : Env} {scope : Scope} {site : Site} {kind : SectionKind}

/-- A component without errors has a GUID to be generated only in a database. -/
theorem suits_component (hu : env.unit = some kind)
    (h : (within scope (openComponent env site)).All Step.Smooth) {c : Symbol.Component}
    (hc : c.guid = site.element.value? (.generatableGuid "Guid")) :
    (Symbol.Data.component c).Suits kind := by
  refine ⟨nofun, fun hg => ?_⟩
  simp only [openComponent, all_within, Logged.all_bind] at h
  have hv : site.element.value? (.generatableGuid "Guid") = some "*" := hc.symm.trans hg
  obtain ⟨a, ha, hread⟩ := Element.exists_read_of_value? hv
  obtain ⟨hmem, hname⟩ := Element.last?_eq_some ha
  have hlookup : [Field.check .id, componentGuidCheck env, Field.check (.reference "Directory"),
      Field.check (.choice Symbol.Bitness "Bitness"), Field.check (.yesNo "KeyPath")].lookup "Guid" =
        some (componentGuidCheck env).2 := rfl
  have hpass := ((passes_of_smooth h.1).at "Guid").of_lookup hlookup hmem hname
  -- outside of databases the check of the last attribute finds an error
  by_contra hdatabase
  have hout : env.inDatabase = false := by simpa [Env.inDatabase, hu] using hdatabase
  have hguid : (Reader.guid true site.element a).value = some "*" := hread
  simp only [componentGuidCheck, hguid, hout] at hpass
  exact absurd (hpass _ (List.mem_append_right _ List.mem_cons_self)) (by simp)

/-- An action is in the table of the sequence around it. -/
theorem suits_action (hf : scope.Follows kind) {k : ActionKind} {table : Symbol.SequenceTable}
    (hp : scope.parent = .sequence table) {action : String} :
    ∀ d ∈ (actionSteps k site.element table action).filterMap Step.symbol?, d.2.Suits kind := by
  have htable : table.IsModule ↔ kind = .module :=
    Symbol.SequenceTable.isModule_iff.trans (hf table hp)
  unfold actionSteps
  dsimp only
  split_ifs
  · simp only [List.filterMap_cons, List.filterMap_nil, Step.symbol?, List.forall_mem_singleton]
    exact ⟨by rintro _ ⟨⟩; exact htable, by rintro ⟨⟩⟩
  · simp only [List.filterMap_append, List.filterMap_map, Function.comp_def, Step.symbol?,
      List.filterMap_none, List.nil_append, List.filterMap_cons, List.filterMap_nil,
      List.forall_mem_singleton]
    exact ⟨by rintro _ ⟨⟩; exact htable, by rintro ⟨⟩⟩

/-- Elements that are neither components nor actions define what suits all sections. -/
theorem Introduces.suits {rule : Rule} {o : Planned Opening} (h : Introduces rule o)
    (hc : rule ≠ .component) (ha : ∀ k, rule ≠ .action k) {body : Body}
    (hb : o.value.body = some body) (inner : Scope) :
    (∀ d ∈ o.collect Step.symbol?, d.2.Suits kind) ∧
      ∀ d ∈ (body.close inner).filterMap Step.symbol?, d.2.Suits kind := by
  have hkinds := Rule.notMem_of_ne hc ha
  refine ⟨fun d hd => ?_, fun d hd => ?_⟩
  · exact Symbol.Data.suits_of_kind kind (hkinds _ (List.mem_append_left _ (h.log d hd)))
  · exact Symbol.Data.suits_of_kind kind
      (hkinds _ (List.mem_append.mpr (h.kind_of_mem_close hb hd)))

/-- **What an element defines without errors suits the section around it.** -/
theorem suits_open {rule : Rule} (hu : env.unit = some kind) (hf : scope.Follows kind)
    (h : (rule.open env scope site).All Step.Smooth) {body : Body}
    (hb : (rule.open env scope site).value.body = some body) (inner : Scope) :
    (∀ d ∈ (rule.open env scope site).collect Step.symbol?, d.2.Suits kind) ∧
      ∀ d ∈ (body.close inner).filterMap Step.symbol?, d.2.Suits kind := by
  have hrule := introduces_open site scope rule env
  by_cases hc : rule = .component
  · subst hc
    cases hb
    refine ⟨fun d hd => absurd (hrule.log d hd) (by simp [Rule.asides]), ?_⟩
    rintro d (_ | ⟨_, ⟨⟩⟩)
    exact suits_component hu h rfl
  by_cases ha : ∃ k, rule = .action k
  · obtain ⟨k, rfl⟩ := ha
    refine ⟨fun d hd => absurd (hrule.log d hd) (by simp [Rule.asides]), ?_⟩
    simp only [Rule.open, openAction] at hb
    split at hb
    · next table hp =>
      split_ifs at hb
      · cases hb
      · cases hb
        exact suits_action hf hp
    · cases hb
  · exact hrule.suits hc (fun k hk => ha ⟨k, hk⟩) hb inner

end Suits

theorem Rule.content_ne_document (rule : Rule) : rule.content ≠ .document := by
  cases rule <;> exact Content.noConfusion

/-- **What is defined below an element suits the section.** -/
theorem Compile.Walk.suits {config : Config} {unit : Option SectionKind} {content : Content}
    {site : Site} {scope after : Scope} {position : Nat} {seen : List String}
    {children : List Element} {l : List Step}
    (h : Walk config unit content site scope position seen children l after) {kind : SectionKind}
    (hu : unit = some kind) (hdoc : content ≠ .document) (hf : scope.Follows kind) :
    ∀ d ∈ l.filterMap Step.symbol?, d.2.Suits kind := by
  induction h with
  | nil => simp
  | foreign hcore _ ih => exact ih hu hdoc hf
  | absorbed hcore hname hseen hleaf _ ih => exact ih hu hdoc hf
  | @entered unit _ site scope inner _ position _ child rest rule o body l l' hcore hgives hneed
      hopen hsmooth hbody _ hclose _ ih ih' =>
    subst hopen hu
    have hleads := leads_open rule ⟨config, some kind⟩ scope (site.child position child)
    obtain ⟨hcontent, hunit, htable⟩ := hleads.body body hbody
    have hnone : body.unit = none := by
      rw [hunit]
      simpa [Rule.isUnit] using mt hgives.isUnit_iff.mp hdoc
    have hinner : body.scope.Follows kind := by
      intro table hp
      obtain ⟨s, -, rfl⟩ := htable table hp
      simp [Env.inModule]
    have houter : Scope.Follows _ kind := fun table hp => hf table (hleads.outer table hp)
    obtain ⟨hlog, hown⟩ := suits_open rfl hf hsmooth hbody inner
    intro d hd
    simp only [List.filterMap_append, List.mem_append] at hd
    rcases hd with (hd | hd | hd) | hd
    · exact hlog d hd
    · exact ih (by rw [hnone]; rfl) (hcontent ▸ rule.content_ne_document) hinner d hd
    · exact hown d hd
    · exact ih' rfl hdoc houter d hd

/-! ### Symbols that are defined once -/

/-- A bundle may have one child of this name only, which defines all symbols of the kind. -/
def SymbolKind.soleElement? : SymbolKind → Option String
  | chain => some "Chain"
  | bootstrapperApplication => some "BootstrapperApplication"
  | bundleLog => some "Log"
  | bundleUpdate => some "Update"
  | _ => none

/-- The kinds of symbols of which a bundle has one at most. -/
def SymbolKind.sole : List SymbolKind :=
  [.chain, .bootstrapperApplication, .bundleLog, .bundleUpdate]

theorem Content.Gives.sole_spec {name : String} {rule : Rule} (h : Content.bundle.Gives name rule) :
    ∀ kind ∈ SymbolKind.sole, kind ∉ rule.asides ∧ kind ∉ rule.content.kinds ∧
      (kind ∈ rule.namesakes → kind.soleElement? = some name) := by
  have hall : ∀ p ∈ Content.bundle.entries, ∀ rule ∈ p.2.rule?, ∀ kind ∈ SymbolKind.sole,
      kind ∉ rule.asides ∧ kind ∉ rule.content.kinds ∧
        (kind ∈ rule.namesakes → kind.soleElement? = some p.1) := by
    decide +kernel
  obtain ⟨entry, hmem, hr⟩ := h
  exact hall _ hmem rule hr

theorem SymbolKind.exists_entry_of_sole : ∀ kind ∈ sole, ∃ name rule,
    kind.soleElement? = some name ∧ Content.bundle.entry? name = some (.single rule) := by
  simp only [sole, List.forall_mem_cons]
  exact ⟨⟨_, _, rfl, rfl⟩, ⟨_, _, rfl, rfl⟩, ⟨_, _, rfl, rfl⟩, ⟨_, _, rfl, rfl⟩, by simp⟩

/-- How many symbols of a kind are defined. -/
def countKind (kind : SymbolKind) (ds : List Definition) : Nat := ds.countP (·.2.kind = kind)

theorem countKind_eq_zero {kind : SymbolKind} {ds : List Definition} {kinds : List SymbolKind}
    (h : ∀ d ∈ ds, d.2.kind ∈ kinds) (hk : kind ∉ kinds) : countKind kind ds = 0 := by
  simp only [countKind, List.countP_eq_zero, decide_eq_true_eq]
  intro d hd heq
  exact hk (heq ▸ h d hd)

theorem countKind_append (kind : SymbolKind) (ds ds' : List Definition) :
    countKind kind (ds ++ ds') = countKind kind ds + countKind kind ds' := List.countP_append

/-- An element defines one symbol in its own name at most. -/
theorem Introduces.countKind_close_le {rule : Rule} {o : Planned Opening} (h : Introduces rule o)
    {body : Body} (hb : o.value.body = some body) (inner : Scope) {kind : SymbolKind}
    (hk : kind ∉ rule.asides) :
    countKind kind ((body.close inner).filterMap Step.symbol?) ≤
      if kind ∈ rule.namesakes then 1 else 0 := by
  obtain ⟨others, own, hclose, hothers, -, hown⟩ := h.close body hb inner
  rw [hclose, countKind_append, countKind_eq_zero hothers hk]
  cases own with
  | none => simp [countKind]
  | some d =>
    have hkind := (hown d rfl).1
    by_cases heq : d.2.kind = kind
    · simp [countKind, heq, heq ▸ hkind]
    · simp [countKind, heq]

/-- A bundle defines no more symbols of a kind than it has children of the name for it. -/
theorem Compile.Walk.countKind_le {config : Config} {unit : Option SectionKind} {content : Content}
    {site : Site} {scope after : Scope} {position : Nat} {seen : List String}
    {children : List Element} {l : List Step}
    (h : Walk config unit content site scope position seen children l after)
    (hcontent : content = .bundle) {kind : SymbolKind} (hk : kind ∈ SymbolKind.sole) {name : String}
    (hname : kind.soleElement? = some name) :
    countKind kind (l.filterMap Step.symbol?) ≤
      children.countP fun c => c.isCore && c.name == name := by
  induction h with
  | nil => simp [countKind]
  | foreign hcore _ ih =>
    rw [List.countP_cons_of_neg (by simp [hcore])]
    exact ih hcontent
  | absorbed hcore habsorbed hseen hleaf _ ih =>
    subst hcontent
    cases habsorbed
  | @entered unit _ site scope inner _ position _ child rest rule o body l l' hcore hgives hneed
      hopen hsmooth hbody hchildren hclose _ _ ih' =>
    subst hopen hcontent
    have hrule := introduces_open (site.child position child) scope rule ⟨config, unit⟩
    have hbelow := ((leads_open rule ⟨config, unit⟩ scope _).body body hbody).1
    obtain ⟨hasides, hkinds, hsole⟩ := hgives.sole_spec kind hk
    have hlog : countKind kind ((rule.open ⟨config, unit⟩ scope
        (site.child position child)).log.filterMap Step.symbol?) = 0 :=
      countKind_eq_zero hrule.log hasides
    have hinner : countKind kind (l.filterMap Step.symbol?) = 0 :=
      countKind_eq_zero hchildren.mem_kinds (hbelow ▸ hkinds)
    have hown := hrule.countKind_close_le hbody inner hasides
    have hrest := ih' rfl
    simp only [List.filterMap_append, countKind_append, hlog, hinner, List.countP_cons, hcore,
      Bool.true_and, beq_iff_eq]
    split_ifs at hown with hmem
    · rw [hname, Option.some.injEq] at hsole
      rw [if_pos (hsole hmem).symm]
      omega
    · omega

/-- In a plan without errors, a child that may appear only once does. -/
theorem countP_le_of_smooth (config : Config) (unit : Option SectionKind) (depth : Nat)
    (content : Content) (site : Site) {name : String} {rule : Rule}
    (hentry : content.entry? name = some (.single rule)) (children : List Element) :
    ∀ (scope : Scope) (position : Nat) (seen : List String),
      (∀ s ∈ (planChildren config unit depth content site scope position seen children).log,
        s.Smooth) →
      (children.countP fun c => c.isCore && c.name == name) ≤ if name ∈ seen then 0 else 1 := by
  induction children with
  | nil => simp
  | cons child rest ih =>
    intro scope position seen hs
    rw [planChildren] at hs
    by_cases hcore : child.isCore
    · simp only [hcore, Bool.not_true, Bool.false_eq_true, ↓reduceIte] at hs
      by_cases hname : child.name = name
      · -- the child is read, and so there was none before and will be none after it
        subst hname
        by_cases hseen : child.name ∈ seen
        · simp only [admissionOf, hentry, List.contains_eq_mem, hseen, decide_true, ↓reduceIte,
            Logged.log_bind, List.forall_mem_append] at hs
          exact Bool.noConfusion
            (hs.1 (.report (site.element.tooManyChildren child)) (by simp [report]))
        · simp only [admissionOf, hentry, List.contains_eq_mem, hseen, decide_false,
            Bool.false_eq_true, ↓reduceIte] at hs
          split_ifs at hs
          · exact absurd (hs (.halt .tooDeep) (by simp)) Step.smooth_halt
          · have hrest := ih _ _ _ (List.forall_mem_append.mp hs).2
            simp only [List.mem_cons, true_or, ↓reduceIte] at hrest
            simp only [List.countP_cons, hcore, Bool.true_and, beq_self_eq_true, ↓reduceIte, hseen]
            omega
      · have hrest : ∀ scope, (∀ s ∈ (planChildren config unit depth content site scope
            (position + 1) (child.name :: seen) rest).log, s.Smooth) →
            (rest.countP fun c => c.isCore && c.name == name) ≤ if name ∈ seen then 0 else 1 := by
          intro scope hs
          simpa [Ne.symm hname] using ih scope _ _ hs
        rw [List.countP_cons_of_neg (by simp [hname])]
        split at hs
        · exact hrest _ hs
        · exact hrest _ (List.forall_mem_append.mp hs).2
        · split_ifs at hs
          · exact absurd (hs (.halt .tooDeep) (by simp)) Step.smooth_halt
          · exact hrest _ (List.forall_mem_append.mp hs).2
    · simp only [hcore, Bool.not_false, ↓reduceIte] at hs
      rw [List.countP_cons_of_neg (by simp [hcore])]
      exact ih _ _ _ (List.forall_mem_append.mp hs).2

end Installer
