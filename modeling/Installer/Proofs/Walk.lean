import Installer.Proofs.Outputs

/-! # Walks

In a plan without errors every core child of an element is read: by the rule that the content of the
element gives to its name, or together with the element, if it authors the payload of a package. A `Walk`
is the derivation of such a plan. It has one case for a foreign child, one for a child that was read
already and one for a child that is opened, walked through and closed, so that what holds of the steps
of a smooth plan is shown by induction on its walk. Elements of one name are read by one rule
(`Rule.named?`), or never by themselves. -/

namespace Installer

open Compile Planned

/-! ### Smooth openings -/

theorem Planned.not_smooth_halt (scope : Scope) (reason : Halt) :
    ¬ (halt scope reason).All Step.Smooth := by
  intro h
  exact Step.smooth_halt (h (.halt reason) (by simp [halt]))

theorem Planned.not_smooth_refuse (scope : Scope) (e e' : Element) :
    ¬ (refuse scope (e.unexpectedElement e')).All Step.Smooth := by
  intro h
  exact Bool.noConfusion (h (.report (e.unexpectedElement e')) (by simp [refuse, report]))

/-- A rule that neither gives up nor refuses its element goes on to the children. -/
theorem exists_body_of_smooth {rule : Rule} {env : Env} {scope : Scope} {site : Site}
    (h : (rule.open env scope site).All Step.Smooth) :
    ∃ body, (rule.open env scope site).value.body = some body := by
  cases rule with
  | packageGroupRef | payloadGroupRef | rollbackBoundary | payload | chainPackage kind =>
    simp only [Rule.open, openPackageGroupRef, openPayloadGroupRef, openRollbackBoundary,
      openPayload, openChainPackage] at h ⊢
    split at h
    · exact absurd h (not_smooth_halt _ _)
    · exact ⟨_, rfl⟩
  | msiProperty | slipstreamMsp | exitCode | arpEntry =>
    simp only [Rule.open, openMsiProperty, openSlipstreamMsp, openExitCode, openArpEntry] at h ⊢
    split at h
    · exact ⟨_, rfl⟩
    · exact absurd h (not_smooth_halt _ _)
  | registryKey | registryValue =>
    simp only [Rule.open, openRegistryKey, openRegistryValue] at h ⊢
    split at h
    · exact absurd h (not_smooth_halt _ _)
    · exact ⟨_, rfl⟩
  | action kind =>
    simp only [Rule.open, openAction] at h ⊢
    split at h
    · split_ifs at h ⊢
      · exact absurd h (not_smooth_refuse _ _ _)
      · exact ⟨_, rfl⟩
    · exact absurd h (not_smooth_refuse _ _ _)
  | _ => exact ⟨_, rfl⟩

/-- A rule of a content leaves the scope of the siblings fit for the content, and the scope of the
children fit for theirs. -/
theorem fits_open {content : Content} {name : String} {rule : Rule} (hg : content.Gives name rule)
    {scope : Scope} (hf : content.Fits scope) (env : Env) (site : Site) :
    content.Fits (rule.open env scope site).value.outer ∧
      ∀ body, (rule.open env scope site).value.body = some body →
        body.content.Fits body.scope := by
  by_cases hu : rule.isUnit
  · obtain ⟨kind, hk⟩ := Option.isSome_iff_exists.mp hu
    have h := opensUnit_open hk env scope site
    obtain ⟨body, hb, -, hfits, -⟩ := h.body
    refine ⟨by rwa [h.outer], fun body' hb' => ?_⟩
    rw [hb] at hb'
    cases hb'
    exact hfits
  · have h := tame_open hu env site (hf _ hg.provides)
    exact ⟨hf.like h.outer, fun body hb => (h.body body hb).2.1⟩

/-! ### What openings lead to -/

/-- How the children of the elements of a rule are read. -/
def Rule.content : Rule → Content
  | bundle => .bundle
  | package | module => .database
  | patch => .patch
  | fragment => .fragment
  | bootstrapperApplication | payloadGroup => .payloads
  | chain | packageGroup => .chainItems
  | container => .packageGroupRefs
  | chainPackage kind => .package kind
  | component | registryKey => .component
  | sequence _ => .sequence
  | _ => .nothing

/-- What an opening makes of the scope. The children are read as the rule says, and a sequence has the
table of its name in the section around it. -/
structure Leads (rule : Rule) (env : Env) (scope : Scope) (o : Opening) : Prop where
  outer : ∀ table, o.outer.parent = .sequence table → scope.parent = .sequence table
  body : ∀ body, o.body = some body → body.content = rule.content ∧
    body.unit = rule.sectionKind? ∧
      ∀ table, body.scope.parent = .sequence table →
        ∃ s, rule = .sequence s ∧ table = ⟨s, env.inModule⟩

theorem leads_open (rule : Rule) (env : Env) (scope : Scope) (site : Site) :
    Leads rule env scope (rule.open env scope site).value := by
  have hclosed : Leads rule env scope ⟨scope, none⟩ := ⟨fun _ h => h, by simp⟩
  cases rule with
  | packageGroupRef | payloadGroupRef | rollbackBoundary | payload | chainPackage kind =>
    simp only [Rule.open, openPackageGroupRef, openPayloadGroupRef, openRollbackBoundary,
      openPayload, openChainPackage]
    split
    · exact hclosed
    · exact ⟨fun _ h => h, by rintro _ ⟨⟩; exact ⟨rfl, rfl, by simp⟩⟩
  | msiProperty | slipstreamMsp | exitCode | arpEntry =>
    simp only [Rule.open, openMsiProperty, openSlipstreamMsp, openExitCode, openArpEntry]
    split
    · next hp => exact ⟨by simp [hp], by rintro _ ⟨⟩; exact ⟨rfl, rfl, by simp⟩⟩
    · exact hclosed
  | registryKey | registryValue =>
    simp only [Rule.open, openRegistryKey, openRegistryValue]
    split
    · exact hclosed
    · exact ⟨fun _ h => h, by rintro _ ⟨⟩; exact ⟨rfl, rfl, by simp⟩⟩
  | action kind =>
    simp only [Rule.open, openAction]
    split
    · split_ifs
      · exact hclosed
      · exact ⟨fun _ h => h, by rintro _ ⟨⟩; exact ⟨rfl, rfl, by simp⟩⟩
    · exact hclosed
  | bootstrapperApplication | customAction =>
    simp only [Rule.open, openBootstrapperApplication, openCustomAction]
    split <;> exact ⟨fun _ h => h, by rintro _ ⟨⟩; exact ⟨rfl, rfl, by simp⟩⟩
  | sequence s =>
    exact ⟨fun _ h => h, by rintro _ ⟨⟩; exact ⟨rfl, rfl, by rintro _ ⟨⟩; exact ⟨s, rfl, rfl⟩⟩⟩
  | _ => exact ⟨fun _ h => h, by rintro _ ⟨⟩; exact ⟨rfl, rfl, fun _ h => Parent.noConfusion h⟩⟩

/-- What the children of an element rely on is still there after them. -/
theorem fits_planChildren {rule : Rule} {env : Env} {scope : Scope} {site : Site} {body : Body}
    (hb : (rule.open env scope site).value.body = some body) (hf : body.content.Fits body.scope)
    (config : Config) (unit : Option SectionKind) (depth : Nat) (parent : Site) (position : Nat)
    (seen : List String) (children : List Element) : body.content.Fits
      (planChildren config unit depth body.content parent body.scope position seen children).value := by
  have hdocument : body.content ≠ .document := by
    rw [((leads_open rule env scope site).body body hb).1]
    cases rule <;> simp [Rule.content]
  exact ((innerTrail_closed config).children unit depth body.content parent body.scope position seen
    children hdocument hf).2

/-! ### Children that are read together with their parent -/

/-- The name of the child that is read together with an element of this content. -/
def Content.absorbed? : Content → Option String
  | package kind => some kind.payloadElementName
  | _ => none

theorem Content.absorbed?_of_entry? {content : Content} {name : String}
    (h : content.entry? name = some .absorbed) : content.absorbed? = some name := by
  have hentries : ∀ content : Content, ∀ p ∈ content.entries, p.2 = .absorbed →
      content.absorbed? = some p.1 := by
    intro content
    cases content with
    | package kind => cases kind <;> decide
    | _ => decide
  obtain ⟨l₁, l₂, hl, -⟩ := List.lookup_eq_some_iff.mp h
  exact hentries content (name, .absorbed) (by rw [hl]; simp) rfl

/-- The name of the child that a rule reads together with its element. -/
def Rule.absorbed? : Rule → Option String
  | chainPackage kind => some kind.payloadElementName
  | _ => none

theorem absorbed?_open {rule : Rule} {env : Env} {scope : Scope} {site : Site} {body : Body}
    (hb : (rule.open env scope site).value.body = some body) :
    body.content.absorbed? = rule.absorbed? := by
  rw [((leads_open rule env scope site).body body hb).1]
  cases rule <;> rfl

/-! ### Rules by name -/

namespace Rule

/-- How the core elements of a name are read, wherever they stand. -/
def named? (name : String) : Option Rule :=
  ((Content.all.flatMap Content.entries).lookup name).bind Entry.rule?

theorem named?_of_mem (content : Content) : ∀ p ∈ content.entries, named? p.1 = p.2.rule? := by
  have h : ∀ content ∈ Content.all, ∀ p ∈ content.entries, named? p.1 = p.2.rule? := by
    decide +kernel
  exact h content content.mem_all

/-- A content gives to a name the rule that the name has everywhere. -/
theorem named?_of_gives {content : Content} {name : String} {rule : Rule}
    (h : content.Gives name rule) : named? name = some rule := by
  obtain ⟨entry, hmem, hr⟩ := h
  rw [named?_of_mem content _ hmem, hr]

/-- A name has its rule from some content. -/
theorem exists_gives_of_named? {name : String} {rule : Rule} (h : named? name = some rule) :
    ∃ content : Content, content.Gives name rule := by
  obtain ⟨entry, hentry, hrule⟩ := Option.bind_eq_some_iff.mp h
  obtain ⟨l₁, l₂, hl, -⟩ := List.lookup_eq_some_iff.mp hentry
  have hmem : (name, entry) ∈ Content.all.flatMap Content.entries := by rw [hl]; simp
  obtain ⟨content, -, hmem⟩ := List.mem_flatMap.mp hmem
  exact ⟨content, entry, hmem, hrule⟩

theorem name_of_named? {name sole : String} {rule : Rule} (h : named? name = some rule)
    (hs : rule.soleName? = some sole) : name = sole := by
  obtain ⟨content, hgives⟩ := exists_gives_of_named? h
  exact Content.name_of_gives hgives hs

/-- What is absorbed has no rule. -/
theorem named?_of_absorbed {content : Content} {name : String}
    (h : content.absorbed? = some name) : named? name = none := by
  cases content with
  | package kind => cases h; exact named?_of_mem (.package kind) _ List.mem_cons_self
  | _ => cases h

end Rule

/-- What is entered is not absorbed. -/
theorem Content.absorbed?_ne_of_gives {content : Content} {name : String} {rule : Rule}
    (h : content.Gives name rule) : content.absorbed? ≠ some name := by
  intro hname
  have hnone := Rule.named?_of_absorbed hname
  rw [Rule.named?_of_gives h] at hnone
  cases hnone

namespace Compile

/-- The first core child of an absorbed name has no core children of its own. -/
def LeafFirst (content : Content) (seen : List String) (children : List Element) : Prop :=
  ∀ name child, content.absorbed? = some name → name ∉ seen →
    children.find? (fun c => c.isCore && c.name == name) = some child →
      ∀ c ∈ child.children, c.isCore = false

theorem LeafFirst.of_cons {content : Content} {seen : List String} {child : Element}
    {rest : List Element} (h : LeafFirst content seen (child :: rest)) :
    LeafFirst content (if child.isCore then child.name :: seen else seen) rest := by
  intro name c hname hseen hc
  refine h name c hname (fun hmem => hseen (by split_ifs <;> simp [hmem])) ?_
  rw [List.find?_cons_of_neg, hc]
  simp only [Bool.and_eq_true, beq_iff_eq, not_and]
  intro hcore heq
  exact hseen (by simp [hcore, heq])

/-- The payload of a package is authored by the first core child of the right name. -/
theorem map_typedPayload? (e : Element) (kind : Symbol.PackageKind) :
    (typedPayload? e kind).map (·.1) =
      e.children.find? fun c => c.isCore && c.name == kind.payloadElementName := by
  conv_rhs => rw [← List.zipIdx_map_fst 0 e.children, List.find?_map]
  rfl

theorem isCore_eq_false_of_scanChildren {site : Site} {context : Context}
    (h : (scanChildren site context).All Step.Smooth) :
    ∀ c ∈ site.element.children, c.isCore = false := by
  intro c hc
  obtain ⟨i, hi, rfl⟩ := List.mem_iff_getElem.mp hc
  by_contra hcore
  have hmem : (site.element.children[i], i) ∈ site.element.children.zipIdx := by
    rw [List.mk_mem_zipIdx_iff_getElem?, List.getElem?_eq_getElem hi]
  have hreport := h _ (List.mem_map_of_mem hmem)
  rw [if_pos (by simpa using hcore)] at hreport
  exact Bool.noConfusion hreport

/-- The children of an element that is opened without errors may be absorbed only if they have no
core children. -/
theorem leafFirst_of_smooth {rule : Rule} {env : Env} {scope : Scope} {site : Site} {body : Body}
    (h : (rule.open env scope site).All Step.Smooth)
    (hb : (rule.open env scope site).value.body = some body) :
    LeafFirst body.content [] site.element.children := by
  intro name child hname _ hchild
  rw [absorbed?_open hb] at hname
  cases rule with
  | chainPackage kind =>
    cases hname
    rw [← map_typedPayload?, Option.map_eq_some_iff] at hchild
    obtain ⟨⟨child, position⟩, htyped, rfl⟩ := hchild
    simp only [Rule.open, openChainPackage] at h
    split at h
    · exact absurd (h (.halt .noCursor) (by simp [halt])) Step.smooth_halt
    · simp only [Logged.all_bind, packagePayload, htyped, readTypedPayload] at h
      obtain ⟨-, ⟨-, ⟨-, -, -, -, -, hscan, -⟩, -⟩, -⟩ := h
      exact isCore_eq_false_of_scanChildren hscan
  | _ => cases hname

/-! ### Walks -/

/-- The steps for the children of a site, from the given position on, in a plan without errors, with
the scope before and after them. The names of the core children before them are `seen`. -/
inductive Walk (config : Config) : Option SectionKind → Content → Site → Scope → Nat →
    List String → List Element → List Step → Scope → Prop
  | nil {unit : Option SectionKind} {content : Content} {site : Site} {scope : Scope}
      {position : Nat} {seen : List String} :
      Walk config unit content site scope position seen [] [] scope
  | foreign {unit : Option SectionKind} {content : Content} {site : Site} {scope after : Scope}
      {position : Nat} {seen : List String} {child : Element} {rest : List Element} {l : List Step}
      (hcore : child.isCore = false)
      (hrest : Walk config unit content site scope (position + 1) seen rest l after) :
      Walk config unit content site scope position seen (child :: rest)
        (.offer (.ofElement site (site.child position child)) scope.context :: l) after
  | absorbed {unit : Option SectionKind} {content : Content} {site : Site} {scope after : Scope}
      {position : Nat} {seen : List String} {child : Element} {rest : List Element} {l : List Step}
      (hcore : child.isCore) (hname : content.absorbed? = some child.name)
      (hseen : child.name ∉ seen) (hleaf : ∀ c ∈ child.children, c.isCore = false)
      (hrest : Walk config unit content site scope (position + 1) (child.name :: seen) rest l
        after) :
      Walk config unit content site scope position seen (child :: rest) l after
  | entered {unit : Option SectionKind} {content : Content} {site : Site}
      {scope inner after : Scope} {position : Nat} {seen : List String} {child : Element}
      {rest : List Element} {rule : Rule} {o : Planned Opening} {body : Body} {l l' : List Step}
      (hcore : child.isCore) (hgives : content.Gives child.name rule)
      (hneed : scope.Has rule.need)
      (hopen : rule.open ⟨config, unit⟩ scope (site.child position child) = o)
      (hsmooth : o.All Step.Smooth) (hbody : o.value.body = some body)
      (hchildren : Walk config (body.unit.or unit) body.content (site.child position child)
        body.scope 0 [] child.children l inner)
      (hclose : ∀ s ∈ body.close inner, s.Smooth)
      (hrest : Walk config unit content site o.value.outer (position + 1) (child.name :: seen) rest
        l' after) :
      Walk config unit content site scope position seen (child :: rest)
        (o.log ++ (l ++ body.close inner) ++ l') after

/-- The children of an element have a walk wherever their plan is smooth. -/
def Walkable (config : Config) (e : Element) : Prop :=
  ∀ unit depth content site scope, content.Fits scope → LeafFirst content [] e.children →
    (∀ s ∈ (planChildren config unit depth content site scope 0 [] e.children).log, s.Smooth) →
      Walk config unit content site scope 0 [] e.children
        (planChildren config unit depth content site scope 0 [] e.children).log
        (planChildren config unit depth content site scope 0 [] e.children).value

/-- A core child in a plan without errors is absorbed for the first time, or read by a rule. -/
theorem admissionOf_of_smooth {content : Content} {seen : List String} {parent child : Element}
    (h : ∀ d, admissionOf content seen parent child = .refuse d → d.isError = false) :
    (admissionOf content seen parent child = .skip ∧
        content.absorbed? = some child.name ∧ child.name ∉ seen) ∨
      ∃ rule, admissionOf content seen parent child = .accept rule := by
  have herror : ∀ d, d.isError → admissionOf content seen parent child ≠ .refuse d := by
    intro d hd hr
    rw [h d hr] at hd
    cases hd
  unfold admissionOf at herror ⊢
  split at herror
  · exact absurd rfl (herror _ rfl)
  · exact .inr ⟨_, rfl⟩
  · split_ifs at herror ⊢
    · exact absurd rfl (herror _ rfl)
    · exact .inr ⟨_, rfl⟩
  · next he =>
    split_ifs at herror ⊢ with hs
    · exact absurd rfl (herror _ rfl)
    · exact .inl ⟨rfl, Content.absorbed?_of_entry? he, by simpa using hs⟩

theorem walk_of_walkable (config : Config) (unit : Option SectionKind) (depth : Nat)
    (content : Content) (site : Site) : ∀ (children : List Element) (scope : Scope)
    (position : Nat) (seen : List String), (∀ child ∈ children, Walkable config child) →
    content.Fits scope → LeafFirst content seen children →
    (∀ s ∈ (planChildren config unit depth content site scope position seen children).log,
      s.Smooth) →
      Walk config unit content site scope position seen children
        (planChildren config unit depth content site scope position seen children).log
        (planChildren config unit depth content site scope position seen children).value
  | [], scope, position, seen, _, _, _, _ => by rw [planChildren]; exact .nil
  | child :: rest, scope, position, seen, hw, hf, hleaf, hs => by
    have hleaf' := hleaf.of_cons
    have ih := fun scope position seen => walk_of_walkable config unit depth content site rest
      scope position seen fun c hc => hw c (List.mem_cons_of_mem _ hc)
    rw [planChildren] at hs ⊢
    by_cases hcore : child.isCore
    · simp only [hcore, Bool.not_true, Bool.false_eq_true, ↓reduceIte] at hs hleaf' ⊢
      have hadmission : ∀ d, admissionOf content seen site.element child = .refuse d →
          d.isError = false := by
        intro d hd
        simp only [hd, Logged.log_bind, List.forall_mem_append] at hs
        exact hs.1 (.report d) (by simp [report])
      rcases admissionOf_of_smooth hadmission with ⟨hskip, hname, hseen⟩ | ⟨rule, hr⟩
      · simp only [hskip] at hs ⊢
        exact .absorbed hcore hname hseen (hleaf _ child hname hseen (by simp [hcore]))
          (ih _ _ _ hf hleaf' hs)
      · simp only [hr] at hs ⊢
        by_cases hdepth : config.recursionLimit ≤ depth
        · simp only [hdepth, ↓reduceIte] at hs
          exact absurd (hs (.halt .tooDeep) (by simp)) Step.smooth_halt
        · simp only [hdepth, ↓reduceIte, Logged.log_bind, Logged.value_bind,
            List.forall_mem_append] at hs ⊢
          obtain ⟨hchild, hrest⟩ := hs
          have hg := gives_of_accept hr
          obtain ⟨houter, hbodies⟩ := fits_open hg hf ⟨config, unit⟩ (site.child position child)
          -- the opening is smooth, since its steps are the first ones of the child
          have hopen : (rule.open ⟨config, unit⟩ scope (site.child position child)).All
              Step.Smooth := by
            intro s hmem
            cases hb : (rule.open ⟨config, unit⟩ scope (site.child position child)).value.body with
            | none => exact hchild s (by rw [planElement_of_none hb]; exact hmem)
            | some body =>
              exact hchild s (by rw [planElement_of_some hb]; exact List.mem_append_left _ hmem)
          obtain ⟨body, hb⟩ := exists_body_of_smooth hopen
          have hplan : planElement config unit (depth + 1) rule scope position
              (site.element :: site.ancestors) child = _ := planElement_of_some hb
          rw [hplan] at hchild hrest ⊢
          simp only [List.forall_mem_append] at hchild
          obtain ⟨-, hinner, hclose⟩ := hchild
          exact .entered hcore hg (hf _ hg.provides) rfl hopen hb
            (hw child (by simp) _ _ _ _ _ (hbodies body hb) (leafFirst_of_smooth hopen hb) hinner)
            hclose (ih _ _ _ houter hleaf' hrest)
    · have hcore : child.isCore = false := by simpa using hcore
      simp only [hcore, Bool.not_false, Bool.false_eq_true, ↓reduceIte, Logged.log_bind,
        Logged.value_bind, List.forall_mem_append] at hs hleaf' ⊢
      exact .foreign hcore (ih _ _ _ hf hleaf' hs.2)

theorem walkable (config : Config) (e : Element) : Walkable config e := by
  induction e using Element.induct with
  | node tag children ih =>
    intro unit depth content site scope hf hleaf hs
    exact walk_of_walkable config unit depth content site children scope 0 [] ih hf hleaf hs

/-- **A smooth plan is walked.** The document element is the right one, and after its own attributes
come its children. -/
theorem exists_walk {config : Config} {root : Element}
    (h : ∀ s ∈ plan config root, s.Smooth) : root.qname = QName.core "Wix" ∧
      ∃ l after, Walk config none .document (Site.root root) {} 0 [] root.children l after ∧
        plan config root = (root.checkAttributes []).map .report ++
          ((offerAttributes (Site.root root) []).log ++ l) := by
  unfold plan at h ⊢
  split_ifs at h ⊢ with hroot
  · exact Bool.noConfusion (h (.report (wrongRoot root)) (by simp))
  · simp only [Logged.log_bind, List.forall_mem_append] at h
    have hfits : Content.document.Fits {} := by simp [Content.fits_iff, Content.provides]
    have hleaf : LeafFirst .document [] root.children := by
      intro name child hname
      cases hname
    have hwalk := walkable config root none 0 .document (Site.root root) {} hfits hleaf h.2.2
    exact ⟨by simpa using hroot, _, _, hwalk, rfl⟩

/-- The symbols of a smooth plan are defined on its walk. -/
theorem exists_walk_symbols {config : Config} {root : Element}
    (h : ∀ s ∈ plan config root, s.Smooth) : root.qname = QName.core "Wix" ∧
      ∃ l after, Walk config none .document (Site.root root) {} 0 [] root.children l after ∧
        (plan config root).filterMap Step.symbol? = l.filterMap Step.symbol? := by
  obtain ⟨hroot, l, after, hwalk, hplan⟩ := exists_walk h
  refine ⟨hroot, l, after, hwalk, ?_⟩
  have hreports : ((root.checkAttributes []).map Step.report).filterMap Step.symbol? = [] := by
    rw [List.filterMap_map]
    exact List.filterMap_eq_nil_iff.mpr fun _ _ => rfl
  have hoffers : (offerAttributes (Site.root root) []).log.filterMap Step.symbol? = [] := by
    rw [offerAttributes, Logged.log_tell, List.filterMap_map]
    exact List.filterMap_eq_nil_iff.mpr fun _ _ => rfl
  rw [hplan, List.filterMap_append, List.filterMap_append, hreports, hoffers]
  rfl

end Compile

end Installer
