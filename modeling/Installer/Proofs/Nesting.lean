import Installer.Proofs.Collect
import Mathlib.Data.List.Basic

/-! # The limit of nesting

A compile gives up if elements are nested more deeply than its settings allow. Which children are
entered is decided by the content of their parent and the names before them alone, so that the number
of levels below the document element (`Element.nesting`) does not depend on the limit. The plan of a
document halts if and only if the limit is smaller than that number (`tooDeep_mem_plan`), and it is
the same at all limits that are not (`plan_limited`). -/

namespace Installer

open Compile Planned

/-! ### Levels of entered elements -/

/-- The rule by which a core child is entered, if `seen` are the names of the core children before it. -/
def Content.enters? (content : Content) (seen : List String) (name : String) : Option Rule :=
  match content.entry? name with
  | some (.many rule) => some rule
  | some (.single rule) => if name ∈ seen then none else some rule
  | some .absorbed | none => none

namespace Element

mutual

/-- The number of levels of entered elements, from an element that is read by a rule on. -/
def levels (rule : Rule) : Element → Nat
  | node _ children => levelsOfList rule.content [] children + 1

/-- The number of levels of entered elements among some children of an element and below them. The names
of the core children before them are `seen`. -/
def levelsOfList (content : Content) (seen : List String) : List Element → Nat
  | [] => 0
  | child :: rest =>
    if child.isCore then
      max (match content.enters? seen child.name with
        | some rule => child.levels rule
        | none => 0) (levelsOfList content (child.name :: seen) rest)
    else levelsOfList content seen rest

end

/-- How deeply elements are nested that are entered below a document element. -/
def nesting (root : Element) : Nat := levelsOfList .document [] (topElements root)

theorem levels_eq (rule : Rule) (e : Element) :
    e.levels rule = levelsOfList rule.content [] e.children + 1 := by
  obtain ⟨tag, children⟩ := e
  rw [levels, Element.children]

theorem levelsOfList_of_foreign {child : Element} (h : child.isCore = false) (content : Content)
    (seen : List String) (rest : List Element) :
    levelsOfList content seen (child :: rest) = levelsOfList content seen rest := by
  rw [levelsOfList, h]
  rfl

theorem levelsOfList_of_entered {child : Element} (h : child.isCore) {content : Content}
    {seen : List String} {rule : Rule} (hr : content.enters? seen child.name = some rule)
    (rest : List Element) : levelsOfList content seen (child :: rest) =
      max (child.levels rule) (levelsOfList content (child.name :: seen) rest) := by
  rw [levelsOfList, if_pos h, hr]

theorem levelsOfList_of_passed {child : Element} (h : child.isCore) {content : Content}
    {seen : List String} (hr : content.enters? seen child.name = none) (rest : List Element) :
    levelsOfList content seen (child :: rest) = levelsOfList content (child.name :: seen) rest := by
  rw [levelsOfList, if_pos h, hr, Nat.zero_max]

/-- An element without core children has no levels below it. -/
theorem levelsOfList_nothing (seen : List String) (children : List Element) :
    levelsOfList .nothing seen children = 0 := by
  induction children generalizing seen with
  | nil => rw [levelsOfList]
  | cons child rest ih =>
    by_cases hcore : child.isCore
    · rw [levelsOfList_of_passed hcore rfl, ih]
    · rw [levelsOfList_of_foreign (by simpa using hcore), ih]

theorem levelsOfList_le_of_forall {es : List Element} (h : ∀ e ∈ es, ∀ rule, e.levels rule ≤ e.height) :
    ∀ content seen, levelsOfList content seen es ≤ heightOfList es := by
  induction es with
  | nil => intro content seen; rw [levelsOfList]; omega
  | cons e es ih =>
    intro content seen
    have hrest := ih (fun e he => h e (List.mem_cons_of_mem _ he)) content
    rw [heightOfList]
    by_cases hcore : e.isCore
    · have hlater := hrest (e.name :: seen)
      cases hr : content.enters? seen e.name with
      | none =>
        rw [levelsOfList_of_passed hcore hr]
        omega
      | some rule =>
        have hfirst := h e List.mem_cons_self rule
        rw [levelsOfList_of_entered hcore hr]
        omega
    · have hlater := hrest seen
      rw [levelsOfList_of_foreign (by simpa using hcore)]
      omega

theorem levels_le_height (e : Element) : ∀ rule, e.levels rule ≤ e.height := by
  induction e using Element.induct with
  | node tag children ih =>
    intro rule
    have hchildren := levelsOfList_le_of_forall ih rule.content []
    rw [levels, height]
    omega

/-- The document element itself is not entered. -/
theorem nesting_lt_height (root : Element) : root.nesting < root.height := by
  obtain ⟨tag, children⟩ := root
  unfold nesting topElements
  rw [height]
  split_ifs
  · rw [levelsOfList]
    omega
  · have hchildren := levelsOfList_le_of_forall (fun e (_ : e ∈ children) => e.levels_le_height)
      .document []
    rw [Element.children]
    omega

end Element

/-! ### Openings do not halt -/

/-- Why a step gives up. -/
def Step.halt? : Step → Option Halt
  | .halt h => some h
  | _ => none

instance : Step.IgnoresReports Step.halt? := ⟨fun _ => rfl⟩

section Rules
variable {rule : Rule} {scope : Scope}

attribute [local simp] Step.halt? List.filterMap_none collect_packagePayload collect_offerAttributes
  collect_leaf

/-- Neither opening nor closing an element gives up, in a scope that has what the rule needs. -/
structure Unhalted (o : Planned Opening) : Prop where
  log : o.collect Step.halt? = []
  body : ∀ body, o.value.body = some body → ∀ inner, body.content.Fits inner →
    ∀ s ∈ body.close inner, s.halt? = none

theorem unhalted_open (h : scope.Has rule.need) (env : Env) (site : Site) :
    Unhalted (rule.open env scope site) := by
  cases rule with
  | bundle | package | module | patch | fragment =>
    refine ⟨?_, ?_⟩ <;> simp [Rule.open, openBundle, openPackage, openModule, openPatch,
      openFragment, filterMap_providerSteps Step.halt? fun _ _ => rfl, builtInProperty, or_imp,
      forall_and]
  | bootstrapperApplication =>
    simp only [Rule.open, openBootstrapperApplication]
    split <;> refine ⟨?_, ?_⟩ <;> simp
  | log | update | relatedBundle | variableValue =>
    refine ⟨?_, ?_⟩ <;> simp [Rule.open, openLog, openUpdate, openRelatedBundle, openVariable]
  | chain | packageGroup | payloadGroup | container =>
    refine ⟨?_, ?_⟩ <;>
      simp [Rule.open, openChain, openPackageGroup, openPayloadGroup, openContainer]
  | packageGroupRef | payloadGroupRef | rollbackBoundary | payload =>
    obtain ⟨c, hc⟩ := Option.isSome_iff_exists.mp h
    refine ⟨?_, ?_⟩ <;> simp [Rule.open, openPackageGroupRef, openPayloadGroupRef,
      openRollbackBoundary, openPayload, hc]
  | chainPackage kind =>
    obtain ⟨c, hc⟩ := Option.isSome_iff_exists.mp h
    refine ⟨?_, ?_⟩
    · simp [Rule.open, openChainPackage, hc]
    · simp only [Rule.open, openChainPackage, hc, Logged.value_bind, value_within, Logged.value_pure,
        Option.some.injEq, forall_eq']
      intro inner hinner
      obtain ⟨id, entry, -, hclose⟩ := (hinner .package rfl).closePackage_eq kind site.element
        (packagePayload kind site).value
      rw [hclose]
      exact forall_mem_packageSteps Step.halt? (fun _ _ => rfl) (fun _ _ => rfl) _ _ _ entry
  | msiProperty | slipstreamMsp | exitCode | arpEntry =>
    obtain ⟨owner, entry, hp⟩ := h.package
    refine ⟨?_, ?_⟩ <;> simp [Rule.open, openMsiProperty, openSlipstreamMsp, openExitCode,
      openArpEntry, hp]
  | registryKey | registryValue =>
    obtain ⟨place, hp⟩ := Option.isSome_iff_exists.mp h
    refine ⟨?_, ?_⟩ <;> simp [Rule.open, openRegistryKey, openRegistryValue, hp]
  | component | property | patchProperty | sequence s =>
    refine ⟨?_, ?_⟩ <;>
      simp [Rule.open, openComponent, openProperty, openPatchProperty, openSequence]
  | customAction =>
    simp only [Rule.open, openCustomAction]
    split <;> refine ⟨?_, ?_⟩ <;> simp
  | action kind =>
    simp only [Rule.open, openAction]
    split
    · split_ifs
      · refine ⟨?_, ?_⟩ <;> simp
      · refine ⟨by simp, ?_⟩
        simpa using fun _ _ => forall_mem_actionSteps Step.halt? (fun _ => rfl)
          (fun _ _ => rfl) (fun _ _ => rfl) _ _ _ _
    · refine ⟨?_, ?_⟩ <;> simp

end Rules

/-- The children of an element are left alone only if it has no core children. -/
theorem content_of_body_eq_none {rule : Rule} {env : Env} {scope : Scope} {site : Site}
    (h : scope.Has rule.need) (hb : (rule.open env scope site).value.body = none) :
    rule.content = .nothing := by
  cases rule with
  | chainPackage kind =>
    obtain ⟨c, hc⟩ := Option.isSome_iff_exists.mp h
    simp [Rule.open, openChainPackage, hc] at hb
  | registryKey =>
    obtain ⟨place, hp⟩ := Option.isSome_iff_exists.mp h
    simp [Rule.open, openRegistryKey, hp] at hb
  | bundle | package | module | patch | fragment => cases hb
  | bootstrapperApplication | payloadGroup | chain | packageGroup | container | component
  | sequence s => cases hb
  | _ => rfl

/-! ### Children by whether they are entered -/

namespace Compile

/-- What is found wrong about a core child that is not entered. -/
def Admission.findings : Admission → List Diagnostic
  | refuse d => [d]
  | _ => []

section
variable {content : Content} {seen : List String} {child : Element} {rule : Rule}

theorem admissionOf_of_entered (h : content.enters? seen child.name = some rule)
    (parent : Element) : admissionOf content seen parent child = .accept rule := by
  unfold Content.enters? at h
  unfold admissionOf
  split at h
  · next he =>
    cases h
    rw [he]
  · next he =>
    split_ifs at h with hseen
    cases h
    rw [he]
    simp [hseen]
  all_goals cases h

theorem not_accept_of_passed (h : content.enters? seen child.name = none) (parent : Element)
    (rule : Rule) : admissionOf content seen parent child ≠ .accept rule := by
  unfold Content.enters? at h
  unfold admissionOf
  split at h
  · cases h
  · next he =>
    split_ifs at h with hseen
    rw [he]
    simp [hseen]
  · next he =>
    rw [he]
    dsimp only
    split_ifs <;> simp
  · next he => simp [he]

theorem gives_of_entered (h : content.enters? seen child.name = some rule) :
    content.Gives child.name rule :=
  gives_of_accept (admissionOf_of_entered h child)

end

section
variable {config : Config} {unit : Option SectionKind} {depth : Nat} {content : Content}
  {site : Site} {scope : Scope} {position : Nat} {seen : List String} {child : Element}
  {rest : List Element} {rule : Rule}

theorem planChildren_of_foreign (h : child.isCore = false) :
    planChildren config unit depth content site scope position seen (child :: rest) = (do
      Logged.tell [.offer (.ofElement site (site.child position child)) scope.context]
      planChildren config unit depth content site scope (position + 1) seen rest) := by
  rw [planChildren, h]
  rfl

theorem planChildren_of_passed (hcore : child.isCore)
    (h : content.enters? seen child.name = none) :
    planChildren config unit depth content site scope position seen (child :: rest) = (do
      report (admissionOf content seen site.element child).findings
      planChildren config unit depth content site scope (position + 1) (child.name :: seen)
        rest) := by
  rw [planChildren, hcore]
  cases ha : admissionOf content seen site.element child with
  | skip => rfl
  | refuse d => rfl
  | accept rule => exact absurd ha (not_accept_of_passed h _ rule)

theorem planChildren_of_entered (hcore : child.isCore)
    (h : content.enters? seen child.name = some rule) :
    planChildren config unit depth content site scope position seen (child :: rest) =
      if config.recursionLimit ≤ depth then ⟨[.halt .tooDeep], scope⟩
      else (do
        let scope ← planElement config unit (depth + 1) rule scope position
          (site.element :: site.ancestors) child
        planChildren config unit depth content site scope (position + 1) (child.name :: seen)
          rest) := by
  rw [planChildren, hcore, admissionOf_of_entered h]
  rfl

end

/-! ### Plans that halt -/

/-- The plan of an element halts if and only if more levels than the limit has left are entered. -/
def HaltsBelow (config : Config) (e : Element) : Prop :=
  ∀ unit depth (content : Content) name rule scope position ancestors,
    content.Gives name rule → content.Fits scope → depth ≤ config.recursionLimit →
      (.halt .tooDeep ∈ (planElement config unit depth rule scope position ancestors e).log ↔
        config.recursionLimit + 1 < depth + e.levels rule)

theorem tooDeep_mem_planChildren_of_haltsBelow {config : Config} (unit : Option SectionKind)
    {depth : Nat} (hd : depth ≤ config.recursionLimit) (content : Content) (site : Site) :
    ∀ (children : List Element) (scope : Scope) (position : Nat) (seen : List String),
      (∀ child ∈ children, HaltsBelow config child) → content.Fits scope →
        (.halt .tooDeep ∈
            (planChildren config unit depth content site scope position seen children).log ↔
          config.recursionLimit < depth + Element.levelsOfList content seen children)
  | [], scope, position, seen, _, _ => by
    rw [planChildren, Element.levelsOfList]
    simpa using hd
  | child :: rest, scope, position, seen, hb, hf => by
    have ih := fun scope => tooDeep_mem_planChildren_of_haltsBelow unit hd content site rest scope
      (position + 1)
    have hrest : ∀ c ∈ rest, HaltsBelow config c := fun c hc => hb c (List.mem_cons_of_mem _ hc)
    by_cases hcore : child.isCore
    · cases hr : content.enters? seen child.name with
      | none =>
        rw [planChildren_of_passed hcore hr, Element.levelsOfList_of_passed hcore hr,
          ← ih scope (child.name :: seen) hrest hf]
        simp [report]
      | some rule =>
        have hg := gives_of_entered hr
        have hpos : 0 < child.levels rule := by rw [Element.levels_eq]; omega
        rw [planChildren_of_entered hcore hr, Element.levelsOfList_of_entered hcore hr]
        by_cases hlimit : config.recursionLimit ≤ depth
        · -- the child itself is one level too many
          simp only [hlimit, ↓reduceIte, List.mem_singleton, true_iff]
          omega
        · have hchild := hb child List.mem_cons_self unit (depth + 1) content child.name rule scope
            position (site.element :: site.ancestors) hg hf (by omega)
          have houter : content.Fits (planElement config unit (depth + 1) rule scope position
              (site.element :: site.ancestors) child).value := by
            have h := (fits_open hg hf ⟨config, unit⟩ (site.child position child)).1
            cases hbody : (rule.open ⟨config, unit⟩ scope
                (site.child position child)).value.body with
            | none => rwa [planElement_of_none hbody]
            | some body => rwa [planElement_of_some hbody]
          simp only [hlimit, ↓reduceIte, Logged.log_bind, List.mem_append, hchild,
            ih _ (child.name :: seen) hrest houter]
          omega
    · have hcore : child.isCore = false := by simpa using hcore
      rw [planChildren_of_foreign hcore, Element.levelsOfList_of_foreign hcore,
        ← ih scope seen hrest hf]
      simp

theorem tooDeep_notMem_of_halt? {l : List Step} (h : ∀ s ∈ l, s.halt? = none) :
    .halt .tooDeep ∉ l := by
  intro hmem
  cases h _ hmem

theorem haltsBelow (config : Config) (e : Element) : HaltsBelow config e := by
  induction e using Element.induct with
  | node tag children ih =>
    intro unit depth content name rule scope position ancestors hg hf hd
    have hneed := hf _ hg.provides
    have hopen := unhalted_open hneed ⟨config, unit⟩ ⟨.node tag children, position, ancestors⟩
    have hlog := tooDeep_notMem_of_halt? (List.filterMap_eq_nil_iff.mp hopen.log)
    rw [Element.levels_eq, Element.children]
    cases hb : (rule.open ⟨config, unit⟩ scope
        ⟨.node tag children, position, ancestors⟩).value.body with
    | none =>
      rw [planElement_of_none hb, content_of_body_eq_none hneed hb, Element.levelsOfList_nothing]
      simp only [hlog, false_iff]
      omega
    | some body =>
      have hcontent := ((leads_open rule _ scope _).body body hb).1
      have hfits := (fits_open hg hf ⟨config, unit⟩ _).2 body hb
      have hchildren := tooDeep_mem_planChildren_of_haltsBelow (body.unit.or unit) hd body.content
        ⟨.node tag children, position, ancestors⟩ children body.scope 0 [] ih hfits
      have hclose := tooDeep_notMem_of_halt?
        (hopen.body body hb _ (fits_planChildren hb hfits config (body.unit.or unit) depth
          ⟨.node tag children, position, ancestors⟩ 0 [] children))
      rw [planElement_of_some hb]
      simp only [List.mem_append, hlog, hclose, or_false, false_or, Element.children, hchildren]
      rw [hcontent]
      omega

/-- **The plan of a document halts if and only if the limit is smaller than its nesting.** -/
theorem tooDeep_mem_plan (config : Config) (root : Element) :
    .halt .tooDeep ∈ plan config root ↔ config.recursionLimit < root.nesting := by
  unfold plan Element.nesting topElements
  split_ifs with hroot
  · simp [Element.levelsOfList]
  · have hfits : Content.document.Fits {} := by simp [Content.fits_iff, Content.provides]
    have hchildren := tooDeep_mem_planChildren_of_haltsBelow none (Nat.zero_le _) .document
      (Site.root root) root.children {} 0 [] (fun c _ => haltsBelow config c) hfits
    rw [Nat.zero_add] at hchildren
    rw [← hchildren]
    simp [report, offerAttributes]

end Compile

/-! ### Plans at two limits -/

/-- The same settings with another limit of nesting. -/
def Config.limited (config : Config) (limit : Nat) : Config :=
  { config with recursionLimit := limit }

/-- Openings do not look at the limit. -/
theorem Rule.open_limited (rule : Rule) (config : Config) (limit : Nat) (unit : Option SectionKind)
    (scope : Scope) (site : Site) : rule.open ⟨config.limited limit, unit⟩ scope site =
      rule.open ⟨config, unit⟩ scope site := by
  cases rule <;> rfl

namespace Compile

/-- Two limits that are not reached below an element lead to the same plan. -/
def AgreesBelow (config : Config) (m n : Nat) (e : Element) : Prop :=
  ∀ unit depth rule scope position ancestors, depth + e.levels rule ≤ m + 1 →
    depth + e.levels rule ≤ n + 1 →
      planElement (config.limited m) unit depth rule scope position ancestors e =
        planElement (config.limited n) unit depth rule scope position ancestors e

theorem planChildren_limited_of_agreesBelow {config : Config} {m n : Nat}
    (unit : Option SectionKind) (depth : Nat) (content : Content) (site : Site) :
    ∀ (children : List Element) (scope : Scope) (position : Nat) (seen : List String),
      (∀ child ∈ children, AgreesBelow config m n child) →
        depth + Element.levelsOfList content seen children ≤ m →
          depth + Element.levelsOfList content seen children ≤ n →
            planChildren (config.limited m) unit depth content site scope position seen children =
              planChildren (config.limited n) unit depth content site scope position seen children
  | [], scope, position, seen, _, _, _ => by rw [planChildren, planChildren]
  | child :: rest, scope, position, seen, ha, hm, hn => by
    have ih := fun scope seen => planChildren_limited_of_agreesBelow unit depth content site rest
      scope (position + 1) seen fun c hc => ha c (List.mem_cons_of_mem _ hc)
    by_cases hcore : child.isCore
    · cases hr : content.enters? seen child.name with
      | none =>
        rw [Element.levelsOfList_of_passed hcore hr] at hm hn
        rw [planChildren_of_passed hcore hr, planChildren_of_passed hcore hr, ih scope _ hm hn]
      | some rule =>
        have hpos : 0 < child.levels rule := by rw [Element.levels_eq]; omega
        rw [Element.levelsOfList_of_entered hcore hr] at hm hn
        have hchild := ha child List.mem_cons_self unit (depth + 1) rule scope position
          (site.element :: site.ancestors) (by omega) (by omega)
        have hrest := fun scope => ih scope (child.name :: seen) (by omega) (by omega)
        have hleft : ¬ (config.limited m).recursionLimit ≤ depth := by
          simp only [Config.limited]
          omega
        have hright : ¬ (config.limited n).recursionLimit ≤ depth := by
          simp only [Config.limited]
          omega
        rw [planChildren_of_entered hcore hr, planChildren_of_entered hcore hr, if_neg hleft,
          if_neg hright, hchild]
        simp only [hrest]
    · have hcore : child.isCore = false := by simpa using hcore
      rw [Element.levelsOfList_of_foreign hcore] at hm hn
      rw [planChildren_of_foreign hcore, planChildren_of_foreign hcore, ih scope seen hm hn]

theorem agreesBelow (config : Config) (m n : Nat) (e : Element) : AgreesBelow config m n e := by
  induction e using Element.induct with
  | node tag children ih =>
    intro unit depth rule scope position ancestors hm hn
    rw [Element.levels_eq, Element.children] at hm hn
    have hopen := fun limit => rule.open_limited config limit unit scope
      ⟨.node tag children, position, ancestors⟩
    have hbodies := fun limit => congrArg (·.value.body) (hopen limit)
    cases hb : (rule.open ⟨config, unit⟩ scope
        ⟨.node tag children, position, ancestors⟩).value.body with
    | none =>
      rw [planElement_of_none ((hbodies m).trans hb), planElement_of_none ((hbodies n).trans hb),
        hopen m, hopen n]
    | some body =>
      have hcontent := ((leads_open rule _ scope _).body body hb).1
      have hchildren := planChildren_limited_of_agreesBelow (body.unit.or unit) depth body.content
        ⟨.node tag children, position, ancestors⟩ children body.scope 0 [] ih
        (by rw [hcontent]; omega) (by rw [hcontent]; omega)
      rw [planElement_of_some ((hbodies m).trans hb), planElement_of_some ((hbodies n).trans hb),
        hopen m, hopen n, Element.children, hchildren]

/-- **The plan of a document is the same at all limits that its nesting does not exceed.** -/
theorem plan_limited (config : Config) {root : Element} {m n : Nat} (hm : root.nesting ≤ m)
    (hn : root.nesting ≤ n) : plan (config.limited m) root = plan (config.limited n) root := by
  unfold Element.nesting topElements at hm hn
  unfold plan
  split_ifs at hm hn ⊢ with hroot
  · rfl
  · have hchildren := planChildren_limited_of_agreesBelow none 0 .document (Site.root root)
      root.children {} 0 [] (fun c _ => agreesBelow config m n c) (by omega) (by omega)
    dsimp only
    rw [hchildren]

end Compile

/-! ### Compiles at two limits -/

namespace Run

variable {extensions : List Extension} {r : Run}

theorem tooDeep_of_emit {id : Identifier} {data : Symbol.Data}
    (h : (r.emit id data).halted = some .tooDeep) : r.halted = some .tooDeep := by
  unfold emit at h
  split at h
  · exact h
  · split at h
    · cases h
    · split at h
      · cases h
      · exact h

theorem tooDeep_of_runHook {node : Offer} {hook : Hook}
    (h : (r.runHook node hook).1.halted = some .tooDeep) : r.halted = some .tooDeep := by
  induction hook generalizing r with
  | done handled => exact h
  | report d next ih => exact ih (r := r.report d) h
  | emit id definition fields next ih =>
    rw [runHook] at h
    have hemit := ih h
    split at hemit
    · exact hemit
    · exact tooDeep_of_emit hemit
  | refer s next ih => simpa using ih h
  | group g next ih => simpa using ih h
  | observe next ih => exact ih _ h

theorem tooDeep_of_offer {node : Offer} {context : Context}
    (h : (r.offer extensions node context).halted = some .tooDeep) : r.halted = some .tooDeep := by
  unfold offer at h
  split at h
  · exact h
  · dsimp only at h
    split_ifs at h
    · exact tooDeep_of_runHook h
    · exact tooDeep_of_runHook h

/-- Extensions and symbols do not lead too deep. -/
theorem tooDeep_of_step {s : Step} (h : (r.step extensions s).halted = some .tooDeep) :
    r.halted = some .tooDeep ∨ s = .halt .tooDeep := by
  cases s with
  | report d => exact .inl h
  | openUnit header => exact .inl h
  | closeUnit => exact .inl h
  | emit id data => exact .inl (tooDeep_of_emit h)
  | refer r => exact .inl (by simpa [step] using h)
  | group g => exact .inl (by simpa [step] using h)
  | offer node context => exact .inl (tooDeep_of_offer h)
  | halt reason => exact .inr (by simpa [step] using h)

theorem tooDeep_mem_of_steps {l : List Step} (hr : r.halted = none)
    (h : (r.steps extensions l).halted = some .tooDeep) : .halt .tooDeep ∈ l := by
  induction l generalizing r with
  | nil => rw [steps, hr] at h; cases h
  | cons s l ih =>
    rw [steps_cons] at h
    cases hs : (r.step extensions s).halted with
    | none =>
      simp only [hs, Option.isSome_none, Bool.false_eq_true, ↓reduceIte] at h
      exact List.mem_cons_of_mem _ (ih hs h)
    | some reason =>
      simp only [hs, Option.isSome_some, ↓reduceIte] at h
      rcases tooDeep_of_step (hs.trans h) with hbefore | rfl
      · rw [hr] at hbefore
        cases hbefore
      · exact List.mem_cons_self

end Run

namespace Compiler

/-- The same compiler with another limit of nesting. -/
def limited (c : Compiler) (limit : Nat) : Compiler := { c with config := c.config.limited limit }

/-- A compile gives up if and only if its plan does. -/
theorem result_eq_tooDeep_iff (c : Compiler) (k : UInt32) (root : Element) :
    (c.compileAs k root).result = .error .tooDeep ↔ .halt .tooDeep ∈ plan c.config root := by
  constructor
  · intro h
    exact Run.tooDeep_mem_of_steps rfl (Run.result_eq_error_iff.mp h)
  · intro hmem
    rcases c.result_ok_or_tooDeep k root with ⟨o, ho⟩ | h
    · obtain ⟨hh, -⟩ := Run.result_eq_ok_iff.mp ho
      exact absurd hmem (Run.halt_notMem hh .tooDeep)
    · exact h

/-- The limit of nesting matters to the compile of a document at one number only: below it the compile
gives up, and from it on the limit does not change anything. -/
structure Threshold (c : Compiler) (k : UInt32) (root : Element) (depth : Nat) : Prop where
  height : depth < root.height
  exceeded : ∀ limit, ((c.limited limit).compileAs k root).result = .error .tooDeep ↔ limit < depth
  unchanged : ∀ m n, depth ≤ m → depth ≤ n →
    (c.limited m).compileAs k root = (c.limited n).compileAs k root

/-- **The limit is a sharp threshold.** The number at which it matters is how deeply the elements are
nested that are entered, whatever the extensions and the other settings are. -/
theorem threshold_nesting (c : Compiler) (k : UInt32) (root : Element) :
    c.Threshold k root root.nesting where
  height := root.nesting_lt_height
  exceeded limit := by
    rw [result_eq_tooDeep_iff, tooDeep_mem_plan]
    rfl
  unchanged m n hm hn := by
    unfold compileAs
    rw [show (c.limited m).config = c.config.limited m from rfl, plan_limited c.config hm hn]
    rfl

end Compiler

namespace Sample

/-- A component with two registry keys, one of them nested. -/
def registryKeys : Element :=
  element "Wix" [] [
    element "Fragment" [] [
      element "Component" [("Id", "C")] [
        element "RegistryKey" [("Root", "HKLM"), ("Key", "A")] [
          element "RegistryKey" [("Key", "B")] [
            element "RegistryValue" [("Name", "N"), ("Value", "1")] []]],
        element "RegistryKey" [("Root", "HKLM"), ("Key", "D")] [
          element "RegistryValue" [("Name", "N"), ("Value", "2")] []]]]]

end Sample

/-- Five levels are entered. Four are too few, and five are as good as the default. -/
theorem threshold_registryKeys :
    Sample.registryKeys.nesting = 5 ∧
      (({} : Compiler).limited 4 |>.compileAs 0 Sample.registryKeys).result = .error .tooDeep ∧
      (({} : Compiler).limited 5).compileAs 0 Sample.registryKeys =
        ({} : Compiler).compileAs 0 Sample.registryKeys := by
  have hnesting : Sample.registryKeys.nesting = 5 := by decide +kernel
  have h := Compiler.threshold_nesting {} 0 Sample.registryKeys
  rw [hnesting] at h
  exact ⟨hnesting, (h.exceeded 4).mpr (by decide), h.unchanged 5 256 (by decide) (by decide)⟩

end Installer
