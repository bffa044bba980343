import Installer.Proofs.GroupOrder
import Installer.Proofs.Kinds
import Installer.Proofs.Reach
import Installer.Proofs.Reordering
import Installer.Proofs.WellFormed.Units

/-! # What a document promises

What a document depends on is defined in other sections, and a reference promises that it exists. A
symbol depends on the directories, the code, the packages and the actions that it names
(`Symbol.Data.dependencies`), a place in a group depends on a group that is its child, and an element that
schedules a custom action or a dialog depends on what it schedules (`Element.scheduled?`).

References and symbols come from different steps of an element: some references are made when it is
opened, and its symbol is defined when it is closed. So the two are balanced over the whole walk of an
element (`Balanced`), which leaves neither a dependency without its reference nor a reference without
a dependency (`Intermediate.Promises`). -/

namespace Installer

open Compile Planned
open scoped List

/-! ### Dependencies -/

namespace Symbol

/-- The kind of symbol that holds the code of a custom action. -/
def ActionSource.symbolKind? : ActionSource → Option SymbolKind
  | binary => some .binary
  | file => some .file
  | directory => some .directory
  | property | inlineScript => none

namespace Data

/-- What a symbol needs from elsewhere. -/
def dependencies : Data → List SymbolReference
  | component c => c.directory.toList.map (⟨.directory, ·⟩)
  | customAction a =>
    a.sourceKind.symbolKind?.toList.flatMap fun kind => a.source.toList.map (⟨kind, ·⟩)
  | slipstreamMsp s => [⟨.package, s.mspPackage⟩]
  | action a =>
    (a.before.toList ++ a.after.toList).map fun other => ⟨.action, a.table.name ++ "." ++ other⟩
  | _ => []

/-- The kinds of symbols that need anything. -/
def dependentKinds : List SymbolKind := [.component, .customAction, .slipstreamMsp, .action]

theorem dependencies_of_kind {data : Data} (h : data.kind ∉ dependentKinds) :
    data.dependencies = [] := by
  cases data with
  | component | customAction | slipstreamMsp | action =>
    exact absurd (by simp [Data.kind, dependentKinds]) h
  | _ => rfl

/-- A custom action with code that is found elsewhere names it. -/
def Sourced (data : Data) : Prop :=
  ∀ a, data = .customAction a → ∀ kind, a.sourceKind.symbolKind? = some kind →
    ∃ source, a.source = some source

theorem sourced_of_kind {data : Data} (h : data.kind ≠ .customAction) : data.Sourced := by
  rintro a rfl
  exact absurd rfl h

end Data

end Symbol

/-- The group that is a child of another one. -/
def Member.reference? (m : Member) : Option SymbolReference := m.kind.reference?.map (⟨·, m.id⟩)

/-- The kind of symbol that the elements of a name schedule, and the attribute that names it. -/
def schedulingOf? (name : String) : Option (SymbolKind × String) :=
  if name = "Custom" then some (.customAction, "Action")
  else if name = "Show" then some (.dialog, "Dialog")
  else none

namespace Element

/-- The action of the element is taken out of the sequence. -/
def isSuppressed (e : Element) : Bool := (e.last? ["Suppress"]).any (·.value == "yes")

/-- The custom action or the dialog that an element schedules. -/
def scheduled? (e : Element) : Option SymbolReference :=
  if e.isSuppressed then none
  else (schedulingOf? e.name).bind fun (kind, label) =>
    (e.last? [label]).map fun a => ⟨kind, Text.trimmed a.value⟩

/-- An element that schedules something names it. -/
def NamesAction (e : Element) : Prop :=
  ∀ kind label, schedulingOf? e.name = some (kind, label) → ∃ a, e.last? [label] = some a

end Element

/-! ### Elements that schedule -/

namespace Rule

/-- What the elements of a rule schedule, and the attribute that names it. -/
def scheduling? : Rule → Option (SymbolKind × String)
  | action .custom => some (.customAction, "Action")
  | action .dialog => some (.dialog, "Dialog")
  | _ => none

/-- The reference that an element of a rule makes to what it schedules. -/
def scheduled? (rule : Rule) (e : Element) : Option SymbolReference :=
  match rule with
  | action kind =>
    if (e.value? (.yesNo "Suppress")).getD false then none
    else kind.symbolKind?.map (⟨·, actionName kind e⟩)
  | _ => none

end Rule

theorem schedulingOf?_of_gives {content : Content} {name : String} {rule : Rule}
    (h : content.Gives name rule) : schedulingOf? name = rule.scheduling? := by
  have hall : ∀ content ∈ Content.all, ∀ p ∈ content.entries, ∀ rule ∈ p.2.rule?,
      schedulingOf? p.1 = rule.scheduling? := by
    decide +kernel
  obtain ⟨entry, hmem, hr⟩ := h
  exact hall content content.mem_all _ hmem rule hr

theorem schedulingOf?_of_absorbed {content : Content} {name : String}
    (h : content.absorbed? = some name) : schedulingOf? name = none := by
  cases content with
  | package kind => cases h; cases kind <;> decide
  | _ => cases h

theorem Element.scheduled?_of_schedulingOf? {e : Element} (h : schedulingOf? e.name = none) :
    e.scheduled? = none ∧ e.NamesAction := by
  refine ⟨?_, ?_⟩
  · unfold scheduled?
    simp [h]
  · intro kind label hs
    rw [h] at hs
    cases hs

theorem Element.value?_suppress (e : Element) :
    (e.value? (.yesNo "Suppress")).getD false = e.isSuppressed := by
  unfold value? isSuppressed
  rw [show (Field.yesNo "Suppress").name = "Suppress" from rfl]
  cases e.last? ["Suppress"] with
  | none => rfl
  | some a =>
    simp only [Option.bind_some, Option.any_some, Field.yesNo, Reader.yesNo, Reader.nonEmpty,
      Reader.yesNo?]
    by_cases hyes : a.value = "yes"
    · simp [hyes]
    · by_cases hno : a.value = "no"
      · simp [hno]
      · by_cases hempty : a.value.isEmpty <;> simp [hyes, hno, hempty]

/-- An action that is opened without errors makes the reference that its element stands for. -/
theorem scheduled?_of_action {kind : ActionKind} {scope : Scope} {site : Site}
    (h : (openAction kind scope site).All Step.Smooth)
    (hname : schedulingOf? site.element.name = (Rule.action kind).scheduling?) :
    site.element.scheduled? = (Rule.action kind).scheduled? site.element ∧
      site.element.NamesAction := by
  unfold openAction at h
  dsimp only at h
  split at h
  · split_ifs at h
    · exact absurd h (not_smooth_refuse _ _ _)
    · simp only [Logged.all_bind] at h
      obtain ⟨hchecks, hmissing, -⟩ := h
      have hp := passes_of_smooth hchecks
      have hhas := clean_missingAttributes.mp fun s hs => (hmissing s hs).clean
      have hnames : ∀ label ∈ kind.nameAttribute?, ∃ a, site.element.last? [label] = some a :=
        fun label hl => Element.exists_last?_iff.mpr (hhas label (by simpa using hl))
      unfold Element.scheduled? Rule.scheduled? Element.NamesAction
      rw [site.element.value?_suppress, hname]
      cases kind with
      | custom =>
        obtain ⟨a, ha⟩ := hnames "Action" rfl
        have hvalue := hp.value?_reference "Action" rfl
        simp [Rule.scheduling?, ActionKind.symbolKind?, actionName, ActionKind.nameAttribute?,
          hvalue, ha]
      | dialog =>
        obtain ⟨a, ha⟩ := hnames "Dialog" rfl
        have hvalue := hp.value?_reference "Dialog" rfl
        simp [Rule.scheduling?, ActionKind.symbolKind?, actionName, ActionKind.nameAttribute?,
          hvalue, ha]
      | standard => simp [Rule.scheduling?, ActionKind.symbolKind?]
  · exact absurd h (not_smooth_refuse _ _ _)

/-- An element that is opened without errors makes the reference that it stands for. -/
theorem scheduled?_of_smooth {rule : Rule} {env : Env} {scope : Scope} {site : Site}
    (h : (rule.open env scope site).All Step.Smooth)
    (hname : schedulingOf? site.element.name = rule.scheduling?) :
    site.element.scheduled? = rule.scheduled? site.element ∧ site.element.NamesAction := by
  cases rule with
  | action kind => exact scheduled?_of_action h hname
  | _ => exact Element.scheduled?_of_schedulingOf? hname

/-! ### What elements promise -/

namespace Step

/-- What has to exist elsewhere because of a step. -/
def promises : Step → List SymbolReference
  | .emit _ data => data.dependencies
  | .group r => r.child.reference?.toList
  | _ => []

/-- The same, where it may be anything. -/
def promises? : Step → Option (List SymbolReference)
  | .emit _ data =>
    if data.kind ∈ Symbol.Data.dependentKinds then some data.dependencies else none
  | .group r => some r.child.reference?.toList
  | _ => none

instance : IgnoresReports reference? := ⟨fun _ => rfl⟩

instance : IgnoresReports promises? := ⟨fun _ => rfl⟩

theorem flatten_promises? (l : List Step) : (l.filterMap promises?).flatten = l.flatMap promises := by
  induction l with
  | nil => rfl
  | cons s l ih =>
    rw [List.flatMap_cons, ← ih]
    cases s with
    | emit id data =>
      by_cases hk : data.kind ∈ Symbol.Data.dependentKinds
      · simp [promises?, promises, hk]
      · simp [promises?, promises, hk, Symbol.Data.dependencies_of_kind hk]
    | _ => rfl

end Step

section Rules
variable {rule : Rule} {scope : Scope}

attribute [local simp] Step.reference? Step.promises? Symbol.Data.kind Symbol.Data.dependencies
  Symbol.Data.dependentKinds Member.reference? MemberKind.reference? Rule.scheduled?
  List.filterMap_none List.filterMap_cons collect_packagePayload collect_offerAttributes collect_leaf

theorem symbolKind?_eq_referenceKind? (source : Symbol.ActionSource) :
    source.symbolKind? = referenceKind? source := by
  cases source <;> rfl

/-- The steps of an action refer to what is scheduled and to the actions around it. -/
theorem references_actionSteps (kind : ActionKind) (e : Element) (table : Symbol.SequenceTable)
    (action : String) : (actionSteps kind e table action).filterMap Step.reference? ~
      ((actionSteps kind e table action).filterMap Step.promises?).flatten ++
        (if (e.value? (.yesNo "Suppress")).getD false then none
        else kind.symbolKind?.map (⟨·, action⟩)).toList := by
  unfold actionSteps
  dsimp only
  split_ifs
  · simp
  · -- the action itself comes first among the references and last among what is promised
    have hcomm : ∀ xs ys : List SymbolReference, xs ++ ys ~ ys ++ xs :=
      fun _ _ => List.perm_append_comm
    simpa [Function.comp_def, actionId, Option.toList_map] using
      hcomm (kind.symbolKind?.toList.map (⟨·, action⟩))
        (((e.value? (.reference "Before")).toList ++ (e.value? (.reference "After")).toList).map
          fun other => ⟨.action, table.name ++ "." ++ other⟩)

/-- **An element refers to what it depends on.** The references that it makes when it is opened and
closed are those for its symbols, for its places in groups and for what it schedules. -/
theorem references_perm_open (h : scope.Has rule.need) (env : Env) (site : Site) :
    ∀ body, (rule.open env scope site).value.body = some body → ∀ inner, body.Closes inner →
      (rule.open env scope site).collect Step.reference? ++
          (body.close inner).filterMap Step.reference? ~
        ((rule.open env scope site).collect Step.promises? ++
          (body.close inner).filterMap Step.promises?).flatten ++
            (rule.scheduled? site.element).toList := by
  cases rule with
  | bundle | package | module | patch | fragment =>
    simp [Rule.open, openBundle, openPackage, openModule, openPatch, openFragment,
      filterMap_providerSteps Step.reference? fun _ _ => rfl,
      filterMap_providerSteps Step.promises? fun _ _ => rfl, builtInProperty, Function.comp_def]
  | bootstrapperApplication =>
    simp only [Rule.open, openBootstrapperApplication]
    split <;> simp
  | log | update | relatedBundle | variableValue =>
    simp [Rule.open, openLog, openUpdate, openRelatedBundle, openVariable]
  | chain | packageGroup | payloadGroup | container =>
    simp [Rule.open, openChain, openPackageGroup, openPayloadGroup, openContainer]
  | packageGroupRef | payloadGroupRef | rollbackBoundary | payload =>
    obtain ⟨c, hc⟩ := h.group
    simp [Rule.open, openPackageGroupRef, openPayloadGroupRef, openRollbackBoundary, openPayload, hc]
  | chainPackage kind =>
    obtain ⟨c, hc⟩ := h.group
    have hreferences : (packagePayload kind site).collect Step.reference? = [] := by simp
    have hpromises : (packagePayload kind site).collect Step.promises? = [] := by simp
    intro body hbody inner hcloses
    obtain ⟨-, entry, -, hclose⟩ := close_openChainPackage hbody hcloses
    rw [hclose]
    simp [Rule.open, openChainPackage, hc, hreferences, hpromises, packageSteps, Function.comp_def]
  | msiProperty | slipstreamMsp | exitCode | arpEntry =>
    obtain ⟨owner, entry, hp⟩ := h.package
    simp [Rule.open, openMsiProperty, openSlipstreamMsp, openExitCode, openArpEntry, hp]
  | registryKey | registryValue =>
    obtain ⟨place, hp⟩ := Option.isSome_iff_exists.mp h
    simp [Rule.open, openRegistryKey, openRegistryValue, hp]
  | component =>
    cases hd : componentDirectory env site.element <;> simp [Rule.open, openComponent, hd]
  | property | patchProperty | sequence s =>
    simp [Rule.open, openProperty, openPatchProperty, openSequence]
  | customAction =>
    simp only [Rule.open, openCustomAction]
    cases hk : referenceKind? (codeOf site.element).2.sourceKind with
    | none => simp [hk, symbolKind?_eq_referenceKind?]
    | some kind =>
      cases (codeOf site.element).2.source <;> simp [hk, symbolKind?_eq_referenceKind?]
  | action kind =>
    simp only [Rule.open, openAction]
    split
    · split_ifs
      · simp
      · simpa using fun _ _ => references_actionSteps _ _ _ _
    · simp

end Rules

/-! ### The code of custom actions -/

theorem lookup_customActionChecks {name : String} {kind : Symbol.ActionSource}
    (h : (name, kind) ∈ sourceAttributes) (hk : kind ≠ .inlineScript) :
    customActionChecks.lookup name = some Reader.reference.findings := by
  simp only [sourceAttributes, List.mem_cons, Prod.mk.injEq, List.not_mem_nil, or_false] at h
  unfold customActionChecks
  rcases h with ⟨rfl, rfl⟩ | ⟨rfl, rfl⟩ | ⟨rfl, rfl⟩ | ⟨rfl, rfl⟩ | ⟨rfl, rfl⟩
  · simp [Field.check, Field.id, Field.reference, scriptField, Field.choice, List.lookup_cons]
  · simp [Field.check, Field.id, Field.reference, scriptField, Field.choice, List.lookup_cons]
  · simp [Field.check, Field.id, Field.reference, scriptField, Field.choice, List.lookup_cons]
  · simp [Field.check, Field.id, Field.reference, scriptField, Field.choice, List.lookup_cons]
  · exact absurd rfl hk

theorem exists_sourceAttribute {e : Element} {kind : Symbol.ActionSource} {a : Attribute}
    (h : sourceOf? e = some (kind, a)) : a ∈ e.coreAttributes ∧ (a.name, kind) ∈ sourceAttributes := by
  obtain ⟨b, hb, hkind⟩ := Option.bind_eq_some_iff.mp h
  obtain ⟨kind', hlookup, heq⟩ := Option.map_eq_some_iff.mp hkind
  cases heq
  obtain ⟨l₁, l₂, hl, -⟩ := List.lookup_eq_some_iff.mp hlookup
  exact ⟨List.mem_of_find?_eq_some hb, by rw [hl]; simp⟩

/-- A source that passes its check is a reference. -/
theorem exists_reference_of_sourceOf? {e : Element} {kind : Symbol.ActionSource} {a : Attribute}
    (h : sourceOf? e = some (kind, a)) (hk : kind ≠ .inlineScript)
    (hfindings : ∀ d ∈ customActionFindings e none none e.coreAttributes, d.isError = false) :
    ∃ source, (Reader.reference e a).value = some source := by
  obtain ⟨hmem, hsource⟩ := exists_sourceAttribute h
  have hpass := ((passes_of_customActionFindings hfindings).at a.name).of_lookup
    (lookup_customActionChecks hsource hk) hmem rfl
  exact Reader.of_reference.exists_value hpass

theorem codeOf_of_sourceOf? {e : Element} {kind : Symbol.ActionSource} {a : Attribute}
    (h : sourceOf? e = some (kind, a)) : (codeOf e).2.sourceKind = kind ∧
      (kind ≠ .inlineScript → (codeOf e).2.source = (Reader.reference e a).value) := by
  unfold codeOf
  rw [h]
  cases targetOf? e <;> cases kind <;> simp

/-- A custom action without errors names its code. -/
theorem sourced_codeOf {e : Element} {a : Symbol.CustomAction}
    (hkind : a.sourceKind = (codeOf e).2.sourceKind) (hsource : a.source = (codeOf e).2.source)
    (hfindings : ∀ d ∈ customActionFindings e none none e.coreAttributes, d.isError = false)
    (hcode : ∀ d ∈ (codeOf e).1, d.isError = false) : (Symbol.Data.customAction a).Sourced := by
  rintro _ ⟨⟩ kind hk
  cases hs : sourceOf? e with
  | none =>
    -- without a source there is an error
    simp [codeOf, hs] at hcode
  | some s =>
    obtain ⟨source, authored⟩ := s
    obtain ⟨hcodeKind, hcodeSource⟩ := codeOf_of_sourceOf? hs
    have hinline : source ≠ .inlineScript := by
      rintro rfl
      rw [hkind, hcodeKind] at hk
      cases hk
    rw [hsource, hcodeSource hinline]
    exact exists_reference_of_sourceOf? hs hinline hfindings

theorem sourced_open {rule : Rule} {env : Env} {scope : Scope} {site : Site}
    (h : (rule.open env scope site).All Step.Smooth) {body : Body}
    (hb : (rule.open env scope site).value.body = some body) (inner : Scope) :
    (∀ d ∈ (rule.open env scope site).collect Step.symbol?, d.2.Sourced) ∧
      ∀ d ∈ (body.close inner).filterMap Step.symbol?, d.2.Sourced := by
  have hrule := introduces_open site scope rule env
  by_cases hc : rule = .customAction
  · subst hc
    refine ⟨fun d hd => absurd (hrule.log d hd) (by simp [Rule.asides]), ?_⟩
    simp only [Rule.open, openCustomAction, all_within, Logged.all_bind, all_report] at h
    obtain ⟨hfindings, -, hcode, -⟩ := h
    have hown : (within scope (openCustomAction site)).value.body = some body := hb
    simp only [openCustomAction] at hown
    split at hown
    · cases hown
      rintro d (_ | ⟨_, ⟨⟩⟩)
      exact sourced_codeOf rfl rfl hfindings hcode
    · cases hown
      rintro d (_ | ⟨_, ⟨⟩⟩)
      exact sourced_codeOf rfl rfl hfindings hcode
  · have hkinds : ∀ kind ∈ rule.asides ++ rule.namesakes, kind ≠ .customAction := by
      cases rule with
      | customAction => exact absurd rfl hc
      | _ => simp [Rule.asides, Rule.namesakes]
    refine ⟨fun d hd => ?_, fun d hd => ?_⟩
    · exact Symbol.Data.sourced_of_kind (hkinds _ (List.mem_append_left _ (hrule.log d hd)))
    · exact Symbol.Data.sourced_of_kind
        (hkinds _ (List.mem_append.mpr (hrule.kind_of_mem_close hb hd)))

/-! ### Walks -/

/-- The references of some steps are those for what the steps define and for what the elements schedule
that the steps are for. -/
structure Balanced (l : List Step) (sites : List Site) : Prop where
  references : l.filterMap Step.reference? ~
    l.flatMap Step.promises ++ sites.filterMap (·.element.scheduled?)
  sourced : ∀ d ∈ l.filterMap Step.symbol?, d.2.Sourced
  named : ∀ s ∈ sites, s.element.NamesAction

namespace Balanced

/-- Steps that neither define nor refer to anything. -/
theorem idle {l : List Step} (hr : ∀ s ∈ l, s.reference? = none) (hp : ∀ s ∈ l, s.promises = [])
    (hs : ∀ s ∈ l, s.symbol? = none) : Balanced l [] := by
  have hreferences := List.filterMap_eq_nil_iff.mpr hr
  have hpromises := List.flatMap_eq_nil_iff.mpr hp
  have hsymbols := List.filterMap_eq_nil_iff.mpr hs
  refine ⟨?_, ?_, ?_⟩ <;> simp [hreferences, hpromises, hsymbols]

/-- The order of the elements does not matter. -/
theorem append {l l' : List Step} {sites sites' : List Site} (h : Balanced l sites)
    (h' : Balanced l' sites') : Balanced (l ++ l') (sites ++ sites') where
  references := by
    rw [List.perm_iff_count]
    intro r
    have hcount := h.references.count_eq r
    have hcount' := h'.references.count_eq r
    simp only [List.filterMap_append, List.flatMap_append, List.count_append] at hcount hcount' ⊢
    omega
  sourced d hd := by
    rw [List.filterMap_append, List.mem_append] at hd
    rcases hd with hd | hd
    · exact h.sourced d hd
    · exact h'.sourced d hd
  named s hs := by
    rcases List.mem_append.mp hs with hs | hs
    · exact h.named s hs
    · exact h'.named s hs

/-- An element that is opened, walked through and closed. -/
theorem entered {rule : Rule} {env : Env} {scope : Scope} {site : Site} {body : Body}
    {l : List Step} {sites : List Site} (hneed : scope.Has rule.need)
    (hname : schedulingOf? site.element.name = rule.scheduling?)
    (hsmooth : (rule.open env scope site).All Step.Smooth)
    (hbody : (rule.open env scope site).value.body = some body) {inner : Scope}
    (hcloses : body.Closes inner) (h : Balanced l sites) :
    Balanced ((rule.open env scope site).log ++ (l ++ body.close inner)) (site :: sites) := by
  obtain ⟨hscheduled, hnamed⟩ := scheduled?_of_smooth hsmooth hname
  obtain ⟨hlog, hclose⟩ := sourced_open hsmooth hbody inner
  have hown := references_perm_open hneed env site body hbody inner hcloses
  rw [List.flatten_append, Logged.collect, Logged.collect, Step.flatten_promises?,
    Step.flatten_promises?] at hown
  refine ⟨?_, ?_, List.forall_mem_cons.mpr ⟨hnamed, h.named⟩⟩
  · -- what the element makes itself stands around what its children make
    have hsites : (site :: sites).filterMap (·.element.scheduled?) =
        (rule.scheduled? site.element).toList ++ sites.filterMap (·.element.scheduled?) := by
      rw [← hscheduled, List.filterMap_cons]
      cases site.element.scheduled? <;> rfl
    rw [hsites, List.perm_iff_count]
    intro r
    have hcount := hown.count_eq r
    have hinner := h.references.count_eq r
    simp only [List.filterMap_append, List.flatMap_append, List.count_append] at hcount hinner ⊢
    omega
  · intro d hd
    simp only [List.filterMap_append, List.mem_append] at hd
    rcases hd with hd | hd | hd
    · exact hlog d hd
    · exact h.sourced d hd
    · exact hclose d hd

end Balanced

/-- **The references of a walk are balanced.** -/
theorem Compile.Walk.balanced {config : Config} {unit : Option SectionKind} {content : Content}
    {site : Site} {scope after : Scope} {position : Nat} {seen : List String}
    {children : List Element} {l : List Step}
    (h : Walk config unit content site scope position seen children l after)
    (hs : site.isReached) : Balanced l (site.reachedBelow position children) := by
  induction h with
  | @nil unit content site scope position seen =>
    rw [Site.reachedBelow_nil]
    exact .idle (by simp) (by simp) (by simp)
  | @foreign unit content site scope after position seen child rest l hcore _ ih =>
    rw [Site.reachedBelow_of_foreign hcore]
    exact (Balanced.idle (l := [_]) (by simp [Step.reference?]) (by simp [Step.promises])
      (by simp [Step.symbol?])).append (ih hs)
  | @absorbed unit content site scope after position seen child rest l hcore hname hseen hleaf _
      ih =>
    obtain ⟨hscheduled, hnamed⟩ :=
      Element.scheduled?_of_schedulingOf? (schedulingOf?_of_absorbed hname)
    rw [Site.reachedBelow_of_core hs hcore, Site.reachedBelow_eq_nil _ hleaf]
    have hchild : Balanced [] [site.child position child] :=
      ⟨by simp [Site.child, hscheduled], by simp, by simpa [Site.child] using hnamed⟩
    exact hchild.append (ih hs)
  | @entered unit content site scope inner after position seen child rest rule o body l l' hcore
      hgives hneed hopen hsmooth hbody _ hclose _ ih ih' =>
    subst hopen
    rw [Site.reachedBelow_of_core hs hcore]
    exact (Balanced.entered hneed (schedulingOf?_of_gives hgives) hsmooth hbody
      (Step.Smooth.closes hclose) (ih (Site.isReached_child hs hcore))).append (ih' hs)

/-! ### Intermediates -/

/-- Everything that a document depends on is referred to, and nothing else: the directories of
components, the code of custom actions, the patches that are slipstreamed into packages, the actions
before or after others in their tables, the groups in groups, and the custom actions and dialogs that
are scheduled. -/
structure Intermediate.Promises (x : Intermediate) (root : Element) : Prop where
  directories : ∀ s ∈ x.symbols, ∀ c, s.data = .component c →
    ∃ directory, c.directory = some directory ∧ ⟨.directory, directory⟩ ∈ x.references
  sources : ∀ s ∈ x.symbols, ∀ a, s.data = .customAction a →
    ∀ kind, a.sourceKind.symbolKind? = some kind →
      ∃ source, a.source = some source ∧ ⟨kind, source⟩ ∈ x.references
  patches : ∀ s ∈ x.symbols, ∀ p, s.data = .slipstreamMsp p →
    ⟨.package, p.mspPackage⟩ ∈ x.references
  actions : ∀ s ∈ x.symbols, ∀ a, s.data = .action a →
    ∀ other, a.before = some other ∨ a.after = some other →
      ⟨.action, a.table.name ++ "." ++ other⟩ ∈ x.references
  groups : ∀ r ∈ x.groups, ∀ kind, r.child.kind.reference? = some kind →
    ⟨kind, r.child.id⟩ ∈ x.references
  scheduled : ∀ s ∈ root.reached, ∀ kind label,
    schedulingOf? s.element.name = some (kind, label) → ¬ s.element.isSuppressed →
      ∃ a, s.element.last? [label] = some a ∧ ⟨kind, Text.trimmed a.value⟩ ∈ x.references
  balance : x.references ~ x.symbols.flatMap (·.data.dependencies) ++
    (x.groups.filterMap (·.child.reference?) ++ root.reached.filterMap (·.element.scheduled?))

theorem Step.flatMap_promises (l : List Step) : l.flatMap promises ~
    (l.filterMap symbol?).flatMap (·.2.dependencies) ++
      (l.filterMap group?).filterMap (·.child.reference?) := by
  rw [List.perm_iff_count]
  intro r
  induction l with
  | nil => rfl
  | cons s l ih =>
    rw [List.flatMap_cons, List.count_append, ih, List.count_append, List.count_append]
    cases s with
    | emit id data => simp [promises, symbol?, group?, List.filterMap_cons]; omega
    | group g =>
      cases hg : g.child.reference? with
      | none => simp [promises, symbol?, group?, List.filterMap_cons, hg]
      | some r' => simp [promises, symbol?, group?, List.filterMap_cons, hg, List.count_cons]; omega
    | _ => simp [promises, symbol?, group?, List.filterMap_cons]

namespace Balanced

variable {l : List Step} {root : Element} {o : Output}

/-- The references of an output, from those of its steps. -/
theorem references_perm (h : Balanced l root.reached) (ho : o.Yields l) :
    o.intermediate.references ~ o.intermediate.symbols.flatMap (·.data.dependencies) ++
      (o.intermediate.groups.filterMap (·.child.reference?) ++
        root.reached.filterMap (·.element.scheduled?)) := by
  have hsymbols : o.intermediate.symbols.flatMap (·.data.dependencies) =
      (l.filterMap Step.symbol?).flatMap (·.2.dependencies) := by
    rw [← ho.symbols, List.flatMap_map]
  rw [hsymbols, ho.references, ho.groups, ← List.append_assoc]
  exact h.references.trans ((Step.flatMap_promises l).append_right _)

theorem promises (h : Balanced l root.reached) (ho : o.Yields l) (hw : ∀ s ∈ l, s.WellFormed) :
    o.intermediate.Promises root := by
  have hbalance := h.references_perm ho
  have hstep : ∀ s ∈ o.intermediate.symbols, (s.id, s.data) ∈ l.filterMap Step.symbol? := by
    intro s hs
    rw [← ho.symbols]
    exact List.mem_map_of_mem hs
  have hsymbol : ∀ s ∈ o.intermediate.symbols, ∀ r ∈ s.data.dependencies,
      r ∈ o.intermediate.references := by
    intro s hs r hr
    exact hbalance.mem_iff.mpr (List.mem_append_left _ (List.mem_flatMap.mpr ⟨s, hs, hr⟩))
  refine ⟨?_, ?_, ?_, ?_, ?_, ?_, hbalance⟩
  · intro s hs c hc
    obtain ⟨step, hmem, hemit⟩ := List.mem_filterMap.mp (hstep s hs)
    cases step with
    | emit id data =>
      cases hemit
      obtain ⟨-, hdomain⟩ := hw _ hmem _ _ rfl
      rw [hc] at hdomain
      obtain ⟨-, directory, hdirectory, -⟩ := hdomain
      refine ⟨directory, hdirectory, hsymbol s hs _ ?_⟩
      simp [hc, Symbol.Data.dependencies, hdirectory]
    | _ => cases hemit
  · intro s hs a ha kind hk
    obtain ⟨source, hsource⟩ := h.sourced _ (hstep s hs) a ha kind hk
    refine ⟨source, hsource, hsymbol s hs _ ?_⟩
    simp [ha, Symbol.Data.dependencies, hk, hsource]
  · intro s hs p hp
    exact hsymbol s hs _ (by simp [hp, Symbol.Data.dependencies])
  · intro s hs a ha other hother
    exact hsymbol s hs _ (by simpa [ha, Symbol.Data.dependencies] using hother)
  · intro r hr kind hk
    refine hbalance.mem_iff.mpr (List.mem_append_right _ (List.mem_append_left _ ?_))
    exact List.mem_filterMap.mpr ⟨r, hr, by simp [Member.reference?, hk]⟩
  · intro s hs kind label hlabel hsuppressed
    obtain ⟨a, ha⟩ := h.named s hs kind label hlabel
    refine ⟨a, ha, hbalance.mem_iff.mpr (List.mem_append_right _ (List.mem_append_right _ ?_))⟩
    exact List.mem_filterMap.mpr ⟨s, hs, by simp [Element.scheduled?, hlabel, hsuppressed, ha]⟩

end Balanced

/-- **Every dependency is promised, and nothing else is.** In a compile that succeeds without extensions
the references are those that the symbols, the groups and the scheduled actions call for. -/
theorem Compiler.compileAs_promises {c : Compiler} (hc : c.extensions = []) {k : UInt32}
    {root : Element} {o : Output} (h : (c.compileAs k root).result = .ok o) (hs : o.isSuccess) :
    o.intermediate.Promises root := by
  have hsmooth := smooth_of_isSuccess h hs
  obtain ⟨hroot, l, after, hwalk, hplan⟩ := exists_walk hsmooth
  obtain ⟨hcore, hname⟩ := Element.core_of_qname hroot
  have hnone : schedulingOf? root.name = none := by
    rw [hname]
    rfl
  obtain ⟨hscheduled, hnamed⟩ := Element.scheduled?_of_schedulingOf? hnone
  have hreports : Balanced ((root.checkAttributes []).map .report) [] :=
    .idle (by simp [Step.reference?]) (by simp [Step.promises]) (by simp [Step.symbol?])
  have hoffers : Balanced (offerAttributes (Site.root root) []).log [] :=
    .idle (by simp [offerAttributes, Step.reference?]) (by simp [offerAttributes, Step.promises])
      (by simp [offerAttributes, Step.symbol?])
  have hself : Balanced [] [Site.root root] :=
    ⟨by simp [hscheduled], by simp, by simpa using hnamed⟩
  have hbalanced : Balanced (plan c.config root) root.reached := by
    rw [hplan, Element.reached_eq hcore]
    exact hreports.append (hoffers.append
      (hself.append (hwalk.balanced (Site.isReached_root hcore))))
  exact hbalanced.promises (yields_of_isSuccess hc h hs)
    (wellFormed_plan fun s hmem => (hsmooth s hmem).clean)

namespace Sample

/-- A module and a bundle that depend on what other documents define. -/
def dependent : Element :=
  element "Wix" [] [
    element "Module" [("Id", "M"), ("Language", "1033"), ("Version", "1.0")] [
      element "Component" [("Id", "C")] [],
      element "CustomAction" [("Id", "Configure"), ("BinaryRef", "Tools"), ("DllEntry", "Run")] [],
      element "InstallExecuteSequence" [] [
        element "Custom" [("Action", " Configure "), ("After", "InstallFiles")] [],
        element "Custom" [("Action", "Legacy"), ("Suppress", "yes")] []],
      element "InstallUISequence" [] [
        element "Show" [("Dialog", "Welcome"), ("OnExit", "success")] []]],
    element "Bundle" [("Id", "B"), ("Version", "1.0")] [
      element "Chain" [] [
        element "MsiPackage" [("Id", "Tool"), ("SourceFile", "tool.msi")] [
          element "SlipstreamMsp" [("Id", "Fix")] [],
          element "PayloadGroupRef" [("Id", "Files")] []],
        element "PackageGroupRef" [("Id", "More")] []]]]

end Sample

/-- The references for it. The action that is suppressed has none. -/
theorem compileAs_promises_dependent : ∃ o,
    (Compiler.compileAs {} 0 Sample.dependent).result = .ok o ∧ o.isSuccess ∧
      o.intermediate.references = [
        ⟨.directory, "INSTALLFOLDER"⟩, ⟨.binary, "Tools"⟩, ⟨.customAction, "Configure"⟩,
        ⟨.action, "ModuleInstallExecuteSequence.InstallFiles"⟩, ⟨.dialog, "Welcome"⟩,
        ⟨.package, "Fix"⟩, ⟨.payloadGroup, "Files"⟩, ⟨.packageGroup, "More"⟩] ∧
      o.intermediate.Promises Sample.dependent := by
  have h : (Compiler.compileAs {} 0 Sample.dependent).result = .ok _ := rfl
  exact ⟨_, h, by decide +kernel, by decide +kernel,
    Compiler.compileAs_promises rfl h (by decide +kernel)⟩

end Installer
