import Installer.Proofs.Collect
import Mathlib.Data.List.Basic

/-! # What is named for an element

Most elements define a symbol in their own name when they are closed, the last one of all that they
define (`Rule.namesakes`), and a few elements define others beside it (`Rule.asides`). Extensions are told
about an element before its symbol is there, and what they are told is the identifier that the symbol
will have (`Context.Tells`). `introduces_open` says so for all rules. -/

namespace Installer

open Compile Planned

instance : Step.IgnoresReports Step.symbol? := ⟨fun _ => rfl⟩

/-- A symbol before it is put into a section. -/
abbrev Definition := Identifier × Symbol.Data

/-- What is told about an element agrees with the symbol that is named for it: the identifier, and that
of the payload if the element is a package. -/
structure Context.Tells (context : Context) (d : Definition) : Prop where
  id : context.lookup "Id" = some d.1.id
  payload : ∀ p, d.2 = .package p → context.lookup "PayloadId" = some p.payload

theorem Context.tells_of_kind {context : Context} {d : Definition}
    (hid : context.lookup "Id" = some d.1.id) (hk : d.2.kind ≠ .package) : context.Tells d := by
  refine ⟨hid, fun p hp => ?_⟩
  rw [hp] at hk
  exact absurd rfl hk

namespace Rule

/-- The kinds of symbols that are named for an element. -/
def namesakes : Rule → List SymbolKind
  | bundle => [.bundle]
  | package => [.packageSummary]
  | module => [.moduleSignature]
  | patch => [.patch]
  | bootstrapperApplication => [.bootstrapperApplication]
  | log => [.bundleLog]
  | update => [.bundleUpdate]
  | relatedBundle => [.relatedBundle]
  | variableValue => [.variableValue]
  | chain => [.chain]
  | packageGroup => [.packageGroup]
  | payloadGroup => [.payloadGroup]
  | container => [.container]
  | rollbackBoundary => [.rollbackBoundary]
  | payload => [.payload]
  | chainPackage _ => [.package]
  | msiProperty => [.msiProperty]
  | slipstreamMsp => [.slipstreamMsp]
  | exitCode => [.exitCode]
  | component => [.component]
  | registryValue => [.registry]
  | customAction => [.customAction]
  | property => [.property]
  | patchProperty => [.patchProperty]
  | action _ => [.action, .suppressAction]
  | fragment | packageGroupRef | payloadGroupRef | arpEntry | registryKey | sequence _ => []

/-- The kinds of symbols that an element defines beside its own. -/
def asides : Rule → List SymbolKind
  | bundle => [.dependencyProvider]
  | package => [.dependencyProvider, .property]
  | bootstrapperApplication | chainPackage _ => [.payload]
  | _ => []

end Rule

/-- What an element defines: when it is opened only other symbols than its own, and when it is closed its
own one after others. Its children are read while extensions are told about it. -/
structure Introduces (rule : Rule) (o : Planned Opening) : Prop where
  log : ∀ d ∈ o.collect Step.symbol?, d.2.kind ∈ rule.asides
  close : ∀ body, o.value.body = some body → ∀ inner,
    ∃ (others : List Definition) (own : Option Definition),
      (body.close inner).filterMap Step.symbol? = others ++ own.toList ∧
      (∀ d ∈ others, d.2.kind ∈ rule.asides) ∧
      (body.Closes inner → (own = none ↔ rule.namesakes = [])) ∧
      ∀ d ∈ own, d.2.kind ∈ rule.namesakes ∧
        (d.1.isInvalid = false → body.scope.context.Tells d)

theorem Identifier.lookup_validContext {id : Identifier} (h : id.isInvalid = false) :
    id.validContext.lookup "Id" = some id.id := by
  simp [validContext, h, context]

namespace Introduces

variable {rule : Rule} {o : Planned Opening} {body : Body}

/-- An element whose children are left alone. -/
theorem of_none (hlog : o.collect Step.symbol? = []) (hbody : o.value.body = none) :
    Introduces rule o := by
  refine ⟨by simp [hlog], fun body hb => ?_⟩
  rw [hbody] at hb
  cases hb

/-- An element without a symbol of its own. -/
theorem of_nil (hlog : o.collect Step.symbol? = []) (hbody : o.value.body = some body)
    (hclose : ∀ inner, (body.close inner).filterMap Step.symbol? = [])
    (hn : rule.namesakes = []) : Introduces rule o := by
  refine ⟨by simp [hlog], fun body' hb inner => ⟨[], none, ?_, by simp, by simp [hn], by simp⟩⟩
  rw [hbody] at hb
  cases hb
  simpa using hclose inner

/-- An element that defines its own symbol in the end. -/
theorem of_concat (others : List Definition) (own : Scope → Definition)
    (hlog : ∀ d ∈ o.collect Step.symbol?, d.2.kind ∈ rule.asides)
    (hbody : o.value.body = some body)
    (hclose : ∀ inner, (body.close inner).filterMap Step.symbol? = others ++ [own inner])
    (hothers : ∀ d ∈ others, d.2.kind ∈ rule.asides)
    (hown : ∀ inner, (own inner).2.kind ∈ rule.namesakes)
    (htells : ∀ inner, (own inner).1.isInvalid = false → body.scope.context.Tells (own inner)) :
    Introduces rule o := by
  refine ⟨hlog, fun body' hb inner => ⟨others, some (own inner), ?_, hothers, ?_, ?_⟩⟩
  · rw [hbody] at hb
    cases hb
    simpa using hclose inner
  · simpa using fun _ => List.ne_nil_of_mem (hown inner)
  · rw [hbody] at hb
    cases hb
    rintro d ⟨⟩
    exact ⟨hown inner, htells inner⟩

/-- A leaf that defines its own symbol. -/
theorem of_leaf {id : Identifier} {data : Symbol.Data} (hlog : o.collect Step.symbol? = [])
    (hbody : o.value.body =
      some ⟨.nothing, { context := id.validContext }, none, fun _ => [.emit id data]⟩)
    (hk : data.kind ∈ rule.namesakes) (hp : data.kind ≠ .package) : Introduces rule o := by
  exact of_concat [] (fun _ => (id, data)) (by simp [hlog]) hbody (fun _ => rfl)
    (by simp) (fun _ => hk) fun _ hid =>
      Context.tells_of_kind (Identifier.lookup_validContext hid) hp

end Introduces

section Rules
variable (site : Site) (scope : Scope)

attribute [local simp] Step.symbol? collect_offerAttributes collect_leaf collect_packagePayload
  List.filterMap_none

theorem kind_of_mem_providerSteps {e : Element} {parent : Identifier} {d : Definition}
    (h : d ∈ (providerSteps e parent).filterMap Step.symbol?) : d.2.kind = .dependencyProvider := by
  simp only [providerSteps_eq_map, List.filterMap_map, List.mem_filterMap, Function.comp_apply] at h
  obtain ⟨a, -, ha⟩ := h
  split_ifs at ha
  · cases ha
    rfl
  · cases ha

/-- A package is defined after its payload. -/
theorem symbol_packageSteps (kind : Symbol.PackageKind) (e : Element) (p : PackagePayload)
    (entry : Option ArpEntry) : ∃ package : Symbol.Package,
      (packageSteps kind e p entry).filterMap Step.symbol? =
        [(p.payloadId, .payload p.payload), (p.packageId, .package package)] ∧
      package.payload = p.payloadId.id := by
  have hreports : ∀ ds : List Diagnostic, (ds.map Step.report).filterMap Step.symbol? = [] := by
    simp
  simp only [packageSteps, List.filterMap_append, hreports]
  exact ⟨_, rfl, rfl⟩

/-- A scheduled action defines one symbol, whether it is suppressed or not. -/
theorem symbol_actionSteps (kind : ActionKind) (e : Element) (table : Symbol.SequenceTable)
    (action : String) : ∃ data : Symbol.Data, (actionSteps kind e table action).filterMap
        Step.symbol? = [(.ofName (actionId table action), data)] ∧
      data.kind ∈ (Rule.action kind).namesakes := by
  unfold actionSteps
  dsimp only
  split_ifs
  · exact ⟨_, rfl, .tail _ (.head _)⟩
  · simp only [List.filterMap_append, List.filterMap_map, Function.comp_def, Step.symbol?,
      List.filterMap_none]
    exact ⟨_, rfl, .head _⟩

/-- The steps of a unit with provider keys, before its children. -/
theorem collect_opened {e : Element} {id : Identifier} {header : UnitHeader} {context : Context}
    {ds ds' : List Diagnostic} {body : Body} : Logged.collect Step.symbol? (do
        report ds
        report ds'
        Logged.tell [.openUnit header]
        Logged.tell (providerSteps e id)
        offerAttributes site context
        return body) = (providerSteps e id).filterMap Step.symbol? := by
  simp only [Logged.collect_bind, collect_report, Logged.collect_tell, collect_offerAttributes,
    Logged.collect_pure, List.nil_append, List.append_nil, Step.symbol?, List.filterMap_none]
  rfl

theorem collect_bundle : ∃ id, (within scope (openBundle site)).collect Step.symbol? =
    (providerSteps site.element id).filterMap Step.symbol? :=
  ⟨_, by rw [collect_within]; exact collect_opened site⟩

theorem collect_package : ∃ id, (within scope (openPackage site)).collect Step.symbol? =
    (providerSteps site.element id).filterMap Step.symbol? :=
  ⟨_, by rw [collect_within]; exact collect_opened site⟩

theorem introduces_bundle : Introduces .bundle (within scope (openBundle site)) := by
  obtain ⟨id, hlog⟩ := collect_bundle site scope
  refine .of_concat [] (fun _ => (_, _)) (fun d hd => ?_) rfl (fun _ => rfl) (by simp)
    (fun _ => .head _) fun _ _ => Context.tells_of_kind rfl (by rintro ⟨⟩)
  rw [hlog] at hd
  rw [kind_of_mem_providerSteps hd]
  exact .head _

theorem introduces_package : Introduces .package (within scope (openPackage site)) := by
  refine ⟨fun d hd => ?_, ?_⟩
  · obtain ⟨id, hlog⟩ := collect_package site scope
    rw [hlog] at hd
    rw [kind_of_mem_providerSteps hd]
    exact .head _
  · simp only [openPackage, Logged.value_bind, Logged.value_pure, value_within, Option.some.injEq,
      forall_eq']
    intro inner
    refine ⟨_, some (_, _), List.filterMap_append, ?_, by simp [Rule.namesakes], ?_⟩
    · -- all that is defined before the summary are properties
      simp [builtInProperty, Symbol.Data.kind, Rule.asides, or_imp, forall_and]
    · rintro _ ⟨⟩
      exact ⟨.head _, fun _ => Context.tells_of_kind List.lookup_cons_self (by rintro ⟨⟩)⟩

theorem introduces_bootstrapperApplication :
    Introduces .bootstrapperApplication (within scope (openBootstrapperApplication site)) := by
  simp only [openBootstrapperApplication]
  split
  · exact .of_concat [] (fun _ => (_, _)) (by simp) rfl (fun _ => rfl) (by simp) (fun _ => .head _)
      fun _ _ => Context.tells_of_kind rfl (by rintro ⟨⟩)
  · exact .of_concat [] (fun _ => (_, _)) (by simp [Symbol.Data.kind, Rule.asides]) rfl (fun _ => rfl)
      (by simp) (fun _ => .head _) fun _ _ => Context.tells_of_kind rfl (by rintro ⟨⟩)

/-- A package is defined when it is closed, after its payload, and both identifiers are told. -/
theorem symbol_chainPackage (kind : Symbol.PackageKind) (env : Env) {body : Body}
    (hb : (openChainPackage kind env scope site).value.body = some body) {inner : Scope}
    {entry : Option ArpEntry} (hclose : body.close inner =
      packageSteps kind site.element (packagePayload kind site).value entry) :
    ∃ package : Symbol.Package, (body.close inner).filterMap Step.symbol? =
        [((packagePayload kind site).value.payloadId, .payload (packagePayload kind site).value.payload),
          ((packagePayload kind site).value.packageId, .package package)] ∧
      body.scope.context.Tells
        ((packagePayload kind site).value.packageId, .package package) := by
  obtain ⟨package, hsteps, hpayload⟩ := symbol_packageSteps kind site.element
    (packagePayload kind site).value entry
  rw [hclose]
  simp only [openChainPackage] at hb
  split at hb
  · cases hb
  · cases hb
    refine ⟨package, hsteps, rfl, ?_⟩
    rintro _ ⟨⟩
    rw [hpayload]
    rfl

theorem collect_chainPackage (kind : Symbol.PackageKind) (env : Env) :
    (openChainPackage kind env scope site).collect Step.symbol? = [] := by
  simp only [openChainPackage]
  split
  · rfl
  · simp

theorem introduces_chainPackage (kind : Symbol.PackageKind) (env : Env) :
    Introduces (.chainPackage kind) (openChainPackage kind env scope site) := by
  refine ⟨by simp [collect_chainPackage], fun body hb inner => ?_⟩
  rcases close_openChainPackage_cases hb inner with ⟨-, entry, -, hclose⟩ | hhalt
  · obtain ⟨package, hsteps, htells⟩ := symbol_chainPackage site scope kind env hb hclose
    refine ⟨[_], some _, hsteps, by simp [Symbol.Data.kind, Rule.asides], by simp [Rule.namesakes], ?_⟩
    rintro _ ⟨⟩
    exact ⟨.head _, fun _ => htells⟩
  · -- nothing is defined if closing gives up
    refine ⟨[], none, by rw [hhalt]; rfl, by simp, fun hcloses => ?_, by simp⟩
    exact absurd (by simp [hhalt]) (hcloses .noPackage)

/-- **What elements define.** -/
theorem introduces_open (rule : Rule) (env : Env) :
    Introduces rule (rule.open env scope site) := by
  cases rule with
  | bundle => exact introduces_bundle site scope
  | package => exact introduces_package site scope
  | bootstrapperApplication => exact introduces_bootstrapperApplication site scope
  | chainPackage kind => exact introduces_chainPackage site scope kind env
  | module | patch =>
    exact .of_concat [] (fun _ => (_, _)) (by simp [Rule.open, openModule, openPatch]) rfl
      (fun _ => rfl) (by simp) (fun _ => .head _) fun _ _ => Context.tells_of_kind rfl (by rintro ⟨⟩)
  | fragment => exact .of_nil (by simp [Rule.open, openFragment]) rfl (fun _ => rfl) rfl
  | log | update | relatedBundle | variableValue | property | patchProperty =>
    exact .of_leaf (by simp [Rule.open, openLog, openUpdate, openRelatedBundle, openVariable,
      openProperty, openPatchProperty]) rfl (.head _) (by rintro ⟨⟩)
  | chain | packageGroup | payloadGroup | container | component =>
    exact .of_concat [] (fun _ => (_, _)) (by simp [Rule.open, openChain, openPackageGroup,
      openPayloadGroup, openContainer, openComponent]) rfl
      (fun _ => rfl) (by simp) (fun _ => .head _) fun _ _ => Context.tells_of_kind rfl (by rintro ⟨⟩)
  | packageGroupRef | payloadGroupRef =>
    simp only [Rule.open, openPackageGroupRef, openPayloadGroupRef]
    split
    · exact .of_none rfl rfl
    · exact .of_nil (by simp) rfl (fun _ => rfl) rfl
  | rollbackBoundary | payload =>
    simp only [Rule.open, openRollbackBoundary, openPayload]
    split
    · exact .of_none rfl rfl
    · exact .of_leaf (by simp) rfl (.head _) (by rintro ⟨⟩)
  | msiProperty | slipstreamMsp | exitCode =>
    simp only [Rule.open, openMsiProperty, openSlipstreamMsp, openExitCode]
    split
    · exact .of_leaf (by simp) rfl (.head _) (by rintro ⟨⟩)
    · exact .of_none rfl rfl
  | arpEntry =>
    simp only [Rule.open, openArpEntry]
    split
    · exact .of_nil (by simp) rfl (fun _ => rfl) rfl
    · exact .of_none rfl rfl
  | registryKey =>
    simp only [Rule.open, openRegistryKey]
    split
    · exact .of_none rfl rfl
    · exact .of_nil (by simp) rfl (fun _ => rfl) rfl
  | registryValue =>
    simp only [Rule.open, openRegistryValue]
    split
    · exact .of_none rfl rfl
    · exact .of_leaf (by simp) rfl (.head _) (by rintro ⟨⟩)
  | customAction =>
    simp only [Rule.open, openCustomAction]
    split <;> exact .of_leaf (by simp) rfl (.head _) (by rintro ⟨⟩)
  | sequence s => exact .of_nil (by simp [Rule.open, openSequence]) rfl (fun _ => rfl) rfl
  | action kind =>
    simp only [Rule.open, openAction]
    split
    · next table _ =>
      split_ifs
      · exact .of_none (by simp) rfl
      · obtain ⟨data, hdata, hkind⟩ :=
          symbol_actionSteps kind site.element table (actionName kind site.element)
        refine .of_concat [] (fun _ => (_, data)) (by simp) rfl (fun _ => hdata) (by simp)
          (fun _ => hkind) fun _ _ => Context.tells_of_kind rfl ?_
        intro hp
        rw [hp] at hkind
        simp [Rule.namesakes] at hkind
    · exact .of_none (by simp) rfl

end Rules

end Installer
