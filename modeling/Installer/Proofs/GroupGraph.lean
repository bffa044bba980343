import Installer.Proofs.Groups

/-! # The graph of groups

Every place in a group has two ends. The child is a symbol of the same document, or a group that the
document refers to, and the group itself is defined by a symbol too. Conversely every package, every
rollback boundary and every payload has just one place (`Intermediate.GroupsClosed`).

A place is handed out when an element is opened and the symbols are defined when it is closed, so that
the two are compared over the whole walk of an element (`Walk.registered`). -/

namespace Installer

open Compile Planned
open scoped List

/-! ### Symbols in groups -/

/-- The kind of symbol that has to exist elsewhere, if the child is a group by reference. -/
def MemberKind.reference? : MemberKind → Option SymbolKind
  | packageGroup => some .packageGroup
  | payloadGroup => some .payloadGroup
  | package | payload => none

/-- A child that is defined where it has its place. -/
def Member.isDefined (m : Member) : Bool := m.kind.reference?.isNone

namespace SymbolKind

/-- What groups know the symbols of a kind as. -/
def member? : SymbolKind → Option MemberKind
  | package | rollbackBoundary => some .package
  | payload => some .payload
  | _ => none

/-- The group that a symbol of a kind defines. -/
def group? (id : String) : SymbolKind → Option Group
  | bundle => some ⟨.layout, Identifier.layoutOnlyPayloads⟩
  | chain => some ⟨.packageGroup, Identifier.chainGroup⟩
  | packageGroup => some ⟨.packageGroup, id⟩
  | bootstrapperApplication => some ⟨.container, Identifier.interfaceContainer⟩
  | container => some ⟨.container, id⟩
  | payloadGroup => some ⟨.payloadGroup, id⟩
  | package => some ⟨.package, id⟩
  | _ => none

theorem member?_eq_package_iff {kind : SymbolKind} :
    kind.member? = some .package ↔ kind = .package ∨ kind = .rollbackBoundary := by
  cases kind <;> decide

theorem member?_eq_payload_iff {kind : SymbolKind} :
    kind.member? = some .payload ↔ kind = .payload := by
  cases kind <;> decide

end SymbolKind

namespace Step

/-- The child of groups that a step defines. -/
def member? : Step → Option Member
  | .emit id data => data.kind.member?.map (⟨·, id.id⟩)
  | _ => none

/-- The group that a step defines. -/
def definedGroup? : Step → Option Group
  | .emit id data => data.kind.group? id.id
  | _ => none

instance : IgnoresReports member? := ⟨fun _ => rfl⟩

end Step

/-! ### What rules define -/

/-- The members that an element brings into groups. -/
def Rule.members (rule : Rule) (scope : Scope) (site : Site) : List Member :=
  (rule.items scope site).map (·.1) ++ ((rule.group? site.element).map (·.own)).getD []

/-- What an element defines by the time it is closed: the members that it brings into groups, unless it
only refers to them, and the group that it opens. -/
structure Defines (rule : Rule) (scope : Scope) (site : Site) (o : Planned Opening) : Prop where
  references : ∀ m ∈ rule.members scope site, ∀ kind, m.kind.reference? = some kind →
    .refer ⟨kind, m.id⟩ ∈ o.log
  members : ∀ body, o.value.body = some body → ∀ inner, body.Closes inner →
    o.collect Step.member? ++ (body.close inner).filterMap Step.member? ~
      (rule.members scope site).filter (·.isDefined)
  group : ∀ start, rule.group? site.element = some start → ∀ body, o.value.body = some body →
    ∀ inner, body.Closes inner → ∃ s ∈ body.close inner, s.definedGroup? = some start.group

section Rules
variable {rule : Rule} {scope : Scope}

attribute [local simp] Step.member? SymbolKind.member? Step.definedGroup? SymbolKind.group?
  Symbol.Data.kind
  List.filterMap_none collect_packagePayload collect_offerAttributes collect_leaf
  value_packagePayload Rule.members Rule.items Rule.member? Rule.group? Member.isDefined
  MemberKind.reference?

theorem member_packageSteps (kind : Symbol.PackageKind) (e : Element) (p : PackagePayload)
    (entry : Option ArpEntry) : (packageSteps kind e p entry).filterMap Step.member? =
      [⟨.payload, p.payloadId.id⟩, ⟨.package, p.packageId.id⟩] := by
  simp [packageSteps]

theorem exists_group_packageSteps (kind : Symbol.PackageKind) (e : Element) (p : PackagePayload)
    (entry : Option ArpEntry) : ∃ s ∈ packageSteps kind e p entry,
      s.definedGroup? = some ⟨.package, p.packageId.id⟩ := by
  simp only [packageSteps, List.mem_append, List.mem_cons, or_and_right, exists_or]
  simp

/-- The members of other groups are referred to. -/
theorem references_open (h : scope.Has rule.need) (env : Env) (site : Site) :
    ∀ m ∈ rule.members scope site, ∀ kind, m.kind.reference? = some kind →
      .refer ⟨kind, m.id⟩ ∈ (rule.open env scope site).log := by
  cases rule with
  | packageGroupRef | payloadGroupRef =>
    obtain ⟨c, hc⟩ := h.group
    simp [Rule.open, openPackageGroupRef, openPayloadGroupRef, hc, referenceId, refer]
  | rollbackBoundary | payload | chainPackage kind =>
    obtain ⟨c, hc⟩ := h.group
    simp [hc]
  | _ => simp

/-- The group that an element opens is defined when the element is closed. -/
theorem definedGroup_open (h : scope.Has rule.need) (env : Env) (site : Site) :
    ∀ start, rule.group? site.element = some start → ∀ body,
      (rule.open env scope site).value.body = some body → ∀ inner, body.Closes inner →
        ∃ s ∈ body.close inner, s.definedGroup? = some start.group := by
  cases rule with
  | bundle | chain | packageGroup | payloadGroup | container =>
    simp [Rule.open, openBundle, openChain, openPackageGroup, openPayloadGroup, openContainer,
      Identifier.ofName]
  | bootstrapperApplication =>
    simp only [Rule.open, openBootstrapperApplication]
    split <;> simp [*, applicationId]
  | chainPackage kind =>
    intro start hstart body hbody inner hcloses
    obtain ⟨-, entry, -, hclose⟩ := close_openChainPackage hbody hcloses
    obtain rfl := Option.some.inj hstart
    rw [hclose, value_packagePayload]
    exact exists_group_packageSteps kind site.element _ entry
  | _ => simp

/-- The members that an element brings along are defined, each of them once. -/
theorem members_open (h : scope.Has rule.need) (env : Env) (site : Site) :
    ∀ body, (rule.open env scope site).value.body = some body → ∀ inner, body.Closes inner →
      (rule.open env scope site).collect Step.member? ++
          (body.close inner).filterMap Step.member? ~
        (rule.members scope site).filter (·.isDefined) := by
  cases rule with
  | bundle | package | module | patch | fragment =>
    simp [Rule.open, openBundle, openPackage, openModule, openPatch, openFragment,
      filterMap_providerSteps Step.member? fun _ _ => rfl, builtInProperty, or_imp, forall_and]
  | bootstrapperApplication =>
    simp only [Rule.open, openBootstrapperApplication]
    split <;> simp [*, applicationId]
  | log | update | relatedBundle | variableValue =>
    simp [Rule.open, openLog, openUpdate, openRelatedBundle, openVariable]
  | chain | packageGroup | payloadGroup | container =>
    simp [Rule.open, openChain, openPackageGroup, openPayloadGroup, openContainer]
  | packageGroupRef | payloadGroupRef | rollbackBoundary | payload =>
    obtain ⟨c, hc⟩ := h.group
    simp [Rule.open, openPackageGroupRef, openPayloadGroupRef, openRollbackBoundary, openPayload, hc,
      boundaryId, payloadId]
  | chainPackage kind =>
    obtain ⟨c, hc⟩ := h.group
    have hnone : (packagePayload kind site).collect Step.member? = [] := by simp
    intro body hbody inner hcloses
    obtain ⟨-, entry, -, hclose⟩ := close_openChainPackage hbody hcloses
    rw [hclose, member_packageSteps]
    simpa [Rule.open, openChainPackage, hc, hnone] using List.Perm.swap _ _ _
  | msiProperty | slipstreamMsp | exitCode | arpEntry =>
    obtain ⟨owner, entry, hp⟩ := h.package
    simp [Rule.open, openMsiProperty, openSlipstreamMsp, openExitCode, openArpEntry, hp]
  | registryKey | registryValue =>
    obtain ⟨place, hp⟩ := Option.isSome_iff_exists.mp h
    simp [Rule.open, openRegistryKey, openRegistryValue, hp]
  | component | property | patchProperty | sequence s =>
    simp [Rule.open, openComponent, openProperty, openPatchProperty, openSequence]
  | customAction =>
    simp only [Rule.open, openCustomAction]
    split <;> simp
  | action kind =>
    simp only [Rule.open, openAction]
    split
    · split_ifs
      · simp
      · simpa using fun _ _ => forall_mem_actionSteps Step.member? (fun _ => rfl)
          (fun _ _ => rfl) (fun _ _ => rfl) _ _ _ _
    · simp

theorem defines_open (h : scope.Has rule.need) (env : Env) (site : Site) :
    Defines rule scope site (rule.open env scope site) :=
  ⟨references_open h env site, members_open h env site, definedGroup_open h env site⟩

end Rules

section Places
variable {rule : Rule} {scope : Scope}

/-- The children of the places that an opening hands out. -/
theorem map_child_open (h : scope.Has rule.need) (env : Env) (site : Site) :
    ((rule.open env scope site).collect Step.group?).map (·.child) = rule.members scope site := by
  rw [(places_open h env site).log, List.map_append]
  congr 1
  · cases hc : scope.cursor with
    | none => simp [Scope.places, hc, Rule.items]
    | some c => rw [Scope.places_of_cursor hc, GroupCursor.map_child_place]
  · cases rule.group? site.element with
    | none => rfl
    | some start => simp [GroupStart.places, GroupCursor.map_child_place, Function.comp_def]

/-- The groups of the places that an opening hands out. -/
theorem parent_open (h : scope.Has rule.need) {env : Env} {site : Site} {r : GroupReference}
    (hr : r ∈ (rule.open env scope site).collect Step.group?) :
    scope.cursor.map (·.group) = some r.parent ∨
      ∃ start, rule.group? site.element = some start ∧ start.group = r.parent := by
  rw [(places_open h env site).log, List.mem_append] at hr
  rcases hr with hr | hr
  · cases hc : scope.cursor with
    | none => simp [Scope.places, hc] at hr
    | some c =>
      rw [Scope.places_of_cursor hc] at hr
      exact .inl (by rw [GroupCursor.parent_of_mem_place hr, Option.map_some])
  · cases hg : rule.group? site.element with
    | none => simp [hg] at hr
    | some start =>
      simp only [hg, Option.map_some, Option.getD_some, GroupStart.places] at hr
      exact .inr ⟨start, rfl, (GroupCursor.parent_of_mem_place hr).symm⟩

end Places

/-! ### Walks -/

/-- What the steps for some children of an element, with the scope before and after them, define. -/
structure Registered (scope : Scope) (l : List Step) (after : Scope) : Prop where
  group : after.cursor.map (·.group) = scope.cursor.map (·.group)
  references : ∀ r ∈ l.filterMap Step.group?, ∀ kind, r.child.kind.reference? = some kind →
    .refer ⟨kind, r.child.id⟩ ∈ l
  members : l.filterMap Step.member? ~
    ((l.filterMap Step.group?).map (·.child)).filter (·.isDefined)
  parents : ∀ r ∈ l.filterMap Step.group?, scope.cursor.map (·.group) = some r.parent ∨
    ∃ s ∈ l, s.definedGroup? = some r.parent

namespace Registered

/-- Steps that neither define a child nor hand out a place change nothing. -/
theorem idle (scope : Scope) {l : List Step} (hg : ∀ s ∈ l, s.group? = none)
    (hm : ∀ s ∈ l, s.member? = none) : Registered scope l scope := by
  have hgroups := List.filterMap_eq_nil_iff.mpr hg
  have hmembers := List.filterMap_eq_nil_iff.mpr hm
  refine ⟨rfl, ?_, ?_, ?_⟩ <;> simp [hgroups, hmembers]

theorem append {scope scope' after : Scope} {l l' : List Step} (h : Registered scope l scope')
    (h' : Registered scope' l' after) : Registered scope (l ++ l') after where
  group := h'.group.trans h.group
  references r hr kind hk := by
    rw [List.filterMap_append, List.mem_append] at hr
    rcases hr with hr | hr
    · exact List.mem_append_left _ (h.references r hr kind hk)
    · exact List.mem_append_right _ (h'.references r hr kind hk)
  members := by
    rw [List.filterMap_append, List.filterMap_append, List.map_append, List.filter_append]
    exact h.members.append h'.members
  parents r hr := by
    rw [List.filterMap_append, List.mem_append] at hr
    rcases hr with hr | hr
    · exact (h.parents r hr).imp_right fun ⟨s, hs, hg⟩ => ⟨s, List.mem_append_left _ hs, hg⟩
    · rw [← h.group]
      exact (h'.parents r hr).imp_right fun ⟨s, hs, hg⟩ => ⟨s, List.mem_append_right _ hs, hg⟩

/-- An element that is opened, walked through and closed. -/
theorem entered {rule : Rule} {env : Env} {scope inner : Scope} {site : Site} {body : Body}
    {l : List Step} (hneed : scope.Has rule.need)
    (hbody : (rule.open env scope site).value.body = some body)
    (h : Registered body.scope l inner) (hcloses : body.Closes inner) :
    Registered scope ((rule.open env scope site).log ++ (l ++ body.close inner))
      (rule.open env scope site).value.outer := by
  have hplaces := places_open hneed env site
  have hdefines := defines_open hneed env site
  obtain ⟨hcursor, hclose⟩ := hplaces.body body hbody
  have hgroups : ((rule.open env scope site).log ++ (l ++ body.close inner)).filterMap Step.group? =
      (rule.open env scope site).collect Step.group? ++ l.filterMap Step.group? := by
    rw [List.filterMap_append, List.filterMap_append,
      List.filterMap_eq_nil_iff.mpr (hclose inner), List.append_nil, Logged.collect]
  have hown : ∀ start, rule.group? site.element = some start →
      ∃ s ∈ (rule.open env scope site).log ++ (l ++ body.close inner),
        s.definedGroup? = some start.group := by
    intro start hstart
    obtain ⟨s, hs, hg⟩ := hdefines.group start hstart body hbody inner hcloses
    exact ⟨s, by simp [hs], hg⟩
  refine ⟨hplaces.group_outer, ?_, ?_, ?_⟩
  · intro r hr kind hk
    rw [hgroups, List.mem_append] at hr
    rcases hr with hr | hr
    · have hm : r.child ∈ rule.members scope site := by
        rw [← map_child_open hneed env site]
        exact List.mem_map_of_mem hr
      exact List.mem_append_left _ (hdefines.references _ hm kind hk)
    · exact List.mem_append_right _ (List.mem_append_left _ (h.references r hr kind hk))
  · -- the symbols of the element itself are defined before and after those of its children
    rw [hgroups, List.map_append, List.filter_append, map_child_open hneed env site,
      List.filterMap_append, List.filterMap_append]
    calc (rule.open env scope site).collect Step.member? ++
          (l.filterMap Step.member? ++ (body.close inner).filterMap Step.member?)
      _ ~ (rule.open env scope site).collect Step.member? ++
          ((body.close inner).filterMap Step.member? ++ l.filterMap Step.member?) :=
        List.perm_append_comm.append_left _
      _ = ((rule.open env scope site).collect Step.member? ++
          (body.close inner).filterMap Step.member?) ++ l.filterMap Step.member? := by
        rw [List.append_assoc]
      _ ~ _ := (hdefines.members body hbody inner hcloses).append h.members
  · intro r hr
    rw [hgroups, List.mem_append] at hr
    rcases hr with hr | hr
    · rcases parent_open hneed hr with hparent | ⟨start, hstart, hparent⟩
      · exact .inl hparent
      · exact .inr (hparent ▸ hown start hstart)
    · rcases h.parents r hr with hparent | ⟨s, hs, hg⟩
      · rw [hcursor, Option.map_map, Option.map_eq_some_iff] at hparent
        obtain ⟨start, hstart, hparent⟩ := hparent
        have : start.group = r.parent := by
          rw [← hparent]
          exact (start.cursor.group_advance _).symm
        exact .inr (this ▸ hown start hstart)
      · exact .inr ⟨s, by simp [hs], hg⟩

end Registered

/-- **The places of a walk match what it defines.** -/
theorem Compile.Walk.registered {config : Config} {unit : Option SectionKind} {content : Content}
    {site : Site} {scope after : Scope} {position : Nat} {seen : List String}
    {children : List Element} {l : List Step}
    (h : Walk config unit content site scope position seen children l after) :
    Registered scope l after := by
  induction h with
  | nil => exact .idle _ (by simp) (by simp)
  | foreign hcore _ ih =>
    exact (Registered.idle _ (l := [_]) (by simp [Step.group?]) (by simp [Step.member?])).append ih
  | absorbed hcore hname hseen hleaf _ ih => exact ih
  | entered hcore hgives hneed hopen hsmooth hbody _ hclose _ ih ih' =>
    subst hopen
    exact (Registered.entered hneed hbody ih (Step.Smooth.closes hclose)).append ih'

/-! ### Intermediates -/

namespace Intermediate

/-- There is a symbol of this kind and name. -/
def Defines (x : Intermediate) (kind : SymbolKind) (id : String) : Prop :=
  ∃ s ∈ x.symbols, s.kind = kind ∧ s.id.id = id

/-- There is a symbol of this kind. -/
def DefinesSome (x : Intermediate) (kind : SymbolKind) : Prop := ∃ s ∈ x.symbols, s.kind = kind

/-- The child of a group is defined, or is a group that is referred to. -/
def HasMember (x : Intermediate) (m : Member) : Prop :=
  match m.kind with
  | .package => x.Defines .package m.id ∨ x.Defines .rollbackBoundary m.id
  | .payload => x.Defines .payload m.id
  | .packageGroup => ⟨.packageGroup, m.id⟩ ∈ x.references
  | .payloadGroup => ⟨.payloadGroup, m.id⟩ ∈ x.references

/-- The group is defined. The groups of chains, of bootstrapper applications and of the payloads of
bundles have fixed names. -/
def HasGroup (x : Intermediate) (g : Group) : Prop :=
  match g.kind with
  | .packageGroup =>
    g.id = Identifier.chainGroup ∧ x.DefinesSome .chain ∨ x.Defines .packageGroup g.id
  | .container =>
    g.id = Identifier.interfaceContainer ∧ x.DefinesSome .bootstrapperApplication ∨
      x.Defines .container g.id
  | .payloadGroup => x.Defines .payloadGroup g.id
  | .package => x.Defines .package g.id
  | .layout => g.id = Identifier.layoutOnlyPayloads ∧ x.DefinesSome .bundle

/-- The names of the children of a kind, once for each of their places. -/
def placed (x : Intermediate) (kind : MemberKind) : List String :=
  ((x.groups.map (·.child)).filter (·.kind = kind)).map (·.id)

/-- The names of the symbols that groups know as children of a kind. -/
def placeable (x : Intermediate) (kind : MemberKind) : List String :=
  (x.symbols.filter (·.kind.member? = some kind)).map (·.id.id)

/-- The graph of groups has no loose ends: all children and all groups exist, and each package, each
rollback boundary and each payload has one place. -/
structure GroupsClosed (x : Intermediate) : Prop where
  children : ∀ r ∈ x.groups, x.HasMember r.child
  parents : ∀ r ∈ x.groups, x.HasGroup r.parent
  packages : x.placed .package ~ x.placeable .package
  payloads : x.placed .payload ~ x.placeable .payload
  packageCount : x.groups.countP (·.child.kind = .package) =
    x.symbols.countP (·.kind = .package) + x.symbols.countP (·.kind = .rollbackBoundary)
  payloadCount : x.groups.countP (·.child.kind = .payload) = x.symbols.countP (·.kind = .payload)

theorem hasGroup_of_symbol {x : Intermediate} {s : Symbol} (hs : s ∈ x.symbols) {g : Group}
    (hg : s.kind.group? s.id.id = some g) : x.HasGroup g := by
  unfold SymbolKind.group? at hg
  split at hg <;> cases hg
  · next hk => exact ⟨rfl, s, hs, hk⟩
  · next hk => exact .inl ⟨rfl, s, hs, hk⟩
  · next hk => exact .inr ⟨s, hs, hk, rfl⟩
  · next hk => exact .inl ⟨rfl, s, hs, hk⟩
  · next hk => exact .inr ⟨s, hs, hk, rfl⟩
  · next hk => exact ⟨s, hs, hk, rfl⟩
  · next hk => exact ⟨s, hs, hk, rfl⟩

theorem hasMember_of_symbol {x : Intermediate} {s : Symbol} (hs : s ∈ x.symbols) {m : Member}
    (hm : s.kind.member?.map (⟨·, s.id.id⟩) = some m) : x.HasMember m := by
  obtain ⟨kind, hk, rfl⟩ := Option.map_eq_some_iff.mp hm
  unfold SymbolKind.member? at hk
  split at hk <;> cases hk
  · next hk => exact .inl ⟨s, hs, hk, rfl⟩
  · next hk => exact .inr ⟨s, hs, hk, rfl⟩
  · next hk => exact ⟨s, hs, hk, rfl⟩

theorem hasMember_of_reference {x : Intermediate} {m : Member} {kind : SymbolKind}
    (hk : m.kind.reference? = some kind) (hr : ⟨kind, m.id⟩ ∈ x.references) : x.HasMember m := by
  obtain ⟨_ | _ | _ | _, id⟩ := m <;> cases hk <;> exact hr

/-- Of the children of a kind that is not referred to, each is defined where it has its place. -/
theorem filter_isDefined {kind : MemberKind} (hk : kind.reference? = none) (ms : List Member) :
    ms.filter (·.kind = kind) = (ms.filter (·.isDefined)).filter (·.kind = kind) := by
  rw [List.filter_filter]
  refine List.filter_congr fun m _ => ?_
  by_cases hm : m.kind = kind <;> simp [hm, Member.isDefined, hk]

theorem filter_members (x : Intermediate) (kind : MemberKind) :
    ((x.symbols.filterMap fun s => s.kind.member?.map (⟨·, s.id.id⟩ : _ → Member)).filter
      (·.kind = kind)).map (·.id) = x.placeable kind := by
  unfold placeable
  induction x.symbols with
  | nil => rfl
  | cons s symbols ih =>
    cases hs : s.kind.member? with
    | none => simp [hs, ih]
    | some k => by_cases hk : k = kind <;> simp [hs, hk, ih]

theorem length_placed (x : Intermediate) (kind : MemberKind) :
    (x.placed kind).length = x.groups.countP (·.child.kind = kind) := by
  rw [placed, List.length_map, ← List.countP_eq_length_filter, List.countP_map]
  rfl

theorem length_placeable (x : Intermediate) (kind : MemberKind) :
    (x.placeable kind).length = x.symbols.countP (·.kind.member? = some kind) := by
  rw [placeable, List.length_map, ← List.countP_eq_length_filter]

theorem countP_packages (symbols : List Symbol) :
    symbols.countP (·.kind.member? = some .package) =
      symbols.countP (·.kind = .package) + symbols.countP (·.kind = .rollbackBoundary) := by
  induction symbols with
  | nil => rfl
  | cons s symbols ih =>
    rw [List.countP_cons, List.countP_cons, List.countP_cons, ih]
    by_cases hp : s.kind = .package
    · simp [hp, SymbolKind.member?]
      omega
    · simp [hp, SymbolKind.member?_eq_package_iff]
      omega

end Intermediate

namespace Output.Yields

variable {o : Output} {l : List Step}

theorem exists_symbol (h : o.Yields l) {id : Identifier} {data : Symbol.Data}
    (hs : .emit id data ∈ l) : ∃ s ∈ o.intermediate.symbols, s.kind = data.kind ∧ s.id = id := by
  have hmem : (id, data) ∈ l.filterMap Step.symbol? := List.mem_filterMap.mpr ⟨_, hs, rfl⟩
  rw [← h.symbols, List.mem_map] at hmem
  obtain ⟨s, hs, heq⟩ := hmem
  rw [Prod.mk.injEq] at heq
  exact ⟨s, hs, congrArg Symbol.Data.kind heq.2, heq.1⟩

/-- The children of groups that the symbols of an output are. -/
theorem members (h : o.Yields l) :
    o.intermediate.symbols.filterMap (fun s => s.kind.member?.map (⟨·, s.id.id⟩)) =
      l.filterMap Step.member? := by
  have hstep : Step.member? = fun s => s.symbol?.bind fun p =>
      p.2.kind.member?.map (⟨·, p.1.id⟩) := by
    funext s
    cases s <;> rfl
  rw [hstep, ← List.filterMap_filterMap, ← h.symbols, List.filterMap_map]
  rfl

theorem hasGroup (h : o.Yields l) {s : Step} (hs : s ∈ l) {g : Group}
    (hg : s.definedGroup? = some g) : o.intermediate.HasGroup g := by
  cases s with
  | emit id data =>
    obtain ⟨symbol, hmem, hkind, hid⟩ := h.exists_symbol hs
    refine Intermediate.hasGroup_of_symbol hmem ?_
    rw [hkind, hid]
    exact hg
  | _ => cases hg

end Output.Yields

/-- What a document defines and refers to fits together, if no group is left open around it. -/
theorem Registered.groupsClosed {scope after : Scope} {l : List Step} {o : Output}
    (hl : Registered scope l after) (hscope : scope.cursor = none) (ho : o.Yields l) :
    o.intermediate.GroupsClosed := by
  have hmembers : (o.intermediate.groups.map (·.child)).filter (·.isDefined) ~
      o.intermediate.symbols.filterMap (fun s => s.kind.member?.map (⟨·, s.id.id⟩)) := by
    rw [ho.members, ho.groups]
    exact hl.members.symm
  have hplaced (kind : MemberKind) (hk : kind.reference? = none) :
      o.intermediate.placed kind ~ o.intermediate.placeable kind := by
    rw [← Intermediate.filter_members]
    refine List.Perm.map _ ?_
    rw [Intermediate.filter_isDefined hk]
    exact hmembers.filter _
  have hpackages := hplaced .package rfl
  have hpayloads := hplaced .payload rfl
  refine ⟨?_, ?_, hpackages, hpayloads, ?_, ?_⟩
  · intro r hr
    cases hk : r.child.kind.reference? with
    | none =>
      have hmem : r.child ∈ (o.intermediate.groups.map (·.child)).filter (·.isDefined) :=
        List.mem_filter.mpr ⟨List.mem_map_of_mem hr, by simp [Member.isDefined, hk]⟩
      obtain ⟨s, hs, hm⟩ := List.mem_filterMap.mp (hmembers.subset hmem)
      exact Intermediate.hasMember_of_symbol hs hm
    | some kind =>
      rw [ho.groups] at hr
      refine Intermediate.hasMember_of_reference hk ?_
      rw [ho.references]
      exact List.mem_filterMap.mpr ⟨_, hl.references r hr kind hk, rfl⟩
  · intro r hr
    rw [ho.groups] at hr
    rcases hl.parents r hr with hparent | ⟨s, hs, hg⟩
    · simp [hscope] at hparent
    · exact ho.hasGroup hs hg
  · rw [← Intermediate.length_placed, hpackages.length_eq, Intermediate.length_placeable,
      Intermediate.countP_packages]
  · rw [← Intermediate.length_placed, hpayloads.length_eq, Intermediate.length_placeable]
    simp only [SymbolKind.member?_eq_payload_iff]

/-- **The graph of groups is closed.** In the output of a compile without extensions every place in a
group has its child and its group, and everything that belongs into a group has one place. -/
theorem Compiler.compileAs_groupsClosed {c : Compiler} (hc : c.extensions = []) {k : UInt32}
    {root : Element} {o : Output} (h : (c.compileAs k root).result = .ok o) :
    o.intermediate.GroupsClosed := by
  by_cases hs : o.isSuccess
  · obtain ⟨-, l, after, hwalk, hplan⟩ := exists_walk (smooth_of_isSuccess h hs)
    have hyields := yields_of_isSuccess hc h hs
    rw [hplan] at hyields
    have hreports := Registered.idle {} (l := (root.checkAttributes []).map .report)
      (by simp [Step.group?]) (by simp [Step.member?])
    have hoffers := Registered.idle {} (l := (offerAttributes (Site.root root) []).log)
      (by simp [offerAttributes, Step.group?]) (by simp [offerAttributes, Step.member?])
    exact (hreports.append (hoffers.append hwalk.registered)).groupsClosed rfl hyields
  · rw [intermediate_eq_empty h hs]
    exact ⟨by simp, by simp, .nil, .nil, rfl, rfl⟩

namespace Sample

/-- A bundle with groups of all kinds. -/
def bundle : Element :=
  element "Wix" [] [
    element "Bundle" [("Id", "B"), ("Version", "1.0")] [
      element "BootstrapperApplication" [("Id", "UI"), ("SourceFile", "ui.exe")] [
        element "Payload" [("Id", "Theme"), ("SourceFile", "theme.xml")] []],
      element "Chain" [] [
        element "ExePackage" [("Id", "Setup"), ("SourceFile", "setup.exe"), ("Permanent", "yes")] [
          element "Payload" [("Id", "Data"), ("SourceFile", "data.cab")] []],
        element "RollbackBoundary" [("Id", "Safe")] [],
        element "PackageGroupRef" [("Id", "Tools"), ("After", " Setup ")] []],
      element "PackageGroup" [("Id", "Tools")] [
        element "MsiPackage" [("Id", "Tool"), ("SourceFile", "tool.msi")] [
          element "PayloadGroupRef" [("Id", "Files")] []]],
      element "PayloadGroup" [("Id", "Files")] [
        element "Payload" [("Id", "Readme"), ("SourceFile", "readme.txt")] []],
      element "Container" [("Id", "Box"), ("Name", "box.cab")] [
        element "PackageGroupRef" [("Id", "Tools")] []],
      element "Payload" [("Id", "License"), ("SourceFile", "license.txt")] []]]

end Sample

/-- The output for a bundle has thirteen places, in groups of all kinds. -/
theorem compileAs_groupsClosed_bundle : ∃ o,
    (Compiler.compileAs {} 0 Sample.bundle).result = .ok o ∧ o.intermediate.groups.length = 13 ∧
      o.intermediate.GroupsClosed := by
  have h : (Compiler.compileAs {} 0 Sample.bundle).result = .ok _ := rfl
  exact ⟨_, h, by decide +kernel, Compiler.compileAs_groupsClosed rfl h⟩

end Installer
