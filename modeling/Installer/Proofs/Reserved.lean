import Installer.Proofs.GroupOrder
import Installer.Proofs.Namesakes

/-! # Reserved names

Where identifiers come from, and why they are not reserved (`Identifier.Free`): those that are authored
are checked, those that are made from other values are in lower case, GUIDs stand in braces and the
names of scheduled actions have a dot. Two rules are left. A chain has the reserved name of its group, and
the name of a variable may be any but one that starts with `Wix`: the only reserved name among
those is `BundleLayoutOnlyPayloads`. -/

namespace Installer

open Compile Planned

theorem Text.isUpper_toLower (c : Char) : c.toLower.isUpper = false := by
  rw [Bool.eq_false_iff]
  delta Char.isUpper Char.toLower
  simp only [ne_eq, decide_eq_true_eq, ge_iff_le, UInt32.le_iff_toNat_le, Char.reduceVal,
    UInt32.reduceToNat]
  split
  · simp only [UInt32.toNat_add, UInt32.reduceToNat, UInt32.reduceSub]
    omega
  · assumption

/-! ### Names that are not reserved -/

namespace Identifier

/-- An identifier whose name is not reserved. -/
def Free (i : Identifier) : Prop := isReserved i.id = false

theorem Free.not_isReserved {i : Identifier} (h : i.Free) : ¬ isReserved i.id :=
  Bool.eq_false_iff.mp h

theorem isReserved_eq_false_of {s : String} (P : List Char → Bool) (hs : P s.toList)
    (hreserved : reservedNames.all fun name => !P name.toList) : isReserved s = false := by
  rw [isReserved, Bool.eq_false_iff]
  intro hmem
  have hnot := List.all_eq_true.mp hreserved s (by simpa using hmem)
  simp [hs] at hnot

/-- Reserved names start with capitals. -/
theorem isReserved_of_head {s : String} {c : Char} {cs : List Char} (hs : s.toList = c :: cs)
    (hc : c.isUpper = false) : isReserved s = false :=
  isReserved_eq_false_of (fun cs => cs.head?.any fun c => !c.isUpper) (by simp [hs, hc]) (by decide)

theorem free_invalid : invalid.Free := rfl

theorem free_getD {o : Option Identifier} {d : Identifier} (ho : ∀ i, o = some i → i.Free)
    (hd : d.Free) : (o.getD d).Free := by
  cases o with
  | none => exact hd
  | some i => exact ho i rfl

/-- A name that is made from other values starts with its stem. -/
theorem free_synthesize (stem : String) (values : List String)
    (h : stem.toList.head?.map Char.isUpper = some false) : (ofName (synthesize stem values)).Free := by
  obtain ⟨c, hc, hupper⟩ := Option.map_eq_some_iff.mp h
  obtain ⟨cs, hcs⟩ := List.head?_eq_some_iff.mp hc
  have hname : (synthesize stem values).toList = c :: (cs ++ Text.hexDigits 32 (fingerprint values)) := by
    simp [synthesize, hcs]
  exact isReserved_of_head hname hupper

theorem isUpper_nameCharOf (c : Char) : (nameCharOf c).isUpper = false := by
  unfold nameCharOf
  split_ifs
  · exact Text.isUpper_toLower c
  · rfl

/-- A name that is made from a file name is in lower case. -/
theorem free_ofFileName (file : String) : (ofName (ofFileName file)).Free := by
  unfold ofFileName
  dsimp only
  split
  · next c cs hcs =>
    split_ifs
    · obtain ⟨b, _, -, rfl, -⟩ := List.map_eq_cons_iff.mp hcs
      rw [hcs]
      exact isReserved_of_head String.toList_ofList (isUpper_nameCharOf b)
    · exact isReserved_of_head String.toList_ofList rfl
  · rfl

/-- What a package is called that has no identifier of its own. -/
theorem free_fallback (file : Option String) :
    (match file with
    | some name => ofName (ofFileName name)
    | none => invalid).Free := by
  split
  · exact free_ofFileName _
  · exact free_invalid

theorem free_guid {s : String} (h : Guid.IsNormal s) : (ofName s).Free := by
  obtain ⟨groups, -, -, hs⟩ := h
  exact isReserved_of_head hs rfl

theorem free_actionId (table : Symbol.SequenceTable) (action : String) :
    (ofName (actionId table action)).Free :=
  isReserved_eq_false_of (fun cs => cs.contains '.') (by simp [ofName, actionId]) (by decide)

theorem free_of_check {access : Access} {cs : List Char} {i : Identifier}
    (h : check access cs = .ok i) : i.Free := by
  simp only [check] at h
  split_ifs at h with hl hr
  cases h
  exact Bool.eq_false_iff.mpr hr

/-- What an author can write as an identifier is not reserved. -/
theorem free_of_parse {value : String} {i : Identifier} (h : parse value = .ok i) : i.Free := by
  unfold parse at h
  dsimp only at h
  split_ifs at h
  split at h
  · exact free_of_check h
  · split at h
    · exact free_of_check h
    · cases h

/-- A reserved name without `Wix` in front. -/
theorem eq_layoutOnlyPayloads {s : String} (h : isReserved s) (hs : ¬ "Wix".toList <+: s.toList) :
    s = layoutOnlyPayloads := by
  have hall : ∀ name ∈ reservedNames, ¬ "Wix".toList <+: name.toList → name = layoutOnlyPayloads := by
    decide
  exact hall s (by simpa [isReserved] using h) hs

end Identifier

/-! ### Names of elements -/

section Names
variable (e : Element)

theorem Element.free_identifier? {i : Identifier} (h : e.identifier? .id = some i) : i.Free := by
  obtain ⟨a, -, rfl⟩ := Option.map_eq_some_iff.mp h
  change ((Reader.identifier e a).value.getD Identifier.invalid).Free
  unfold Reader.identifier
  split
  · next hi => exact Identifier.free_of_parse hi
  all_goals exact Identifier.free_invalid

theorem Element.free_getD {d : Identifier} (hd : d.Free) : ((e.identifier? .id).getD d).Free :=
  Identifier.free_getD (fun _ => e.free_identifier?) hd

theorem free_requiredId : (requiredId e).value.Free := by
  unfold requiredId
  split
  · next h => exact e.free_identifier? h
  · exact Identifier.free_invalid

theorem free_containerId : (containerId e).value.Free := by
  unfold containerId
  split
  · next h => exact e.free_identifier? h
  · exact Identifier.free_ofFileName _
  · exact Identifier.free_invalid

theorem free_patchId : (patchId e).Free := by
  have hdescribed : ∀ values, (Identifier.ofName (Identifier.synthesize "pch" values)).Free :=
    fun values => Identifier.free_synthesize "pch" values rfl
  unfold patchId
  dsimp only
  split
  · next code hcode =>
    split_ifs with hstar
    · exact hdescribed _
    · exact Identifier.free_guid
        ((Element.domain_of_value? (Field.of_generatableGuid "Id") hcode).resolve_left hstar)
  · exact hdescribed _

theorem free_packagePayload (kind : Symbol.PackageKind) (site : Site) :
    (packagePayload kind site).value.packageId.Free ∧
      (packagePayload kind site).value.payloadId.Free := by
  have hpackage := fun payload : Symbol.Payload =>
    site.element.free_getD (Identifier.free_fallback payload.name)
  simp only [packagePayload, PayloadFields.gather_eq, Logged.pure_bind]
  split
  · next child position _ =>
    simp only [readTypedPayload, PayloadFields.gather_eq, Logged.pure_bind]
    exact ⟨hpackage _, Identifier.free_getD (fun _ => child.free_identifier?) (hpackage _)⟩
  · exact ⟨hpackage _, hpackage _⟩

/-- The name of a variable is reserved only if it is that of the payloads in the layout. -/
theorem Reader.eq_of_variableName {a : Attribute} {name : String}
    (h : (Reader.variableName e a).value = some name) (hname : Identifier.isReserved name) :
    name = Identifier.layoutOnlyPayloads := by
  simp only [variableName, Logged.value_bind] at h
  split at h
  · cases h
  · split_ifs at h with hwix
    · cases h
    · cases h
      exact Identifier.eq_layoutOnlyPayloads hname (by simpa using hwix)

end Names

/-! ### What rules define -/

namespace Rule

/-- The reserved name that an element may define, and what for. -/
def reserved? : Rule → Option (String × SymbolKind)
  | chain => some (Identifier.chainGroup, .chain)
  | variableValue => some (Identifier.layoutOnlyPayloads, .variableValue)
  | _ => none

/-- A symbol that an element may define: its name is not reserved, or it is the one of the rule. -/
def Allows (rule : Rule) (d : Definition) : Prop :=
  Identifier.isReserved d.1.id → rule.reserved? = some (d.1.id, d.2.kind)

theorem allows_of_free {rule : Rule} {d : Definition} (h : d.1.Free) : rule.Allows d := by
  intro hd
  exact absurd hd h.not_isReserved

theorem allows_variable {name : String} {data : Symbol.Data} (hk : data.kind = .variableValue)
    (h : Identifier.isReserved name → name = Identifier.layoutOnlyPayloads) :
    variableValue.Allows (.ofName name, data) := by
  intro hreserved
  rw [reserved?, ← h hreserved, hk]
  rfl

end Rule

/-- All symbols that an element defines are allowed. -/
structure Abides (rule : Rule) (o : Planned Opening) : Prop where
  log : ∀ d ∈ o.collect Step.symbol?, rule.Allows d
  close : ∀ body, o.value.body = some body →
    ∀ inner, ∀ d ∈ (body.close inner).filterMap Step.symbol?, rule.Allows d

namespace Abides

variable {rule : Rule} {o : Planned Opening} {body : Body}

theorem of_none (hlog : o.collect Step.symbol? = []) (hbody : o.value.body = none) :
    Abides rule o := by
  refine ⟨by simp [hlog], fun body hb => ?_⟩
  rw [hbody] at hb
  cases hb

theorem of_nil (hlog : o.collect Step.symbol? = []) (hbody : o.value.body = some body)
    (hclose : ∀ inner, (body.close inner).filterMap Step.symbol? = []) : Abides rule o := by
  refine ⟨by simp [hlog], fun body' hb inner => ?_⟩
  rw [hbody] at hb
  cases hb
  simp [hclose]

/-- An element that defines one symbol, in the end. -/
theorem of_single {d : Definition} (hlog : o.collect Step.symbol? = [])
    (hbody : o.value.body = some body)
    (hclose : ∀ inner, (body.close inner).filterMap Step.symbol? = [d]) (hd : rule.Allows d) :
    Abides rule o := by
  refine ⟨by simp [hlog], fun body' hb inner => ?_⟩
  rw [hbody] at hb
  cases hb
  simpa [hclose] using hd

/-- A leaf that defines one symbol. -/
theorem of_leaf {id : Identifier} {data : Symbol.Data} (hlog : o.collect Step.symbol? = [])
    (hbody : o.value.body =
      some ⟨.nothing, { context := id.validContext }, none, fun _ => [.emit id data]⟩)
    (hd : rule.Allows (id, data)) : Abides rule o :=
  of_single hlog hbody (fun _ => rfl) hd

end Abides

section Rules
variable (site : Site) (scope : Scope)

attribute [local simp] Step.symbol? collect_offerAttributes collect_leaf collect_packagePayload
  List.filterMap_none

theorem free_of_mem_providerSteps {e : Element} {parent : Identifier} {d : Definition}
    (h : d ∈ (providerSteps e parent).filterMap Step.symbol?) : d.1.Free := by
  simp only [providerSteps_eq_map, List.filterMap_map, List.mem_filterMap, Function.comp_apply] at h
  obtain ⟨a, -, ha⟩ := h
  split_ifs at ha
  · cases ha
    exact Identifier.free_synthesize "dep" _ rfl
  · cases ha

theorem abides_bundle : Abides .bundle (within scope (openBundle site)) := by
  refine ⟨fun d hd => ?_, ?_⟩
  · obtain ⟨id, hlog⟩ := collect_bundle site scope
    rw [hlog] at hd
    exact Rule.allows_of_free (free_of_mem_providerSteps hd)
  · rintro _ ⟨⟩ inner d hd
    obtain rfl := List.mem_singleton.mp hd
    exact Rule.allows_of_free (site.element.free_getD (Identifier.free_synthesize "bnd" _ rfl))

theorem abides_package : Abides .package (within scope (openPackage site)) := by
  refine ⟨fun d hd => ?_, ?_⟩
  · obtain ⟨id, hlog⟩ := collect_package site scope
    rw [hlog] at hd
    exact Rule.allows_of_free (free_of_mem_providerSteps hd)
  · simp only [openPackage, Logged.value_bind, Logged.value_pure, value_within, Option.some.injEq,
      forall_eq']
    intro inner d hd
    simp only [builtInProperty, List.filterMap_append, List.filterMap_map, List.mem_append,
      List.mem_filterMap, List.mem_cons, List.not_mem_nil, or_false, Function.comp_apply,
      exists_eq_or_imp, exists_eq_left, Step.symbol?, Option.some.injEq, reduceCtorEq] at hd
    rcases hd with hproperty | rfl
    · rcases hproperty with (rfl | rfl | rfl | rfl | rfl) | ⟨code, -, rfl⟩
      all_goals exact Rule.allows_of_free rfl
    · exact Rule.allows_of_free (Identifier.free_synthesize "pkg" _ rfl)

theorem abides_bootstrapperApplication :
    Abides .bootstrapperApplication (within scope (openBootstrapperApplication site)) := by
  have hid : ((site.element.identifier? .id).getD (.ofName defaultApplication)).Free :=
    site.element.free_getD rfl
  simp only [openBootstrapperApplication]
  split
  · exact .of_single (by simp) rfl (fun _ => rfl) (Rule.allows_of_free hid)
  · refine ⟨?_, ?_⟩
    · simpa using Rule.allows_of_free hid
    · rintro _ ⟨⟩ inner d hd
      obtain rfl := List.mem_singleton.mp hd
      exact Rule.allows_of_free hid

theorem abides_chainPackage (kind : Symbol.PackageKind) (env : Env) :
    Abides (.chainPackage kind) (openChainPackage kind env scope site) := by
  obtain ⟨hpackage, hpayload⟩ := free_packagePayload kind site
  refine ⟨by simp [collect_chainPackage], fun body hb inner d hd => ?_⟩
  rcases close_openChainPackage_cases hb inner with ⟨-, entry, -, hsteps⟩ | hhalt
  · obtain ⟨package, hclose, -⟩ := symbol_chainPackage site scope kind env hb hsteps
    rw [hclose] at hd
    rcases List.mem_cons.mp hd with rfl | hd
    · exact Rule.allows_of_free hpayload
    · obtain rfl := List.mem_singleton.mp hd
      exact Rule.allows_of_free hpackage
  · rw [hhalt] at hd
    cases hd

theorem abides_variable : Abides .variableValue (within scope (openVariable site)) := by
  refine .of_leaf (by simp [openVariable]) rfl ?_
  cases hv : site.element.value? ⟨"Name", Reader.variableName⟩ with
  | none => exact Rule.allows_of_free Identifier.free_invalid
  | some name =>
    obtain ⟨a, -, hread⟩ := Element.exists_read_of_value? hv
    dsimp only at hread
    exact Rule.allows_variable rfl (Reader.eq_of_variableName _ hread)

/-- **Elements define no reserved names** but those of chains and of variables. -/
theorem abides_open (rule : Rule) (env : Env) : Abides rule (rule.open env scope site) := by
  cases rule with
  | bundle => exact abides_bundle site scope
  | package => exact abides_package site scope
  | bootstrapperApplication => exact abides_bootstrapperApplication site scope
  | chainPackage kind => exact abides_chainPackage site scope kind env
  | variableValue => exact abides_variable site scope
  | module =>
    exact .of_single (by simp [Rule.open, openModule]) rfl (fun _ => rfl)
      (Rule.allows_of_free (site.element.free_getD Identifier.free_invalid))
  | patch =>
    exact .of_single (by simp [Rule.open, openPatch]) rfl (fun _ => rfl)
      (Rule.allows_of_free (free_patchId _))
  | fragment => exact .of_nil (by simp [Rule.open, openFragment]) rfl fun _ => rfl
  | log | update | relatedBundle | patchProperty =>
    exact .of_single (by simp [Rule.open, openLog, openUpdate, openRelatedBundle, openPatchProperty])
      rfl (fun _ => rfl) (Rule.allows_of_free (Identifier.free_synthesize _ _ rfl))
  | chain => exact .of_single (by simp [Rule.open, openChain]) rfl (fun _ => rfl) fun _ => rfl
  | packageGroup | payloadGroup | component | property =>
    exact .of_single (by simp [Rule.open, openPackageGroup, openPayloadGroup, openComponent,
      openProperty]) rfl (fun _ => rfl) (Rule.allows_of_free (free_requiredId _))
  | container =>
    exact .of_single (by simp [Rule.open, openContainer]) rfl (fun _ => rfl)
      (Rule.allows_of_free (free_containerId _))
  | packageGroupRef | payloadGroupRef =>
    simp only [Rule.open, openPackageGroupRef, openPayloadGroupRef]
    split
    · exact .of_none rfl rfl
    · exact .of_nil (by simp) rfl fun _ => rfl
  | rollbackBoundary | payload =>
    simp only [Rule.open, openRollbackBoundary, openPayload, PayloadFields.gather_eq,
      Logged.pure_bind]
    split
    · exact .of_none rfl rfl
    · exact .of_single (by simp) rfl (fun _ => rfl)
        (Rule.allows_of_free (site.element.free_getD (Identifier.free_synthesize _ _ rfl)))
  | msiProperty | slipstreamMsp | exitCode =>
    simp only [Rule.open, openMsiProperty, openSlipstreamMsp, openExitCode]
    split
    · exact .of_single (by simp) rfl (fun _ => rfl)
        (Rule.allows_of_free (Identifier.free_synthesize _ _ rfl))
    · exact .of_none rfl rfl
  | arpEntry =>
    simp only [Rule.open, openArpEntry]
    split
    · exact .of_nil (by simp) rfl fun _ => rfl
    · exact .of_none rfl rfl
  | registryKey =>
    simp only [Rule.open, openRegistryKey]
    split
    · exact .of_none rfl rfl
    · exact .of_nil (by simp) rfl fun _ => rfl
  | registryValue =>
    simp only [Rule.open, openRegistryValue]
    split
    · exact .of_none rfl rfl
    · exact .of_single (by simp) rfl (fun _ => rfl)
        (Rule.allows_of_free (site.element.free_getD (Identifier.free_synthesize "reg" _ rfl)))
  | customAction =>
    simp only [Rule.open, openCustomAction]
    split <;> exact .of_single (by simp) rfl (fun _ => rfl) (Rule.allows_of_free (free_requiredId _))
  | sequence s => exact .of_nil (by simp [Rule.open, openSequence]) rfl fun _ => rfl
  | action kind =>
    simp only [Rule.open, openAction]
    split
    · next table _ =>
      split_ifs
      · exact .of_none (by simp) rfl
      · obtain ⟨data, hdata, -⟩ :=
          symbol_actionSteps kind site.element table (actionName kind site.element)
        exact .of_single (by simp) rfl (fun _ => hdata)
          (Rule.allows_of_free (Identifier.free_actionId table _))
    · exact .of_none (by simp) rfl

end Rules

/-! ### Groups of rules -/

namespace Rule

/-- The group with a reserved name that an element opens. -/
def reservedGroup? : Rule → Option Group
  | bundle => some ⟨.layout, Identifier.layoutOnlyPayloads⟩
  | bootstrapperApplication => some ⟨.container, Identifier.interfaceContainer⟩
  | chain => some ⟨.packageGroup, Identifier.chainGroup⟩
  | _ => none

theorem reservedGroup?_of_group? {rule : Rule} {e : Element} {g : GroupStart}
    (h : rule.group? e = some g) (hg : Identifier.isReserved g.group.id) :
    rule.reservedGroup? = some g.group := by
  cases rule with
  | bundle | bootstrapperApplication | chain => cases h; rfl
  | packageGroup | payloadGroup => cases h; exact absurd hg (free_requiredId e).not_isReserved
  | container => cases h; exact absurd hg (free_containerId e).not_isReserved
  | chainPackage kind =>
    cases h
    exact absurd hg (free_packagePayload kind (Site.root e)).1.not_isReserved
  | _ => cases h

end Rule

/-! ### Plans -/

/-- What is defined in a visit is allowed to the element. -/
theorem Compile.Visit.allows {config : Config} {site : Site} {l : List Step} (h : Visit config site l)
    {d : Definition} (hd : d ∈ l.filterMap Step.symbol?) :
    ∃ rule, site.element.qname = QName.core site.element.name ∧
      Rule.named? site.element.name = some rule ∧ rule.Allows d := by
  cases h with
  | @left rule unit scope hcore hname hbody =>
    exact ⟨rule, Element.qname_eq_core hcore, hname, (abides_open site scope rule _).log d hd⟩
  | @entered rule unit scope inner body l hcore hname hbody hl =>
    refine ⟨rule, Element.qname_eq_core hcore, hname, ?_⟩
    rw [List.filterMap_append, List.filterMap_append, List.mem_append, List.mem_append] at hd
    rcases hd with hd | hd | hd
    · exact (abides_open site scope rule _).log d hd
    · obtain ⟨s, hs, heq⟩ := List.mem_filterMap.mp hd
      cases hl s hs <;> cases heq
    · exact (abides_open site scope rule _).close body hbody inner d hd

/-- Symbols with reserved names are defined for chains and variables only. -/
theorem Compile.reserved_of_ascribed {config : Config} {root : Element}
    (hroot : root.qname = QName.core "Wix") {path : List Nat} {id : Identifier} {data : Symbol.Data}
    (hmem : (path, .emit id data) ∈ ascribed config root) (hid : Identifier.isReserved id.id) :
    ∃ site, (Site.root root).descend? path = some site ∧
      ((site.element.qname = QName.core "Chain" ∧ id.id = Identifier.chainGroup ∧
          data.kind = .chain) ∨
        (site.element.qname = QName.core "Variable" ∧ id.id = Identifier.layoutOnlyPayloads ∧
          data.kind = .variableValue)) := by
  have hat := mem_atPath hmem
  cases path with
  | nil =>
    obtain ⟨l, hl, hdispatch⟩ := root_ascribed hroot config
    rw [hl, List.mem_append, List.mem_append] at hat
    rcases hat with hat | hat | hat
    · simp at hat
    · simp [offerAttributes] at hat
    · cases hdispatch _ hat
  | cons i path =>
    obtain ⟨site, hsite, hvisit⟩ :=
      (visitedAt_ascribed config root i path).resolve_left (List.ne_nil_of_mem hat)
    refine ⟨site, hsite, ?_⟩
    obtain ⟨rule, hcore, hname, hallows⟩ :=
      hvisit.allows (List.mem_filterMap.mpr ⟨_, hat, rfl⟩)
    have hreserved := hallows hid
    cases rule with
    | chain =>
      obtain ⟨hid', hkind⟩ := Prod.mk.inj (Option.some.inj hreserved)
      exact .inl ⟨by rw [hcore, Rule.name_of_named? hname rfl], hid'.symm, hkind.symm⟩
    | variableValue =>
      obtain ⟨hid', hkind⟩ := Prod.mk.inj (Option.some.inj hreserved)
      exact .inr ⟨by rw [hcore, Rule.name_of_named? hname rfl], hid'.symm, hkind.symm⟩
    | _ => cases hreserved

theorem Element.isCore_of_descend? {e e' : Element} {i : Nat} {path : List Nat}
    (h : e.descend? (i :: path) = some e') : e'.isCore := by
  induction path generalizing e i with
  | nil =>
    obtain ⟨child, -, hcore, heq⟩ := exists_child_of_descend? h
    cases heq
    exact hcore
  | cons j path ih =>
    obtain ⟨child, -, -, h⟩ := exists_child_of_descend? h
    exact ih h

/-- Groups with reserved names are those of chains, bootstrapper applications and bundles. -/
theorem Element.reserved_of_ledger {root : Element} (hroot : root.qname = QName.core "Wix")
    {path : List Nat} {r : GroupReference} (hmem : (path, r) ∈ root.ledger)
    (hr : Identifier.isReserved r.parent.id) : ∃ e, root.descend? path = some e ∧
      ((e.qname = QName.core "Chain" ∧ r.parent = ⟨.packageGroup, Identifier.chainGroup⟩) ∨
        (e.qname = QName.core "BootstrapperApplication" ∧
          r.parent = ⟨.container, Identifier.interfaceContainer⟩) ∨
        (e.qname = QName.core "Bundle" ∧ r.parent = ⟨.layout, Identifier.layoutOnlyPayloads⟩)) := by
  have hat : r ∈ atPath path root.ledger := mem_atPath hmem
  rw [atPath_ledger] at hat
  cases he : root.descend? path with
  | none => simp [he] at hat
  | some e =>
    rw [he, Option.map_some, Option.getD_some, Element.places] at hat
    refine ⟨e, rfl, ?_⟩
    cases hg : e.group? with
    | none => simp [hg] at hat
    | some g =>
      simp only [hg, GroupStart.arrange, List.mem_mapIdx] at hat
      obtain ⟨i, hi, rfl⟩ := hat
      obtain ⟨rule, hname, hgroup⟩ := Option.bind_eq_some_iff.mp hg
      have hcore : e.isCore := by
        cases path with
        | nil =>
          cases he
          rw [Element.group?_root hroot] at hg
          cases hg
        | cons i path => exact isCore_of_descend? he
      have hqname := qname_eq_core hcore
      have hreserved := Rule.reservedGroup?_of_group? hgroup hr
      cases rule with
      | chain =>
        exact .inl ⟨by rw [hqname, Rule.name_of_named? hname rfl], (Option.some.inj hreserved).symm⟩
      | bootstrapperApplication =>
        exact .inr (.inl ⟨by rw [hqname, Rule.name_of_named? hname rfl],
          (Option.some.inj hreserved).symm⟩)
      | bundle =>
        exact .inr (.inr ⟨by rw [hqname, Rule.name_of_named? hname rfl],
          (Option.some.inj hreserved).symm⟩)
      | _ => cases hreserved

/-- **Who uses reserved names.** Without extensions, a symbol with a reserved name that a successful
compile defines is that of a chain, or of a variable with the name of the payloads in the layout. Places
in groups with reserved names are in those of chains, bootstrapper applications and bundles. -/
theorem Compiler.reserved_by_chain_or_variable {c : Compiler} (hc : c.extensions = []) {k : UInt32}
    {root : Element} {o : Output} (h : (c.compileAs k root).result = .ok o) (hs : o.isSuccess) :
    (∀ s ∈ o.intermediate.symbols, Identifier.isReserved s.id.id → ∃ path site,
      (path, .emit s.id s.data) ∈ ascribed c.config root ∧
      (Site.root root).descend? path = some site ∧
      ((site.element.qname = QName.core "Chain" ∧ s.id.id = Identifier.chainGroup ∧
          s.kind = .chain) ∨
        (site.element.qname = QName.core "Variable" ∧ s.id.id = Identifier.layoutOnlyPayloads ∧
          s.kind = .variableValue))) ∧
    o.intermediate.groups = root.ledger.map (·.2) ∧
    ∀ path r, (path, r) ∈ root.ledger → Identifier.isReserved r.parent.id →
      ∃ e, root.descend? path = some e ∧
        ((e.qname = QName.core "Chain" ∧ r.parent = ⟨.packageGroup, Identifier.chainGroup⟩) ∨
          (e.qname = QName.core "BootstrapperApplication" ∧
            r.parent = ⟨.container, Identifier.interfaceContainer⟩) ∨
          (e.qname = QName.core "Bundle" ∧
            r.parent = ⟨.layout, Identifier.layoutOnlyPayloads⟩)) := by
  have hsmooth := smooth_of_isSuccess h hs
  have hyields := yields_of_isSuccess hc h hs
  have hroot := (exists_walk hsmooth).1
  refine ⟨fun s hmem hid => ?_, ?_, fun path r hmem hr => Element.reserved_of_ledger hroot hmem hr⟩
  · have hplan : (s.id, s.data) ∈ (plan c.config root).filterMap Step.symbol? := by
      rw [← hyields.symbols]
      exact List.mem_map_of_mem (f := fun s : Symbol => (s.id, s.data)) hmem
    obtain ⟨step, hstep, heq⟩ := List.mem_filterMap.mp hplan
    rw [← map_ascribed] at hstep
    obtain ⟨⟨path, step⟩, hascribed, rfl⟩ := List.mem_map.mp hstep
    cases step with
    | emit id data =>
      cases heq
      obtain ⟨site, hsite, hkind⟩ := reserved_of_ascribed hroot hascribed hid
      exact ⟨path, site, hascribed, hsite, hkind⟩
    | _ => cases heq
  · rw [hyields.groups, map_ledger_plan hsmooth]

/-- The chain of a bundle is the only one of its symbols with a reserved name. -/
theorem reserved_by_chain_or_variable_bundle : ∃ o,
    (Compiler.compileAs {} 0 Sample.bundle).result = .ok o ∧ o.isSuccess ∧
      (o.intermediate.symbols.filter (Identifier.isReserved ·.id.id)).map Symbol.kind = [.chain] ∧
      ∀ s ∈ o.intermediate.symbols, Identifier.isReserved s.id.id → ∃ path site,
        (path, .emit s.id s.data) ∈ ascribed {} Sample.bundle ∧
        (Site.root Sample.bundle).descend? path = some site ∧
        ((site.element.qname = QName.core "Chain" ∧ s.id.id = Identifier.chainGroup ∧
            s.kind = .chain) ∨
          (site.element.qname = QName.core "Variable" ∧ s.id.id = Identifier.layoutOnlyPayloads ∧
            s.kind = .variableValue)) := by
  have h : (Compiler.compileAs {} 0 Sample.bundle).result = .ok _ := rfl
  exact ⟨_, h, by decide +kernel, by decide +kernel,
    (Compiler.reserved_by_chain_or_variable rfl h (by decide +kernel)).1⟩

/-- A variable may have the reserved name of the payloads in the layout. -/
theorem reserved_variable : ∃ o,
    (Compiler.compileAs {} 0 (Sample.element "Wix" [] [
      Sample.element "Fragment" [("Id", "F")] [
        Sample.element "Variable" [("Name", "BundleLayoutOnlyPayloads"), ("Value", "1")] []]])).result =
      .ok o ∧ o.isSuccess ∧ ∃ s ∈ o.intermediate.symbols,
        Identifier.isReserved s.id.id ∧ s.kind = .variableValue :=
  ⟨_, rfl, by decide +kernel, by decide +kernel⟩

end Installer
