import Installer.Proofs.WellFormed.Bundles
import Installer.Proofs.WellFormed.Databases

/-! # What units define

The rules for units are careful, and so all rules are (`careful_open`). By induction over plans,
clean plans define only what is well-formed (`wellFormed_plan`). -/

namespace Installer

open Compile Planned Element

section Units
variable (site : Site) {scope : Scope}

attribute [local simp] Scope.Sound Parent.Sound Symbol.Data.InDomain

/-- A provider key that is blank is an error, and the others have ink. -/
theorem wellFormed_providerSteps (e : Element) (parent : Identifier) :
    ∀ s ∈ providerSteps e parent, s.WellFormed := by
  simp only [providerSteps_eq_map, List.forall_mem_map]
  intro a _
  split_ifs with hkey
  · have hid := Identifier.proper_synthesize "dep" rfl [parent.id, a.value]
    have hink : Text.HasInk a.value := by
      simpa [EmptyRule.allows, Text.isAllBlank, Text.HasInk] using hkey
    simpa [Symbol.Data.named_of_proper hid] using hink
  · simp

theorem careful_bundle (hs : scope.Sound) (h : (within scope (openBundle site)).All Step.Clean) :
    Careful (within scope (openBundle site)) := by
  simp only [openBundle, all_within, Logged.all_bind, clean_checkAttributes,
    clean_missingAttributes] at h
  obtain ⟨hp, hm, -⟩ := h
  obtain ⟨version, hversion, hv⟩ :=
    hp.exists_required (Field.of_version "Version") hm (by decide) rfl
  have hcode : ∀ code, site.element.value? (.guid "UpgradeCode") = some code →
      Guid.IsNormal code := fun code hc => domain_of_value? (Field.of_guid _) hc
  have hid := fun values => hp.proper_getD rfl (Identifier.proper_synthesize "bnd" rfl values)
  refine ⟨by simpa [openBundle] using wellFormed_providerSteps _ _, hs, ?_⟩
  simpa [openBundle, hversion, hv, Symbol.Data.named_of_proper (hid _)] using fun _ _ => hcode

theorem wellFormed_builtInProperty {name : String} (h : Identifier.isLegal name) (value : String) :
    (builtInProperty name value).WellFormed := by
  have hid := Identifier.proper_ofName (Identifier.isLegal_iff_isName.mp h)
  simp [builtInProperty, Symbol.Data.named_of_proper hid]

theorem careful_package (hs : scope.Sound) (h : (within scope (openPackage site)).All Step.Clean) :
    Careful (within scope (openPackage site)) := by
  simp only [openPackage, all_within, Logged.all_bind, clean_checkAttributes,
    clean_missingAttributes] at h
  obtain ⟨hp, hm, -⟩ := h
  obtain ⟨name, hname, hn⟩ := hp.exists_required (Field.of_text "Name") hm (by decide) rfl
  obtain ⟨manufacturer, hmanufacturer, hmf⟩ :=
    hp.exists_required (Field.of_text "Manufacturer") hm (by decide) rfl
  obtain ⟨version, hversion, hv⟩ :=
    hp.exists_required (Field.of_version "Version") hm (by decide) rfl
  have hid := Identifier.proper_synthesize "pkg" rfl
  have hlanguage : CodePage.InRange ((site.element.value? (.language "Language")).getD 0) :=
    domain_getD (Field.of_language _) ⟨by decide, by decide⟩
  have hproduct : (site.element.value? (.generatableGuid "ProductCode")).getD "*" = "*" ∨
      Guid.IsNormal ((site.element.value? (.generatableGuid "ProductCode")).getD "*") :=
    domain_getD (Field.of_generatableGuid _) (.inl rfl)
  have hinstaller : 0 ≤ (site.element.value? installerVersionField).getD defaultInstallerVersion :=
    (domain_getD (Field.of_integer _ _ _) (by decide)).1
  refine ⟨by simpa [openPackage] using wellFormed_providerSteps _ _, hs, ?_⟩
  simp only [openPackage, Logged.value_bind, Logged.value_pure, value_within, Option.some.injEq,
    forall_eq']
  refine ⟨trivial, fun _ _ s hmem => ?_⟩
  simp only [hname, hmanufacturer, hversion, Option.getD_some, List.mem_append, List.mem_cons,
    List.mem_map, List.not_mem_nil, or_false] at hmem
  rcases hmem with ((rfl | rfl | rfl | rfl | rfl) | ⟨code, -, rfl⟩) | rfl | rfl
  · exact wellFormed_builtInProperty rfl _
  · exact wellFormed_builtInProperty rfl _
  · exact wellFormed_builtInProperty rfl _
  · exact wellFormed_builtInProperty rfl _
  · exact wellFormed_builtInProperty rfl _
  · exact wellFormed_builtInProperty rfl _
  · refine Step.wellFormed_emit.mpr ⟨Symbol.Data.named_of_proper (hid _), hn, hmf, hv, hlanguage,
      fun n hc => ?_, fun code hc => ?_, hproduct, hinstaller⟩
    · exact domain_of_value? (Field.of_codePage _) hc
    · exact domain_of_value? (Field.of_guid _) hc
  · exact Step.wellFormed_closeUnit

theorem careful_module (hs : scope.Sound) (h : (within scope (openModule site)).All Step.Clean) :
    Careful (within scope (openModule site)) := by
  simp only [openModule, all_within, Logged.all_bind, clean_checkAttributes,
    clean_missingAttributes] at h
  obtain ⟨hp, hm, -⟩ := h
  obtain ⟨id, hid⟩ := exists_identifier?_of_has (hm "Id" (by decide))
  have hproper := (hp.at _).proper rfl hid
  obtain ⟨version, hversion, hv⟩ :=
    hp.exists_required (Field.of_version "Version") hm (by decide) rfl
  have hlanguage : CodePage.InRange ((site.element.value? (.language "Language")).getD 0) :=
    domain_getD (Field.of_language _) ⟨by decide, by decide⟩
  refine ⟨by simp [openModule], hs, ?_⟩
  simp only [openModule, Logged.value_bind, Logged.value_pure, value_within, Option.some.injEq,
    forall_eq', hid, hversion, Option.getD_some]
  refine ⟨trivial, fun _ _ => ?_⟩
  simp only [List.forall_mem_cons, Step.wellFormed_emit, Step.wellFormed_closeUnit, true_and]
  refine ⟨⟨Symbol.Data.named_of_proper hproper, hlanguage, hv, fun n hc => ?_, fun g hg => ?_⟩,
    by simp⟩
  · exact domain_of_value? (Field.of_codePage _) hc
  · exact domain_of_value? (Field.of_guid _) hg

/-- A patch is known by its code, or by a name that describes it. -/
theorem named_patchId (e : Element) (p : Symbol.Patch) :
    (Symbol.Data.patch p).Named (patchId e) := by
  have hid := Identifier.proper_synthesize "pch" rfl
  unfold patchId
  dsimp only
  split
  · next code hcode =>
    split_ifs with hstar
    · exact Symbol.Data.named_of_proper (hid _)
    · rcases domain_of_value? (Field.of_generatableGuid _) hcode with hc | hc
      · exact absurd hc hstar
      · exact ⟨Access.noConfusion, .inr ⟨⟨p, rfl⟩, hc⟩⟩
  · exact Symbol.Data.named_of_proper (hid _)

theorem careful_patch (hs : scope.Sound) : Careful (within scope (openPatch site)) := by
  refine ⟨by simp [openPatch], hs, ?_⟩
  simp [openPatch, named_patchId]

theorem careful_fragment (hs : scope.Sound) : Careful (within scope (openFragment site)) := by
  refine ⟨by simp [openFragment], hs, ?_⟩
  simp [openFragment]

end Units

/-! ### All rules -/

/-- Standard actions are elements with names that are names of actions. -/
theorem Content.Gives.isName {content : Content} {name : String}
    (h : content.Gives name (.action .standard)) : Identifier.IsName name := by
  have hall : ∀ content : Content, ∀ p ∈ content.entries, p.2.rule? = some (.action .standard) →
      Identifier.isLegal p.1 := by
    intro content
    cases content with
    | package kind => cases kind <;> decide
    | _ => decide
  obtain ⟨entry, hmem, hr⟩ := h
  exact Identifier.isLegal_iff_isName.mp (hall content _ hmem hr)

/-- **All rules are careful**: if there is no error, what they define is well-formed. -/
theorem careful_open {rule : Rule} {env : Env} {scope : Scope} {site : Site} (hs : scope.Sound)
    (hstandard : rule = .action .standard → Identifier.IsName site.element.name)
    (h : (rule.open env scope site).All Step.Clean) : Careful (rule.open env scope site) := by
  cases rule with
  | bundle => exact careful_bundle site hs h
  | package => exact careful_package site hs h
  | module => exact careful_module site hs h
  | patch => exact careful_patch site hs
  | fragment => exact careful_fragment site hs
  | bootstrapperApplication => exact careful_bootstrapperApplication site hs h
  | log => exact careful_log site hs
  | update => exact careful_update site hs h
  | relatedBundle => exact careful_relatedBundle site hs h
  | variableValue => exact careful_variable site hs h
  | chain => exact careful_chain site hs
  | packageGroup => exact careful_packageGroup site hs h
  | packageGroupRef => exact careful_packageGroupRef site hs
  | payloadGroup => exact careful_payloadGroup site hs h
  | payloadGroupRef => exact careful_payloadGroupRef site hs
  | container => exact careful_container site hs h
  | rollbackBoundary => exact careful_rollbackBoundary site hs h
  | payload => exact careful_payload site hs h
  | chainPackage kind => exact careful_chainPackage site kind env hs h
  | msiProperty => exact careful_msiProperty site hs h
  | slipstreamMsp => exact careful_slipstreamMsp site hs h
  | exitCode => exact careful_exitCode site hs
  | arpEntry => exact careful_arpEntry site hs h
  | component => exact careful_component site env hs h
  | registryKey => exact careful_registryKey site hs h
  | registryValue => exact careful_registryValue site hs h
  | customAction => exact careful_customAction site hs h
  | property => exact careful_property site hs h
  | patchProperty => exact careful_patchProperty site hs h
  | sequence s => exact careful_sequence site s env hs
  | action kind => exact careful_action site kind hs (fun hk => hstandard (hk ▸ rfl)) h

/-! ### Plans -/

/-- Clean steps in a sound scope define what is well-formed, and leave the scope sound. -/
def definingTrail : Trail := fun _ _ _ scope l scope' =>
  scope.Sound → (∀ s ∈ l, s.Clean) → (∀ s ∈ l, s.WellFormed) ∧ scope'.Sound

theorem definingTrail_closed (config : Config) : definingTrail.Closed config where
  nil hs _ := ⟨by simp, hs⟩
  append h h' hs hc := by
    obtain ⟨hc, hc'⟩ := List.forall_mem_append.mp hc
    obtain ⟨hw, hs'⟩ := h hs hc
    obtain ⟨hw', hs''⟩ := h' hs' hc'
    exact ⟨List.forall_mem_append.mpr ⟨hw, hw'⟩, hs''⟩
  foreign position _ hs _ := ⟨by simp, hs⟩
  refused _ hs _ := ⟨by simp, hs⟩
  tooDeep hs _ := ⟨by simp, hs⟩
  left hr _ hs hc := by
    have h := careful_open hs (fun he => (he ▸ gives_of_accept hr).isName) hc
    exact ⟨h.log, h.outer⟩
  entered hr hbody hinner hs hc := by
    obtain ⟨hc, hc'⟩ := List.forall_mem_append.mp hc
    have h := careful_open hs (fun he => (he ▸ gives_of_accept hr).isName) hc
    obtain ⟨hscope, hclose⟩ := h.body _ hbody
    obtain ⟨hw, hs'⟩ := hinner hscope (List.forall_mem_append.mp hc').1
    exact ⟨List.forall_mem_append.mpr ⟨h.log, List.forall_mem_append.mpr ⟨hw, hclose _ hs'⟩⟩, h.outer⟩

/-- **Clean plans define only what is well-formed.** -/
theorem wellFormed_plan {config : Config} {root : Element}
    (h : ∀ s ∈ plan config root, s.Clean) : ∀ s ∈ plan config root, s.WellFormed := by
  unfold plan at h ⊢
  split_ifs at h ⊢
  · simp
  · simp only [Logged.log_bind, List.forall_mem_append] at h ⊢
    obtain ⟨-, -, hchildren⟩ := h
    have hs : Scope.Sound {} := trivial
    refine ⟨by simp [report], by simp [offerAttributes], ?_⟩
    exact ((definingTrail_closed config).children _ _ _ _ _ _ _ _ hs hchildren).1

end Installer
