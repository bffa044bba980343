import Installer.Proofs.WellFormed

/-! # What databases define

The rules for the parts of installer databases are careful: properties, components, custom actions
and sequences. A registry value has a key, which is joined from those on the way
(`exists_key_enter`), and is a number if an integer is asked for (`isRegistryNumber_of_findings`). -/

namespace Installer

open Compile Planned Element

variable (site : Site) {scope : Scope}

attribute [local simp] Scope.Sound Parent.Sound Symbol.Data.InDomain

/-! ### Databases -/

theorem careful_property (hs : scope.Sound) (h : (within scope (openProperty site)).All Step.Clean) :
    Careful (within scope (openProperty site)) := by
  simp only [openProperty, all_within, Logged.all_bind, clean_checkAttributes] at h
  have hid := proper_requiredId (h.1.at _) rfl h.2.1
  refine ⟨by simp [openProperty], hs, ?_⟩
  simp [openProperty, Symbol.Data.named_of_proper hid]

theorem careful_patchProperty (hs : scope.Sound)
    (h : (within scope (openPatchProperty site)).All Step.Clean) :
    Careful (within scope (openPatchProperty site)) := by
  simp only [openPatchProperty, all_within, Logged.all_bind, clean_checkAttributes,
    clean_missingAttributes] at h
  obtain ⟨hp, hm, -⟩ := h
  obtain ⟨name, hname, hink⟩ := hp.exists_required (Field.of_text "Name") hm (by decide) rfl
  have hid := Identifier.proper_synthesize "pp" rfl [name]
  refine ⟨by simp [openPatchProperty], hs, ?_⟩
  simp [openPatchProperty, hname, hink, Symbol.Data.named_of_proper hid]

/-- A component has a directory, which is the default one only if it is not authored. -/
theorem exists_componentDirectory {env : Env} {e : Element} {checks : List (String × Check)}
    (hp : e.Passes checks) (hc : Reads checks (Field.reference "Directory"))
    (h : e.has "Directory" ∨ env.inDatabase) :
    ∃ d, componentDirectory env e = some d ∧ Identifier.IsName d := by
  unfold componentDirectory
  split_ifs with hh hd
  · exact hp.exists_value? hc (Field.of_reference _) hh
  · exact ⟨defaultDirectory, rfl, Identifier.isLegal_iff_isName.mp (by decide)⟩
  · exact absurd h (by simp [hh, hd])

theorem careful_component (env : Env) (hs : scope.Sound)
    (h : (within scope (openComponent env site)).All Step.Clean) :
    Careful (within scope (openComponent env site)) := by
  simp only [openComponent, all_within, Logged.all_bind, clean_checkAttributes, all_reportIf,
    Step.clean_report, isError_missingAttribute] at h
  obtain ⟨hp, hrequired, hdirectory, -⟩ := h
  have hid := proper_requiredId (hp.at _) rfl hrequired
  have hd : site.element.has "Directory" ∨ env.inDatabase := by
    by_contra hn
    simp only [not_or, Bool.not_eq_true] at hn
    simp [hn] at hdirectory
  obtain ⟨d, hd, hname⟩ := exists_componentDirectory hp rfl hd
  have hguid : ∀ guid, site.element.value? (.generatableGuid "Guid") = some guid →
      guid = "*" ∨ Guid.IsNormal guid :=
    fun guid hg => domain_of_value? (Field.of_generatableGuid _) hg
  refine ⟨by simp [openComponent], hs, ?_⟩
  simpa [openComponent, hd, hname, Symbol.Data.named_of_proper hid] using fun _ _ => hguid

/-! ### Registry -/

/-- The key that registry elements are below, if there is one, has ink. -/
theorem hasInk_of_registryPlace? {parent : Parent} (h : parent.Sound) {place : RegistryPlace}
    (hp : Parent.registryPlace? parent = some place) : ∀ k ∈ place.key, Text.HasInk k := by
  cases parent with
  | component id => cases hp; simp
  | registryKey component root key =>
    cases hp
    obtain ⟨k, rfl, hk⟩ := h
    simpa using hk
  | _ => cases hp

theorem Text.HasInk.append {s : String} (h : Text.HasInk s) (t : String) : Text.HasInk (s ++ t) := by
  obtain ⟨c, hc, hb⟩ := h
  exact ⟨c, by simp [hc], hb⟩

/-- A joined key has ink if one of its parts is there. -/
theorem exists_joinKey {parent key : Option String} (hp : ∀ k ∈ parent, Text.HasInk k)
    (hk : ∀ k ∈ key, Text.HasInk k) (h : parent.isSome ∨ key.isSome) :
    ∃ k, joinKey parent key = some k ∧ Text.HasInk k := by
  cases parent with
  | none =>
    cases key with
    | none => simp at h
    | some k => exact ⟨k, rfl, hk k rfl⟩
  | some p =>
    cases key with
    | none => exact ⟨p, rfl, hp p rfl⟩
    | some k => exact ⟨_, rfl, ((hp p rfl).append _).append _⟩

/-- The key of a registry element, if it or an element around it has one. -/
theorem exists_key_enter {place : RegistryPlace} {e : Element} {checks : List (String × Check)}
    (hplace : ∀ k ∈ place.key, Text.HasInk k) (hp : e.Passes checks)
    (hc : Reads checks (Field.text "Key")) (h : place.key.isSome ∨ e.has "Key") :
    ∃ k, (place.enter e).key = some k ∧ Text.HasInk k := by
  refine exists_joinKey hplace (fun k hk => domain_of_value? (Field.of_text _) hk) ?_
  rcases h with h | h
  · exact .inl h
  · obtain ⟨k, hk, -⟩ := hp.exists_value? hc (Field.of_text _) h
    exact .inr (by simp [hk])

theorem careful_registryKey (hs : scope.Sound) (h : (openRegistryKey scope site).All Step.Clean) :
    Careful (openRegistryKey scope site) := by
  unfold openRegistryKey at h ⊢
  split at h
  · exact careful_halt hs _
  · next place hplace =>
    simp only [Logged.all_bind, clean_checkAttributes, clean_missingAttributes] at h
    obtain ⟨hp, -, hm, -⟩ := h
    have hkey := exists_key_enter (hasInk_of_registryPlace? hs hplace) hp rfl
      (.inr (hm "Key" (by decide)))
    refine ⟨by simp, hs, ?_⟩
    simpa using hkey

theorem isRegistryNumber_of_isRegistryInteger {s : String} (h : isRegistryInteger s) :
    Symbol.IsRegistryNumber s := by
  have hdigits : ∀ digits : List Char, (Text.int32? (String.ofList digits)).isSome →
      ∃ n : Int, -2147483648 ≤ n ∧ n ≤ 2147483647 ∧ Text.signed? digits = some n := by
    intro digits hd
    obtain ⟨n, hn⟩ := Option.isSome_iff_exists.mp hd
    simp only [Text.int32?, Text.integer?, Option.filter_eq_some_iff, Bool.and_eq_true,
      decide_eq_true_eq, String.toList_ofList] at hn
    exact ⟨n, hn.2.1, hn.2.2, hn.1⟩
  unfold isRegistryInteger at h
  dsimp only at h
  split at h
  · next digits hs =>
    obtain ⟨n, hlo, hhi, hn⟩ := hdigits _ h
    exact ⟨n, digits, hlo, hhi, hn, .inr hs⟩
  · obtain ⟨n, hlo, hhi, hn⟩ := hdigits _ h
    exact ⟨n, s.toList, hlo, hhi, hn, .inl rfl⟩

/-- If an integer is asked for, then a value that is there is one. -/
theorem isRegistryNumber_of_findings {e : Element}
    (h : ∀ d ∈ registryValueFindings e .integer, d.isError = false) :
    ∀ v ∈ e.value? (.anyText "Value"), Symbol.IsRegistryNumber v := by
  intro v hv
  rw [Option.mem_def] at hv
  obtain ⟨a, ha⟩ : ∃ a, e.attribute? "Value" = some a :=
    Option.isSome_iff_exists.mp (has_of_value? hv)
  unfold registryValueFindings at h
  rw [hv, ha] at h
  dsimp only at h
  split_ifs at h with hi
  · exact isRegistryNumber_of_isRegistryInteger hi
  · simp at h

theorem careful_registryValue (hs : scope.Sound)
    (h : (openRegistryValue scope site).All Step.Clean) :
    Careful (openRegistryValue scope site) := by
  unfold openRegistryValue at h ⊢
  split at h
  · exact careful_halt hs _
  · next place hplace =>
    simp only [Logged.all_bind, clean_checkAttributes, all_reportIf, Step.clean_report,
      isError_missingAttribute] at h
    obtain ⟨hp, -, hkey, hvalue, -⟩ := h
    simp only [all_report, Step.clean_report] at hvalue
    have hk : place.key.isSome ∨ site.element.has "Key" := by
      by_contra hn
      simp only [not_or, Bool.not_eq_true, Option.isSome_eq_false_iff] at hn
      simp [hn] at hkey
    obtain ⟨key, hkey, hink⟩ :=
      exists_key_enter (hasInk_of_registryPlace? hs hplace) hp rfl hk
    have hid := fun values => hp.proper_getD rfl (Identifier.proper_synthesize "reg" rfl values)
    refine ⟨by simp, hs, ?_⟩
    simp only [Logged.value_bind, value_within, value_leaf, Option.some.injEq, forall_eq',
      List.mem_singleton, forall_eq, Step.wellFormed_emit]
    refine ⟨trivial, fun _ _ => ⟨Symbol.Data.named_of_proper (hid _), ?_, fun ht v hv => ?_⟩⟩
    · simpa [hkey] using hink
    · dsimp only at ht
      rw [ht] at hvalue
      exact isRegistryNumber_of_findings hvalue v hv

/-! ### Actions -/

/-- An attribute that is neither a source nor a target is checked as usual. -/
theorem mem_customActionFindings {e : Element} {a : Attribute} (hsource : ¬ isSource a.name)
    (htarget : ¬ isTarget a.name) {d : Diagnostic} (hd : d ∈ e.checkAttribute customActionChecks a)
    (source target : Option String) {attributes : List Attribute} (ha : a ∈ attributes) :
    d ∈ customActionFindings e source target attributes := by
  induction attributes generalizing source target with
  | nil => cases ha
  | cons b attributes ih =>
    rcases List.mem_cons.mp ha with rfl | ha
    · simp [customActionFindings, hsource, htarget, hd]
    · have hrest := fun source target => ih source target ha
      unfold customActionFindings
      split_ifs
      · split <;> simp [hrest]
      · split <;> simp [hrest]
      · simp [hrest]

theorem isName_codeOf (e : Element) : ∀ s ∈ (codeOf e).2.source, Identifier.IsName s := by
  have href : ∀ a : Attribute, ∀ s ∈ (Reader.reference e a).value, Identifier.IsName s :=
    fun _ _ hs => Reader.of_reference.domain hs
  unfold codeOf
  split
  · simp
  · simp
  · simp
  · next a _ _ _ => simpa only using href a
  · next a _ _ _ _ _ => simpa only using href a

theorem careful_customAction (hs : scope.Sound)
    (h : (within scope (openCustomAction site)).All Step.Clean) :
    Careful (within scope (openCustomAction site)) := by
  unfold openCustomAction at h ⊢
  simp only [all_within, Logged.all_bind, all_report, Step.clean_report] at h
  have hp : site.element.PassesAt customActionChecks "Id" := by
    intro a ha hname d hd
    have hsource : ¬ isSource a.name := by rw [hname]; decide
    have htarget : ¬ isTarget a.name := by rw [hname]; decide
    exact h.1 d (mem_customActionFindings hsource htarget hd none none ha)
  have hid := proper_requiredId hp rfl h.2.1
  have hcode := isName_codeOf site.element
  dsimp only
  split
  · refine ⟨by simp, hs, ?_⟩
    simpa [Symbol.Data.named_of_proper hid] using fun _ _ => hcode
  · refine ⟨by simp, hs, ?_⟩
    simpa [Symbol.Data.named_of_proper hid] using fun _ _ => hcode

theorem careful_sequence (sequence : Symbol.Sequence) (env : Env) (hs : scope.Sound) :
    Careful (within scope (openSequence sequence env site)) := by
  refine ⟨by simp [openSequence], hs, ?_⟩
  simp [openSequence]

/-- The name of an action. That of a standard action is the name of its element. -/
theorem isName_actionName {kind : ActionKind} {e : Element} (hp : e.Passes (actionChecks kind))
    (hm : ∀ name ∈ kind.nameAttribute?.toList, e.has name)
    (hstandard : kind = .standard → Identifier.IsName e.name) :
    Identifier.IsName (actionName kind e) := by
  cases kind with
  | custom =>
    obtain ⟨action, ha, hn⟩ := hp.exists_required (Field.of_reference "Action") hm (by decide) rfl
    simpa [actionName, ActionKind.nameAttribute?, ha] using hn
  | dialog =>
    obtain ⟨action, ha, hn⟩ := hp.exists_required (Field.of_reference "Dialog") hm (by decide) rfl
    simpa [actionName, ActionKind.nameAttribute?, ha] using hn
  | standard => exact hstandard rfl

theorem wellFormed_actionSteps (kind : ActionKind) (e : Element) (table : Symbol.SequenceTable)
    {action : String} (h : Identifier.IsName action) :
    ∀ s ∈ actionSteps kind e table action, s.WellFormed := by
  have hid := Identifier.proper_ofName (Identifier.isName_actionId table h)
  have hother : ∀ name, ∀ other ∈ e.value? (.reference name), Identifier.IsName other :=
    fun name other ho => domain_of_value? (Field.of_reference name) ho
  unfold actionSteps
  dsimp only
  split_ifs
  · simp [Symbol.Data.named_of_proper hid, h]
  · simpa [or_imp, forall_and, Symbol.Data.named_of_proper hid, h] using
      ⟨hother "Before", hother "After"⟩

theorem careful_action (kind : ActionKind) (hs : scope.Sound)
    (hstandard : kind = .standard → Identifier.IsName site.element.name)
    (h : (openAction kind scope site).All Step.Clean) : Careful (openAction kind scope site) := by
  unfold openAction at h ⊢
  dsimp only at h ⊢
  split at h
  · next table _ =>
    split_ifs at h ⊢
    · exact careful_refuse hs _
    · simp only [all_within, Logged.all_bind, clean_checkAttributes, clean_missingAttributes] at h
      have hname := isName_actionName h.1 h.2.1 hstandard
      refine ⟨by simp, hs, ?_⟩
      simpa using fun _ _ => wellFormed_actionSteps kind site.element table hname
  · exact careful_refuse hs _

end Installer
