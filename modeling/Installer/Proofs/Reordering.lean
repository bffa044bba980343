import Installer.Proofs.Gist
import Installer.Proofs.Locality
import Mathlib.Data.List.Nodup

/-! # Elements that say the same

An element restates another one if it has the same name, text and core attributes, in any order and at
any place in the source, and if no two of these have one name (`Element.Restates`). What a rule makes
of such elements is the same, and it has errors to report about both or about none. The exception are
the command lines of packages, whose deprecated names count when they are authored last: these agree
if the last of two such names is the same (`Element.SameArguments`). -/

namespace Installer

open Compile

theorem Diagnostic.hasErrors_optional {α : Type} (o : Option α) {f : α → Diagnostic}
    (hf : ∀ x, (f x).isError) : hasErrors (o.toList.map f) = o.isSome := by
  cases o <;> simp [hasErrors, hf]

/-- What an attribute says: its name and its value. -/
def Attribute.said (a : Attribute) : String × String := (a.name, a.value)

theorem Attribute.name_of_said {a a' : Attribute} (h : a.said = a'.said) : a.name = a'.name :=
  congrArg Prod.fst h

theorem Attribute.value_of_said {a a' : Attribute} (h : a.said = a'.said) : a.value = a'.value :=
  congrArg Prod.snd h

/-- What is made of one of two attributes that say the same is made of the other. -/
theorem Attribute.bind_congr {β : Type} {o o' : Option Attribute}
    (ho : o.map Attribute.said = o'.map Attribute.said) {g g' : Attribute → Option β}
    (hg : ∀ {a a' : Attribute}, a.said = a'.said → g a = g' a') : o.bind g = o'.bind g' := by
  rcases o with _ | a <;> rcases o' with _ | a'
  · rfl
  · cases ho
  · cases ho
  · exact hg (Option.some.inj ho)

namespace Element

/-- No two core attributes of the element have one name. -/
def Distinct (e : Element) : Prop := (e.coreAttributes.map (·.name)).Nodup

/-- The core attributes of the elements say the same, once each. -/
structure Restates (e e' : Element) : Prop where
  qname : e.qname = e'.qname
  text : e.text = e'.text
  said : (e.coreAttributes.map Attribute.said).Perm (e'.coreAttributes.map Attribute.said)
  distinct : e.Distinct

/-- What an attribute says settles whether there is an error about it. -/
theorem hasErrors_checkAttribute (e e' : Element) (checks : List (String × Check))
    [Check.AllLocal checks] {a a' : Attribute} (h : a.said = a'.said) :
    Diagnostic.hasErrors (e.checkAttribute checks a) =
      Diagnostic.hasErrors (e'.checkAttribute checks a') := by
  obtain ⟨hname, hvalue⟩ := Prod.mk.inj h
  unfold checkAttribute
  rw [hname]
  cases hc : checks.lookup a'.name with
  | none => rfl
  | some check => exact (Check.local_of_lookup hc).value e e' hvalue

namespace Restates

variable {e e' : Element} (h : e.Restates e')
include h

theorem name : e.name = e'.name := congrArg QName.name h.qname

theorem isCore : e.isCore = e'.isCore :=
  congrArg (fun q : QName => q.space == some coreNamespace) h.qname

theorem names : (e.coreAttributes.map (·.name)).Perm (e'.coreAttributes.map (·.name)) := by
  simpa [Function.comp_def, Attribute.said] using h.said.map Prod.fst

theorem symm : e'.Restates e where
  qname := h.qname.symm
  text := h.text.symm
  said := h.said.symm
  distinct := h.names.nodup_iff.mp h.distinct

theorem exists_mem {a : Attribute} (ha : a ∈ e.coreAttributes) :
    ∃ a' ∈ e'.coreAttributes, a'.said = a.said :=
  List.mem_map.mp (h.said.mem_iff.mp (List.mem_map_of_mem ha))

/-- Questions that what is said settles have the same answer for some core attribute of each. -/
theorem any_eq {p p' : Attribute → Bool} (hp : ∀ {a a' : Attribute}, a.said = a'.said → p a = p' a') :
    e.coreAttributes.any p = e'.coreAttributes.any p' := by
  rw [Bool.eq_iff_iff, List.any_eq_true, List.any_eq_true]
  constructor
  · rintro ⟨a, ha, hpa⟩
    obtain ⟨a', ha', hsaid⟩ := h.exists_mem ha
    exact ⟨a', ha', (hp hsaid.symm).symm.trans hpa⟩
  · rintro ⟨a', ha', hpa⟩
    obtain ⟨a, ha, hsaid⟩ := h.symm.exists_mem ha'
    exact ⟨a, ha, (hp hsaid).trans hpa⟩

theorem countP_eq (p : String → Bool) :
    e.coreAttributes.countP (p ·.name) = e'.coreAttributes.countP (p ·.name) := by
  have hcount := h.names.countP_eq p
  rwa [List.countP_map, List.countP_map] at hcount

/-- A single attribute of a sort is found in both, wherever it stands. -/
theorem filter_said {p : String → Bool} (hp : e.coreAttributes.countP (p ·.name) ≤ 1) :
    (e.coreAttributes.filter (p ·.name)).map Attribute.said =
      (e'.coreAttributes.filter (p ·.name)).map Attribute.said := by
  have hperm : ((e.coreAttributes.filter (p ·.name)).map Attribute.said).Perm
      ((e'.coreAttributes.filter (p ·.name)).map Attribute.said) := by
    simpa only [List.filter_map, Function.comp_def, Attribute.said] using h.said.filter (p ·.1)
  rw [List.countP_eq_length_filter] at hp
  generalize e.coreAttributes.filter (p ·.name) = l at hp hperm ⊢
  -- one attribute at most cannot be permuted
  rcases l with _ | ⟨a, _ | ⟨b, l⟩⟩
  · exact (List.nil_perm.mp hperm).symm
  · exact List.singleton_perm.mp hperm
  · simp at hp

theorem countP_name (name : String) : e.coreAttributes.countP (fun a => a.name == name) ≤ 1 := by
  have hcount := List.nodup_iff_count_le_one.mp h.distinct name
  rwa [List.count, List.countP_map] at hcount

/-- Attributes of one name say the same. -/
theorem said_of_name {a a' : Attribute} (ha : a ∈ e.coreAttributes) (ha' : a' ∈ e'.coreAttributes)
    (hname : a.name = a'.name) : a.said = a'.said := by
  obtain ⟨b, hb, hsaid⟩ := h.symm.exists_mem ha'
  have heq : b = a := List.inj_on_of_nodup_map h.distinct hb ha
    ((Attribute.name_of_said hsaid).trans hname.symm)
  rw [← heq, hsaid]

theorem last?_said (name : String) :
    (e.last? [name]).map Attribute.said = (e'.last? [name]).map Attribute.said := by
  have hlast : ∀ e : Element, e.last? [name] =
      (e.coreAttributes.filter fun a => a.name == name).getLast? := by
    intro e
    simp only [last?, List.contains_cons, List.contains_nil, Bool.or_false]
  rw [hlast, hlast, ← List.getLast?_map, ← List.getLast?_map,
    h.filter_said (p := (· == name)) (h.countP_name name)]

/-! ### Values -/

theorem has_eq (name : String) : e.has name = e'.has name := by
  have hany : ∀ e : Element, e.has name = e.coreAttributes.any (·.name == name) := by
    intro e
    rw [Bool.eq_iff_iff, has_iff, List.any_eq_true]
    simp
  rw [hany, hany]
  refine h.any_eq fun hsaid => ?_
  rw [Attribute.name_of_said hsaid]

theorem value?_eq {α : Type} (f : Field α) [Reader.Local f.read] : e.value? f = e'.value? f :=
  Attribute.bind_congr (h.last?_said f.name) fun hsaid =>
    (Reader.Local.value e e' (Attribute.value_of_said hsaid)).value_eq

theorem identifier?_eq (f : Field Identifier) [Reader.Local f.read] :
    e.identifier? f = e'.identifier? f := by
  rw [identifier?, identifier?, Option.map_eq_bind, Option.map_eq_bind]
  refine Attribute.bind_congr (h.last?_said f.name) fun hsaid => ?_
  rw [Function.comp_apply, Function.comp_apply, Reader.value_orInvalid, Reader.value_orInvalid,
    (Reader.Local.value e e' (Attribute.value_of_said hsaid)).value_eq]

/-! ### Findings -/

theorem hasErrors_checkAttributes (checks : List (String × Check)) [Check.AllLocal checks] :
    Diagnostic.hasErrors (e.checkAttributes checks) =
      Diagnostic.hasErrors (e'.checkAttributes checks) := by
  simp only [Diagnostic.hasErrors, checkAttributes, List.any_flatMap]
  exact h.any_eq fun hsaid => hasErrors_checkAttribute e e' checks hsaid

theorem hasErrors_missingAttributes (names : List String) :
    Diagnostic.hasErrors (e.missingAttributes names) =
      Diagnostic.hasErrors (e'.missingAttributes names) := by
  simp [Diagnostic.hasErrors, missingAttributes, h.has_eq, Function.comp_def]

end Restates

end Element

/-- The names of the attributes for the command lines of a package, with their deprecated twins. -/
def argumentNames : List (List String) := [
  ["InstallArguments", "InstallCommand"],
  ["RepairArguments", "RepairCommand"],
  ["UninstallArguments", "UninstallCommand"]]

/-- For each command line, the name that is authored last is the same in both elements. -/
def Element.SameArguments (e e' : Element) : Prop :=
  ∀ names ∈ argumentNames, (e.last? names).map (·.name) = (e'.last? names).map (·.name)

/-- Whether packages of a kind have command lines. -/
def Symbol.PackageKind.hasArguments : Symbol.PackageKind → Bool
  | .exe | .bundle => true
  | .msi | .msp | .msu => false

/-! ### What rules make of attributes -/

namespace Compile

/-- The same is gathered about payloads, though maybe in another order. -/
structure PayloadFields.Alike (fields fields' : PayloadFields) : Prop where
  id : fields.id = fields'.id
  values : fields.values = fields'.values
  seen : ∀ name, name ∈ fields.seen ↔ name ∈ fields'.seen

section Alike
variable {fields fields' : PayloadFields} (h : fields.Alike fields')
include h

theorem PayloadFields.Alike.saw_eq (name : String) : fields.saw name = fields'.saw name := by
  rw [saw, saw, Bool.eq_iff_iff, List.contains_iff_mem, List.contains_iff_mem, h.seen]

theorem PayloadFields.Alike.isSome_firstSeen? (names : List String) :
    (fields.firstSeen? names).isSome = (fields'.firstSeen? names).isSome := by
  rw [firstSeen?, firstSeen?, List.isSome_find?, List.isSome_find?, Bool.eq_iff_iff]
  simp only [List.any_eq_true, h.seen]

/-- The payload does not depend on the order, and it has errors alike. -/
theorem PayloadFields.Alike.gist_resolve (e e' : Element) (remoteAllowed : Bool) :
    (fields.resolve e remoteAllowed).gist = (fields'.resolve e' remoteAllowed).gist := by
  have hexclusive : ∀ (o : Option String) (e : Element),
      Diagnostic.hasErrors (o.toList.map (e.mutuallyExclusive "SourceFile")) = o.isSome :=
    fun o e => Diagnostic.hasErrors_optional o fun _ => rfl
  have hmissing : Diagnostic.hasErrors (fields.missing e) =
      Diagnostic.hasErrors (fields'.missing e') := by
    simp [Diagnostic.hasErrors, missing, h.saw_eq, Function.comp_def]
  unfold resolve payload
  simp only [Logged.gist_ite, Logged.gist_bind, Planned.gist_report, Logged.gist_pure, hexclusive,
    hmissing, h.saw_eq, h.isSome_firstSeen?, h.values]
  rfl

theorem PayloadFields.Alike.resolveInline_eq : fields.resolveInline = fields'.resolveInline := by
  simp only [resolveInline, h.values]

end Alike

variable {e e' : Element} (h : e.Restates e')
include h

theorem alike_payloadFields (form : PayloadForm) :
    (e.payloadFields form).Alike (e'.payloadFields form) where
  id := by simp only [Element.payloadFields, h.identifier?_eq]
  values := by simp only [Element.payloadFields, Element.valueIn?, h.value?_eq]
  seen name := by rw [Element.mem_seen_payloadFields, Element.mem_seen_payloadFields, h.has_eq]

theorem gist_requiredId : (requiredId e).gist = (requiredId e').gist := by
  unfold requiredId
  rw [h.identifier?_eq]
  split <;> simp [Diagnostic.hasErrors]

theorem gist_containerId : (containerId e).gist = (containerId e').gist := by
  unfold containerId
  rw [h.identifier?_eq, h.value?_eq]
  split <;> simp [h.has_eq]

theorem patchId_eq : patchId e = patchId e' := by simp [patchId, h.value?_eq]

theorem isPermanent_eq : isPermanent e = isPermanent e' := by simp [isPermanent, h.value?_eq]

theorem componentDirectory_eq (env : Env) : componentDirectory env e = componentDirectory env e' := by
  simp [componentDirectory, h.has_eq, h.value?_eq]

theorem enter_eq (place : RegistryPlace) : place.enter e = place.enter e' := by
  simp [RegistryPlace.enter, h.value?_eq]

theorem actionName_eq (kind : ActionKind) : actionName kind e = actionName kind e' := by
  simp [actionName, h.value?_eq, h.name]

theorem actionSteps_eq (kind : ActionKind) : actionSteps kind e = actionSteps kind e' := by
  funext table action
  simp [actionSteps, sequenceNumber, h.value?_eq]

/-- A provider key is there once at most, so that there is one order for the steps. -/
theorem gist_providerSteps (parent : Identifier) :
    Step.gist (providerSteps e parent) = Step.gist (providerSteps e' parent) := by
  have hkeys := h.filter_said (p := (· == "ProviderKey")) (h.countP_name _)
  rw [← List.forall₂_eq_eq_eq, List.forall₂_map_left_iff, List.forall₂_map_right_iff] at hkeys
  rw [providerSteps_eq_map, providerSteps_eq_map]
  refine Step.gist_map_congr hkeys fun {a a'} hsaid => ?_
  rw [Attribute.value_of_said hsaid]
  split_ifs <;> rfl

/-- There is something to say about the value of a variable in both elements, or in none. -/
theorem hasErrors_variableFindings : Diagnostic.hasErrors (variableFindings e) =
    Diagnostic.hasErrors (variableFindings e') := by
  have hhas : (e.attribute? "Value").isSome = (e'.attribute? "Value").isSome := h.has_eq "Value"
  simp only [variableFindings, h.value?_eq, Diagnostic.hasErrors, List.any_append]
  generalize e.attribute? "Value" = o at hhas
  generalize e'.attribute? "Value" = o' at hhas
  generalize e'.value? (.anyText "Value") = value
  generalize e'.value? (.choice Symbol.VariableType "Type") = authored
  rcases o with _ | a <;> rcases o' with _ | a'
  · cases value <;> cases Variable.inferType authored _ <;> rfl
  · cases hhas
  · cases hhas
  · cases value with
    | none => cases Variable.inferType authored none <;> rfl
    | some v =>
      dsimp only
      cases Variable.inferType authored (some v) <;> cases Variable.mismatch? authored v <;> rfl

theorem hasErrors_registryValueFindings (valueType : Symbol.RegistryValueType) :
    Diagnostic.hasErrors (registryValueFindings e valueType) =
      Diagnostic.hasErrors (registryValueFindings e' valueType) := by
  have hhas : (e.attribute? "Value").isSome = (e'.attribute? "Value").isSome := h.has_eq "Value"
  unfold registryValueFindings
  rw [h.value?_eq]
  generalize e.attribute? "Value" = o at hhas
  generalize e'.attribute? "Value" = o' at hhas
  generalize e'.value? (.anyText "Value") = value
  rcases o with _ | a <;> rcases o' with _ | a'
  · cases valueType <;> cases value <;> rfl
  · cases hhas
  · cases hhas
  · cases valueType with
    | integer =>
      cases value with
      | none => rfl
      | some v =>
        dsimp only
        split_ifs <;> rfl
    | _ => cases value <;> rfl

/-! ### Schedules -/

theorem authoredScheduling_perm (kind : ActionKind) :
    (authoredScheduling kind e).Perm (authoredScheduling kind e') :=
  h.names.filter _

theorem hasErrors_selfRelative (action name : String) :
    Diagnostic.hasErrors (selfRelative e action name) =
      Diagnostic.hasErrors (selfRelative e' action name) := by
  have hlast := h.last?_said name
  unfold selfRelative
  generalize e.last? [name] = o at hlast
  generalize e'.last? [name] = o' at hlast
  rcases o with _ | a <;> rcases o' with _ | a'
  · rfl
  · cases hlast
  · cases hlast
  · have hvalue := Attribute.value_of_said (Option.some.inj hlast)
    have hread : (Reader.reference e a).value = (Reader.reference e' a').value :=
      (Reader.Local.value e e' hvalue).value_eq
    dsimp only
    rw [hread]
    split_ifs <;> rfl

/-- Of the attributes that schedule an action, only the number matters. -/
theorem hasErrors_scheduleFindings (kind : ActionKind) (action : String) :
    Diagnostic.hasErrors (scheduleFindings kind e action) =
      Diagnostic.hasErrors (scheduleFindings kind e' action) := by
  have hlength := (authoredScheduling_perm h kind).length_eq
  have hbefore := hasErrors_selfRelative h action "Before"
  have hafter := hasErrors_selfRelative h action "After"
  simp only [Diagnostic.hasErrors, scheduleFindings, h.value?_eq] at hbefore hafter ⊢
  generalize authoredScheduling kind e = l at hlength
  generalize authoredScheduling kind e' = l' at hlength
  by_cases hsuppress : (e'.value? (.yesNo "Suppress")).getD false
  · rw [if_pos hsuppress, if_pos hsuppress]
    cases l <;> cases l' <;> simp at hlength <;> rfl
  · simp only [if_neg hsuppress, List.any_append, hbefore, hafter]
    rcases l with _ | ⟨a, _ | ⟨b, l⟩⟩ <;> rcases l' with _ | ⟨a', _ | ⟨b', l'⟩⟩ <;>
      simp at hlength
    · split_ifs <;> rfl
    · rfl
    · rfl

/-! ### Packages -/

/-- The value of the last attribute with one of some names, if its name is the same. -/
theorem map_value_last? {names : List String}
    (hname : (e.last? names).map (·.name) = (e'.last? names).map (·.name)) :
    (e.last? names).map (·.value) = (e'.last? names).map (·.value) := by
  have hmem : ∀ {e : Element} {a : Attribute}, e.last? names = some a → a ∈ e.coreAttributes := by
    intro e a ha
    exact (List.mem_filter.mp (List.mem_of_getLast? ha)).1
  cases ha : e.last? names with
  | none =>
    rw [ha] at hname
    rw [Option.map_eq_none_iff.mp hname.symm]
  | some a =>
    rw [ha] at hname
    obtain ⟨a', ha', hname⟩ := Option.map_eq_some_iff.mp hname.symm
    have hsaid := h.said_of_name (hmem ha) (hmem ha') hname.symm
    rw [ha', Option.map_some, Option.map_some, Attribute.value_of_said hsaid]

theorem argumentsOf_eq (hargs : e.SameArguments e') : argumentsOf e = argumentsOf e' := by
  simp only [Element.SameArguments, argumentNames, List.forall_mem_cons] at hargs
  obtain ⟨hinstall, hrepair, huninstall, -⟩ := hargs
  simp only [argumentsOf, map_value_last? h hinstall, map_value_last? h hrepair,
    map_value_last? h huninstall]

theorem detectionOf_eq (hargs : e.SameArguments e') (entry : Option ArpEntry) :
    Diagnostic.hasErrors (detectionOf e entry).1 = Diagnostic.hasErrors (detectionOf e' entry).1 ∧
      (detectionOf e entry).2 = (detectionOf e' entry).2 := by
  unfold detectionOf
  rw [h.value?_eq, argumentsOf_eq h hargs, isPermanent_eq h]
  split
  · exact ⟨rfl, rfl⟩
  · exact ⟨rfl, rfl⟩
  · refine ⟨?_, rfl⟩
    dsimp only
    split_ifs <;> rfl
  · refine ⟨?_, rfl⟩
    dsimp only
    split_ifs <;> rfl

theorem detailsOf_eq {kind : Symbol.PackageKind} (hargs : kind.hasArguments → e.SameArguments e')
    (entry : Option ArpEntry) :
    Diagnostic.hasErrors (detailsOf e entry kind).1 =
        Diagnostic.hasErrors (detailsOf e' entry kind).1 ∧
      (detailsOf e entry kind).2 = (detailsOf e' entry kind).2 := by
  cases kind with
  | msi | msp | msu => simp [detailsOf, h.value?_eq]
  | exe =>
    obtain ⟨hfindings, hdetection⟩ := detectionOf_eq h (hargs rfl) entry
    simp [detailsOf, h.value?_eq, argumentsOf_eq h (hargs rfl), hfindings, hdetection]
  | bundle => simp [detailsOf, argumentsOf_eq h (hargs rfl)]

theorem gist_packageSteps {kind : Symbol.PackageKind}
    (hargs : kind.hasArguments → e.SameArguments e') (p : PackagePayload)
    (entry : Option ArpEntry) :
    Step.gist (packageSteps kind e p entry) = Step.gist (packageSteps kind e' p entry) := by
  obtain ⟨hfindings, hdetails⟩ := detailsOf_eq h hargs entry
  have hvisible : visibleOf e kind = visibleOf e' kind := by
    cases kind <;> simp [visibleOf, Element.valueIn?, h.value?_eq, isPermanent_eq h]
  have hscope : perMachineOf e kind = perMachineOf e' kind := by
    cases kind <;> simp [perMachineOf, Element.valueIn?, h.value?_eq]
  simp only [packageSteps, Step.gist_append, Step.gist_reports, hfindings, hdetails, h.value?_eq,
    hvisible, hscope, isPermanent_eq h]

theorem gist_closePackage {kind : Symbol.PackageKind}
    (hargs : kind.hasArguments → e.SameArguments e') (p : PackagePayload) (inner : Scope) :
    Step.gist (closePackage kind e p inner) = Step.gist (closePackage kind e' p inner) := by
  unfold closePackage
  split
  · exact gist_packageSteps h hargs p _
  · rfl

end Compile

/-! ### Custom actions -/

namespace Compile

theorem isTarget_of_isSource {name : String} (h : isSource name) : isTarget name = false := by
  have hall : ∀ s ∈ sourceAttributes, isTarget s.1 = false := by decide
  obtain ⟨kind, hkind⟩ := Option.isSome_iff_exists.mp h
  obtain ⟨l₁, l₂, hl, -⟩ := List.lookup_eq_some_iff.mp hkind
  exact hall (name, kind) (by rw [hl]; simp)

/-- There is no error about the attributes of a custom action if each of them is right and no second
one is a source or a target. -/
theorem customActionFindings_iff (e : Element) (l : List Attribute) (source target : Option String) :
    Diagnostic.hasErrors (customActionFindings e source target l) = false ↔
      l.countP (isSource ·.name) + source.toList.length ≤ 1 ∧
        l.countP (isTarget ·.name) + target.toList.length ≤ 1 ∧
        ∀ a ∈ l, Diagnostic.hasErrors (e.checkAttribute customActionChecks a) = false := by
  have happend : ∀ ds ds' : List Diagnostic, Diagnostic.hasErrors (ds ++ ds') = false ↔
      Diagnostic.hasErrors ds = false ∧ Diagnostic.hasErrors ds' = false := by
    simp [Diagnostic.hasErrors]
  have hexclusive : ∀ first second ds,
      Diagnostic.hasErrors (e.mutuallyExclusive first second :: ds) = true := fun _ _ _ => rfl
  induction l generalizing source target with
  | nil => cases source <;> cases target <;> simp [customActionFindings, Diagnostic.hasErrors]
  | cons a l ih =>
    rw [List.forall_mem_cons, List.countP_cons, List.countP_cons]
    by_cases hsource : isSource a.name
    · have htarget := isTarget_of_isSource hsource
      cases source with
      | none =>
        simp only [customActionFindings, hsource, htarget, happend, ih, if_true]
        grind
      | some first =>
        simp only [customActionFindings, hsource, hexclusive, if_true]
        grind
    · rw [Bool.not_eq_true] at hsource
      by_cases htarget : isTarget a.name
      · cases target with
        | none =>
          simp only [customActionFindings, hsource, htarget, happend, ih, if_true,
            Bool.false_eq_true, if_false]
          grind
        | some first =>
          simp only [customActionFindings, hsource, htarget, hexclusive, if_true,
            Bool.false_eq_true, if_false]
          grind
      · rw [Bool.not_eq_true] at htarget
        simp only [customActionFindings, hsource, htarget, happend, ih, Bool.false_eq_true, if_false]
        grind

theorem passes_of_customActionFindings {e : Element}
    (h : ∀ d ∈ customActionFindings e none none e.coreAttributes, d.isError = false) :
    e.Passes customActionChecks := by
  have herrors : Diagnostic.hasErrors (customActionFindings e none none e.coreAttributes) = false := by
    simpa [Diagnostic.hasErrors] using h
  obtain ⟨-, -, hchecks⟩ := (customActionFindings_iff _ _ _ _).mp herrors
  intro d hd
  obtain ⟨a, ha, hmem⟩ := List.mem_flatMap.mp hd
  have hcheck := hchecks a ha
  simp only [Diagnostic.hasErrors, List.any_eq_false] at hcheck
  simpa using hcheck d hmem

section Code
variable {e e' : Element} (h : e.Restates e')
include h

theorem hasErrors_customActionFindings :
    Diagnostic.hasErrors (customActionFindings e none none e.coreAttributes) =
      Diagnostic.hasErrors (customActionFindings e' none none e'.coreAttributes) := by
  have hchecks : (∀ a ∈ e.coreAttributes,
        Diagnostic.hasErrors (e.checkAttribute customActionChecks a) = false) ↔
      ∀ a ∈ e'.coreAttributes,
        Diagnostic.hasErrors (e'.checkAttribute customActionChecks a) = false := by
    have hany := h.any_eq fun {a a'} (hsaid : a.said = a'.said) =>
      Element.hasErrors_checkAttribute e e' customActionChecks hsaid
    simpa using (Bool.coe_iff_coe.mpr hany).not
  rw [Bool.eq_iff_iff, ← not_iff_not, Bool.not_eq_true, Bool.not_eq_true, customActionFindings_iff,
    customActionFindings_iff, h.countP_eq, h.countP_eq, hchecks]

/-- The first attribute of a sort is the same if there is no second one. -/
theorem find?_said {p : String → Bool} (hp : e.coreAttributes.countP (p ·.name) ≤ 1) :
    (e.coreAttributes.find? (p ·.name)).map Attribute.said =
      (e'.coreAttributes.find? (p ·.name)).map Attribute.said := by
  rw [← List.head?_filter, ← List.head?_filter, ← List.head?_map, ← List.head?_map,
    h.filter_said hp]

omit h in
/-- Attributes that say the same have the same entry in a table. -/
theorem lookup_cases {κ : Type} (table : List (String × κ)) {o o' : Option Attribute}
    (ho : o.map Attribute.said = o'.map Attribute.said) :
    ((o.bind fun a => (table.lookup a.name).map (·, a)) = none ∧
        (o'.bind fun a => (table.lookup a.name).map (·, a)) = none) ∨
      ∃ kind a a', (o.bind fun a => (table.lookup a.name).map (·, a)) = some (kind, a) ∧
        (o'.bind fun a => (table.lookup a.name).map (·, a)) = some (kind, a') ∧
          a.value = a'.value := by
  rcases o with _ | a <;> rcases o' with _ | a'
  · exact .inl ⟨rfl, rfl⟩
  · cases ho
  · cases ho
  · have hsaid := Option.some.inj ho
    have hname := Attribute.name_of_said hsaid
    simp only [Option.bind_some, hname]
    cases table.lookup a'.name with
    | none => exact .inl ⟨rfl, rfl⟩
    | some kind => exact .inr ⟨kind, a, a', rfl, rfl, Attribute.value_of_said hsaid⟩

/-- The code of a custom action is the same if it has no second source or target. -/
theorem codeOf_eq (hsource : e.coreAttributes.countP (isSource ·.name) ≤ 1)
    (htarget : e.coreAttributes.countP (isTarget ·.name) ≤ 1) :
    Diagnostic.hasErrors (codeOf e).1 = Diagnostic.hasErrors (codeOf e').1 ∧
      (codeOf e).2 = (codeOf e').2 := by
  have hscript : (e.attribute? "Script").isSome = (e'.attribute? "Script").isSome :=
    h.has_eq "Script"
  have hs := lookup_cases sourceAttributes (find?_said h hsource)
  have ht := lookup_cases targetAttributes (find?_said h htarget)
  rw [← sourceOf?, ← sourceOf?] at hs
  rw [← targetOf?, ← targetOf?] at ht
  unfold codeOf
  rcases hs with ⟨hs, hs'⟩ | ⟨source, a, a', hs, hs', ha⟩
  · rw [hs, hs']
    exact ⟨rfl, rfl⟩
  · have hreference : (Reader.reference e a).value = (Reader.reference e' a').value :=
      (Reader.Local.value e e' ha).value_eq
    rcases ht with ⟨ht, ht'⟩ | ⟨target, b, b', ht, ht', hb⟩
    · rw [hs, hs', ht, ht']
      cases source with
      | inlineScript =>
        have hlanguage : (scriptField.read e a).value = (scriptField.read e' a').value :=
          (Reader.Local.value e e' ha).value_eq
        simp only [h.text, hlanguage, and_true]
        split_ifs
        · rw [Option.toList_map, Option.toList_map, Diagnostic.hasErrors_optional _ fun _ => rfl,
            Diagnostic.hasErrors_optional _ fun _ => rfl, hscript]
        · rfl
      | _ =>
        simp only [hreference, and_true]
        rfl
    · have hread : (targetReader target e b).value = (targetReader target e' b').value :=
        (Reader.Local.value e e' hb).value_eq
      rw [hs, hs', ht, ht']
      cases source with
      | inlineScript =>
        simp only [hread, and_true]
        rfl
      | _ => simp only [hreference, hread, and_self]

end Code

end Compile

end Installer
