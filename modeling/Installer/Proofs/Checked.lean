import Installer.Proofs.Domains
import Installer.Proofs.Openings

/-! # Elements without errors

An element passes its checks (`Element.Passes`) if none of its core attributes gives rise to an error.
The fields of such an element have values in their domains wherever their attributes are there
(`Element.Passes.exists_value?`), also if an attribute is there twice, and its identifier is a proper
one (`Element.Passes.proper`). Steps without errors are clean (`Step.Clean`). -/

namespace Installer

namespace Element

variable {e : Element} {name : String} {checks : List (String × Check)}

@[simp] theorem isError_missingAttribute : (e.missingAttribute name).isError = true := rfl

@[simp] theorem isError_expectedAttributes (names : List String) :
    (e.expectedAttributes names).isError = true := rfl

@[simp] theorem isError_expectedAttributeOrElement (child : String) :
    (e.expectedAttributeOrElement name child).isError = true := rfl

@[simp] theorem isError_mutuallyExclusive (second : String) :
    (e.mutuallyExclusive name second).isError = true := rfl

@[simp] theorem isError_unexpectedElement (child : Element) :
    (e.unexpectedElement child).isError = true := rfl

@[simp] theorem isError_illegalValueBecause (a : Attribute) (reason : String) :
    (e.illegalValueBecause a reason).isError = true := rfl

theorem has_iff : e.has name ↔ ∃ a ∈ e.coreAttributes, a.name = name := by
  simp [has, attribute?]

theorem last?_eq_some {a : Attribute} (h : e.last? [name] = some a) :
    a ∈ e.coreAttributes ∧ a.name = name := by
  simpa using List.mem_of_getLast? h

/-- An attribute that is there at all is there as the last one of its name. -/
theorem exists_last?_iff : (∃ a, e.last? [name] = some a) ↔ e.has name := by
  constructor
  · rintro ⟨a, ha⟩
    exact has_iff.mpr ⟨a, last?_eq_some ha⟩
  · intro h
    obtain ⟨a, ha, rfl⟩ := has_iff.mp h
    have hmem : a ∈ e.coreAttributes.filter ([a.name].contains ·.name) := by simp [ha]
    exact ⟨_, List.getLast?_eq_some_getLast (List.ne_nil_of_mem hmem)⟩

theorem exists_read_of_value? {α : Type} {f : Field α} {v : α} (h : e.value? f = some v) :
    ∃ a, e.last? [f.name] = some a ∧ (f.read e a).value = some v :=
  Option.bind_eq_some_iff.mp h

/-- The value of a field lies in the domain of its reader. -/
theorem domain_of_value? {α : Type} {f : Field α} {P : α → Prop} (hf : f.read.Of P) {v : α}
    (h : e.value? f = some v) : P v := by
  obtain ⟨a, -, hv⟩ := exists_read_of_value? h
  exact hf.domain hv

/-- The same of a field with a default in the domain. -/
theorem domain_getD {α : Type} {f : Field α} {P : α → Prop} (hf : f.read.Of P) {d : α} (hd : P d) :
    P ((e.value? f).getD d) := by
  cases h : e.value? f with
  | none => exact hd
  | some v => exact domain_of_value? hf h

theorem has_of_value? {α : Type} {f : Field α} {v : α} (h : e.value? f = some v) : e.has f.name := by
  obtain ⟨a, ha, -⟩ := exists_read_of_value? h
  exact exists_last?_iff.mp ⟨a, ha⟩

theorem value?_eq_none_of_not_has {α : Type} {f : Field α} (h : ¬ e.has f.name) :
    e.value? f = none := by
  by_contra hv
  obtain ⟨v, hv⟩ := Option.ne_none_iff_exists'.mp hv
  exact h (has_of_value? hv)

/-- If no required attribute is reported as missing, all of them are there. -/
theorem missingAttributes_iff {names : List String} :
    (∀ d ∈ e.missingAttributes names, d.isError = false) ↔ ∀ name ∈ names, e.has name := by
  simp only [missingAttributes, List.forall_mem_map, List.mem_filter, isError_missingAttribute]
  simp

/-! ### Passing the checks -/

/-- No core attribute of the element gives rise to an error. -/
def Passes (e : Element) (checks : List (String × Check)) : Prop :=
  ∀ d ∈ e.checkAttributes checks, d.isError = false

/-- No core attribute of the given name gives rise to an error. -/
def PassesAt (e : Element) (checks : List (String × Check)) (name : String) : Prop :=
  ∀ a ∈ e.coreAttributes, a.name = name → ∀ d ∈ e.checkAttribute checks a, d.isError = false

theorem Passes.at (hp : e.Passes checks) (name : String) : e.PassesAt checks name :=
  fun a ha _ d hd => hp d (List.mem_flatMap.mpr ⟨a, ha, hd⟩)

/-- An attribute that is there is known to the checks. -/
theorem Passes.known (hp : e.Passes checks) {name : String} (h : e.has name) :
    (checks.lookup name).isSome := by
  obtain ⟨a, ha⟩ := exists_last?_iff.mpr h
  obtain ⟨hmem, hname⟩ := last?_eq_some ha
  have hpass := hp.at name a hmem hname
  cases hlookup : checks.lookup name with
  | some check => rfl
  | none =>
    rw [checkAttribute, hname, hlookup] at hpass
    cases hpass (e.unexpectedAttribute a) (List.mem_singleton.mpr rfl)

/-- A check with the findings of a reader, for the attributes of the given name. -/
def Reads {α : Type} (checks : List (String × Check)) (f : Field α) : Prop :=
  checks.lookup f.name = some f.read.findings

theorem PassesAt.exists_read {α : Type} {f : Field α} {P : α → Prop}
    (hp : e.PassesAt checks f.name) (hc : Reads checks f) (hf : f.read.Of P) {a : Attribute}
    (ha : e.last? [f.name] = some a) : ∃ v, (f.read e a).value = some v := by
  obtain ⟨hmem, hname⟩ := last?_eq_some ha
  refine hf.exists_value fun d hd => hp a hmem hname d ?_
  rw [checkAttribute, hname, hc]
  exact hd

/-- The field of an attribute that is there has a value in its domain. -/
theorem Passes.exists_value? {α : Type} {f : Field α} {P : α → Prop} (hp : e.Passes checks)
    (hc : Reads checks f) (hf : f.read.Of P) (hh : e.has f.name) :
    ∃ v, e.value? f = some v ∧ P v := by
  obtain ⟨a, ha⟩ := exists_last?_iff.mpr hh
  obtain ⟨v, hv⟩ := (hp.at _).exists_read hc hf ha
  exact ⟨v, by simp [value?, ha, hv], hf.domain hv⟩

/-- The field of a required attribute has a value in its domain. -/
theorem Passes.exists_required {α : Type} {f : Field α} {P : α → Prop} {names : List String}
    (hp : e.Passes checks) (hf : f.read.Of P) (hm : ∀ name ∈ names, e.has name)
    (hn : f.name ∈ names) (hc : Reads checks f) : ∃ v, e.value? f = some v ∧ P v :=
  hp.exists_value? hc hf (hm _ hn)

/-- The identifier of the element is a proper one, if there is one. -/
theorem PassesAt.proper (hp : e.PassesAt checks "Id") (hc : Reads checks Field.id)
    {i : Identifier} (h : e.identifier? .id = some i) : i.Proper := by
  obtain ⟨a, ha, rfl⟩ := Option.map_eq_some_iff.mp h
  obtain ⟨v, hv⟩ := hp.exists_read hc Field.of_id ha
  rw [Reader.value_orInvalid, hv]
  exact Field.of_id.domain hv

theorem Passes.proper_getD (hp : e.Passes checks) (hc : Reads checks Field.id) {i : Identifier}
    (hi : i.Proper) : ((e.identifier? .id).getD i).Proper := by
  cases h : e.identifier? .id with
  | none => exact hi
  | some j => exact (hp.at _).proper hc h

/-- An element with the attribute `Id` has an identifier. -/
theorem exists_identifier?_of_has (h : e.has "Id") : ∃ i, e.identifier? .id = some i := by
  obtain ⟨a, ha⟩ := exists_last?_iff.mpr h
  exact ⟨_, Option.map_eq_some_iff.mpr ⟨a, ha, rfl⟩⟩

end Element

/-! ### Clean steps -/

namespace Step

/-- A step that reports no error. -/
def Clean (s : Step) : Prop := ∀ d, s = .report d → d.isError = false

@[simp] theorem clean_report {d : Diagnostic} : (Step.report d).Clean ↔ d.isError = false := by
  simp [Clean]

@[simp] theorem clean_openUnit (u : UnitHeader) : (Step.openUnit u).Clean := by simp [Clean]

@[simp] theorem clean_emit (id : Identifier) (data : Symbol.Data) : (Step.emit id data).Clean := by
  simp [Clean]

@[simp] theorem clean_refer (r : SymbolReference) : (Step.refer r).Clean := by simp [Clean]

@[simp] theorem clean_group (r : GroupReference) : (Step.group r).Clean := by simp [Clean]

@[simp] theorem clean_offer (node : Offer) (context : Context) : (Step.offer node context).Clean := by
  simp [Clean]

end Step

namespace Planned

variable {e : Element}

theorem clean_checkAttributes {checks : List (String × Check)} :
    (report (e.checkAttributes checks)).All Step.Clean ↔ e.Passes checks := by
  simp [Element.Passes]

theorem clean_missingAttributes {names : List String} :
    (report (e.missingAttributes names)).All Step.Clean ↔ ∀ name ∈ names, e.has name := by
  simpa using Element.missingAttributes_iff

end Planned

end Installer
