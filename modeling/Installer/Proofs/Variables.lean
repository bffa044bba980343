import Installer.Proofs.Leaves
import Installer.Proofs.Numerals
import Installer.Proofs.RegistryTrees
import Installer.Proofs.Runs

/-! # Types of variables

The type of a variable is the one that is authored, or else the value tells it: marked versions are
versions, numbers of 64 bits are numbers, and all else are strings. `Variable.Typed` says so of the texts of
the two attributes and of the type, and `Compiler.variables_typed` of all variables that a compile without
errors finds. -/

namespace Installer

open Compile Planned

open Installer.Symbol (VariableType)

/-! ### Values and types -/

namespace Variable

/-- The types that can be authored. -/
def authoredTypes : List (String × VariableType) := [
  ("formatted", .formatted), ("numeric", .numeric), ("string", .string), ("version", .version)]

/-- The type of a variable agrees with the authored type and the value. -/
structure Typed (authored value : Option String) (type : VariableType) : Prop where
  unknown_iff : type = .unknown ↔ value = none
  version_iff : authored = none → (type = .version ↔ ∃ text ∈ value, Version.HasMark text)
  numeric_iff : authored = none → (type = .numeric ↔ ∃ text ∈ value, Text.IsInt64 text)
  string_iff : authored = none →
    (type = .string ↔ ∃ text ∈ value, ¬ Version.HasMark text ∧ ¬ Text.IsInt64 text)
  authored_eq : ∀ keyword ∈ authored, (keyword, type) ∈ authoredTypes
  filled : authored ≠ none → ∃ text ∈ value, text ≠ ""
  numeric : authored = some "numeric" → ∃ text ∈ value, Text.IsInt64 text
  version : authored = some "version" →
    ∃ text ∈ value, Version.IsDotted text.toList ∨ Version.HasMark text

variable {value : Option String} {type authored : VariableType}

/-- Without an authored type it is the value that tells the type. -/
theorem typed_of_inferType_none (h : inferType none value = .ok type) : Typed none value type := by
  cases value with
  | none =>
    cases h
    constructor <;> simp
  | some text =>
    simp only [inferType] at h
    split_ifs at h with hmark hint
    all_goals
      cases h
      rw [Version.isMarked_iff] at hmark
    · constructor <;> simp [hmark, hmark.not_isInt64]
    · rw [Text.isSome_int64?_iff] at hint
      constructor <;> simp [hmark, hint]
    · rw [Text.isSome_int64?_iff] at hint
      constructor <;> simp [hmark, hint]

/-- An authored type is that of a value that is not empty. -/
theorem inferType_some_eq_ok (h : inferType (some authored) value = .ok type) :
    type = authored ∧ ∃ text ∈ value, text ≠ "" := by
  cases value with
  | none => cases h
  | some text =>
    simp only [inferType] at h
    split_ifs at h with hempty
    cases h
    exact ⟨rfl, text, rfl, by simpa using hempty⟩

theorem isInt64_of_mismatch? {text : String} (hne : text ≠ "")
    (h : mismatch? (some .numeric) text = none) : Text.IsInt64 text := by
  simp only [mismatch?, String.isEmpty_iff, hne, if_false] at h
  split_ifs at h with hint
  exact Text.isSome_int64?_iff.mp hint

theorem isVersion_of_mismatch? {text : String} (hne : text ≠ "")
    (h : mismatch? (some .version) text = none) :
    Version.IsDotted text.toList ∨ Version.HasMark text := by
  simp only [mismatch?, String.isEmpty_iff, hne, if_false] at h
  split_ifs at h with hversion
  rwa [Bool.or_eq_true, Version.isVersion_iff, Version.isMarked_iff] at hversion

/-- A value with an authored type is of that type. -/
theorem typed_of_inferType_some (h : inferType (some authored) value = .ok type)
    (hm : ∀ text ∈ value, mismatch? (some authored) text = none)
    (hc : authored ∈ (Choice.choices : List VariableType)) :
    Typed (some (Choice.keyword authored)) value type := by
  obtain ⟨rfl, text, hvalue, hne⟩ := inferType_some_eq_ok h
  have hmismatch := hm text hvalue
  have hknown : type ≠ .unknown := by
    rintro rfl
    exact absurd hc (by decide)
  have hkeywords : ∀ t ∈ (Choice.choices : List VariableType), (Choice.keyword t, t) ∈ authoredTypes ∧
      (Choice.keyword t = "numeric" → t = .numeric) ∧
      (Choice.keyword t = "version" → t = .version) := by
    decide
  obtain ⟨hmem, hnumeric, hversion⟩ := hkeywords type hc
  refine ⟨?_, nofun, nofun, nofun, ?_, fun _ => ⟨text, hvalue, hne⟩, ?_, ?_⟩
  · rw [Option.mem_def.mp hvalue]
    simp [hknown]
  · rintro _ ⟨⟩
    exact hmem
  · intro heq
    obtain rfl := hnumeric (Option.some.inj heq)
    exact ⟨text, hvalue, isInt64_of_mismatch? hne hmismatch⟩
  · intro heq
    obtain rfl := hversion (Option.some.inj heq)
    exact ⟨text, hvalue, isVersion_of_mismatch? hne hmismatch⟩

end Variable

/-! ### Variables without errors -/

/-- Any text is read as it is. -/
theorem Element.value?_anyText (e : Element) (name : String) :
    e.value? (.anyText name) = e.authored? name := by
  unfold value? authored?
  cases h : e.last? [name] with
  | none => simp [Field.anyText, h]
  | some a => simp [Field.anyText, h, Reader.string, EmptyRule.allows]

namespace Compile

variable {e : Element}

/-- Without errors there is a type, and the value is of it. -/
theorem inferType_of_variableFindings (h : ∀ d ∈ variableFindings e, d.isError = false) :
    (∃ type, Variable.inferType (e.value? (.choice VariableType "Type"))
      (e.value? (.anyText "Value")) = .ok type) ∧
      ∀ text ∈ e.value? (.anyText "Value"),
        Variable.mismatch? (e.value? (.choice VariableType "Type")) text = none := by
  obtain ⟨hmissing, hmismatched⟩ := List.forall_mem_append.mp h
  constructor
  · split at hmissing
    · next type htype => exact ⟨type, htype⟩
    · split at hmissing
      · cases hmissing _ (List.mem_singleton_self _)
      · cases hmissing _ (List.mem_singleton_self _)
  · intro text htext
    obtain ⟨a, ha⟩ := Option.isSome_iff_exists.mp (Element.has_of_value? htext)
    have ha : e.attribute? "Value" = some a := ha
    rw [Option.mem_def.mp htext, ha] at hmismatched
    refine Option.eq_none_iff_forall_not_mem.mpr fun reason hreason => ?_
    have herror := hmismatched (e.illegalValueBecause a reason)
      (Option.mem_toList.mpr (Option.mem_map_of_mem _ hreason))
    cases herror

/-- The type of a variable that passes its checks. -/
theorem typed_of_passes {checks : List (String × Check)} (hp : e.Passes checks)
    (htype : Element.Reads checks (.choice VariableType "Type"))
    (h : ∀ d ∈ variableFindings e, d.isError = false) :
    Variable.Typed (e.authored? "Type") (e.value? (.anyText "Value"))
      ((Variable.inferType (e.value? (.choice VariableType "Type"))
        (e.value? (.anyText "Value"))).toOption.getD .unknown) := by
  have htypes : (e.value? (.choice VariableType "Type")).map Choice.keyword = e.authored? "Type" :=
    hp.map_value? htype (Field.of_choice _ _) Reader.keyword_of_choice
  obtain ⟨⟨type, hinfer⟩, hmismatch⟩ := inferType_of_variableFindings h
  rw [hinfer, ← htypes]
  cases hauthored : e.value? (.choice VariableType "Type") with
  | none =>
    rw [hauthored] at hinfer
    exact Variable.typed_of_inferType_none hinfer
  | some authored =>
    rw [hauthored] at hinfer hmismatch
    exact Variable.typed_of_inferType_some hinfer hmismatch
      (Element.domain_of_value? (Field.of_choice _ _) hauthored)

end Compile

/-- The symbol of the element of a variable. -/
def Element.IsVariable (e : Element) (data : Symbol.Data) : Prop :=
  ∃ v, data = .variableValue v ∧ v.value = e.authored? "Value" ∧
    Variable.Typed (e.authored? "Type") v.value v.variableType

/-- A variable without errors is typed. -/
theorem Compile.isVariable_of_entered {config : Config} {unit : Option SectionKind}
    {scope inner : Scope} {site : Site} {body : Body} {l : List Step}
    (h : Entered config unit scope inner site .variableValue body l) :
    ∀ d ∈ (body.close inner).filterMap Step.symbol?, site.element.IsVariable d.2 := by
  have hsmooth := h.smooth
  simp only [Rule.open, openVariable, all_within, Logged.all_bind] at hsmooth
  obtain ⟨hchecks, -, hfindings, -⟩ := hsmooth
  have htyped := typed_of_passes (passes_of_smooth hchecks) rfl ((all_report _).mp hfindings)
  have hbody := h.body_eq
  cases hbody
  intro d hd
  obtain rfl := List.mem_singleton.mp hd
  exact ⟨_, rfl, site.element.value?_anyText "Value", htyped⟩

/-- **Variables are of their types.** In a compile that succeeds without extensions, elements and variables
belong together one by one. -/
theorem Compiler.variables_typed {c : Compiler} {k : UInt32} {root : Element} {o : Output}
    (hc : c.extensions = []) (h : (c.compileAs k root).result = .ok o) (hs : o.isSuccess) :
    List.Forall₂ (fun site s => site.element.IsVariable s.data) (root.reachedAs "Variable")
      (o.intermediate.symbols.filter (·.kind = .variableValue)) :=
  forall₂_leaves (Rule.isLeaf_of_leaf? rfl) isVariable_of_entered hc h hs

namespace Sample

/-- A bundle with variables of all types, authored and inferred. -/
def typedVariables : Element :=
  element "Wix" [] [
    element "Bundle" [("Id", "B"), ("Version", "1.0")] [
      element "Variable" [("Name", "Unset")] [],
      element "Variable" [("Name", "Empty"), ("Value", "")] [],
      element "Variable" [("Name", "Marked"), ("Value", "V1.02.4294967295")] [],
      element "Variable" [("Name", "Plain"), ("Value", "1.2")] [],
      element "Variable" [("Name", "Least"), ("Value", "-9223372036854775808")] [],
      element "Variable" [("Name", "Huge"), ("Value", "+9223372036854775808")] [],
      element "Variable" [("Name", "Count"), ("Type", "numeric"), ("Value", "+007")] [],
      element "Variable" [("Name", "Release"), ("Type", "version"), ("Value", "1.2.3.4")] [],
      element "Variable" [("Name", "Path"), ("Type", "formatted"), ("Value", "[Count]")] []]]

end Sample

/-- Numbers of more than 64 bits are strings, and so are versions without a mark. -/
theorem variables_typed_typedVariables : ∃ o,
    (Compiler.compileAs {} 0 Sample.typedVariables).result = .ok o ∧ o.isSuccess ∧
      (o.intermediate.symbols.filterMap fun s => match s.data with
        | .variableValue v => some (s.id.id, v.variableType)
        | _ => none) = [
          ("Unset", .unknown), ("Empty", .string), ("Marked", .version), ("Plain", .string),
          ("Least", .numeric), ("Huge", .string), ("Count", .numeric), ("Release", .version),
          ("Path", .formatted)] ∧
      List.Forall₂ (fun site s => site.element.IsVariable s.data)
        (Sample.typedVariables.reachedAs "Variable")
        (o.intermediate.symbols.filter (·.kind = .variableValue)) := by
  have h : (Compiler.compileAs {} 0 Sample.typedVariables).result = .ok _ := rfl
  exact ⟨_, h, by decide +kernel, by decide +kernel,
    Compiler.variables_typed rfl h (by decide +kernel)⟩

end Installer
