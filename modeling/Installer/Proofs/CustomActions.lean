import Installer.Proofs.GroupOrder
import Installer.Proofs.Leaves
import Installer.Proofs.Promises
import Installer.Proofs.RegistryTrees

/-! # The code of custom actions

A custom action has one source and one target. `Element.Performs` says how the two are authored, as a script
in the text of the element or by two attributes, and what the symbol makes of them. It holds for every
custom action that a compile without errors finds (`Compiler.customActions_perform`): the attributes of a
sort are counted (`customActionFindings_iff`), so that the first one of them is the only one. -/

namespace Installer

open Compile Planned

open Installer.Symbol (ActionSource ActionTarget)

/-! ### Sources and targets -/

/-- The attributes that say where the code of a custom action is found, in order. -/
def Element.actionSources (e : Element) : List Attribute :=
  e.coreAttributes.filter
    (["BinaryRef", "FileRef", "Property", "Directory", "Script"].contains ·.name)

/-- The attributes that say what is run there, in order. -/
def Element.actionTargets (e : Element) : List Attribute :=
  e.coreAttributes.filter
    (["DllEntry", "ExeCommand", "Value", "JScriptCall", "VBScriptCall"].contains ·.name)

/-- The code of a custom action. -/
def Symbol.CustomAction.code (a : Symbol.CustomAction) : ActionCode :=
  ⟨a.sourceKind, a.source, a.targetKind, a.target⟩

/-- The element of a custom action has one source and one target, and they are those of the code. -/
inductive Element.Performs (e : Element) (code : ActionCode) : Prop
  | script (s : Attribute)
      (sources : e.actionSources = [s])
      (targets : e.actionTargets = [])
      (name : s.name = "Script")
      (sourceKind : code.sourceKind = .inlineScript) (source : code.source = none)
      (targetKind : (s.value, code.targetKind) ∈ [("jscript", .jscript), ("vbscript", .vbscript)])
      (filled : e.text ≠ "") (target : code.target = some e.text)
  | call (s t : Attribute)
      (sources : e.actionSources = [s])
      (targets : e.actionTargets = [t])
      (sourceKind : (s.name, code.sourceKind) ∈ [("BinaryRef", .binary), ("FileRef", .file),
        ("Property", .property), ("Directory", .directory)])
      (targetKind : (t.name, code.targetKind) ∈ [("DllEntry", .dll), ("ExeCommand", .exe),
        ("Value", .value), ("JScriptCall", .jscript), ("VBScriptCall", .vbscript)])
      (legal : Identifier.IsName (Text.trimmed s.value))
      (source : code.source = some (Text.trimmed s.value)) (target : code.target = some t.value)

namespace Compile

section Entries
variable {κ : Type} (table : List (String × κ)) {l : List Attribute}

/-- The first attribute that has an entry in a table, if no second one has. -/
theorem entry_cases (h : l.countP (fun a => (table.lookup a.name).isSome) ≤ 1) :
    (((l.find? fun a => (table.lookup a.name).isSome).bind fun a =>
        (table.lookup a.name).map (·, a)) = none ∧
      l.filter (fun a => (table.lookup a.name).isSome) = []) ∨
    ∃ kind a, ((l.find? fun a => (table.lookup a.name).isSome).bind fun a =>
        (table.lookup a.name).map (·, a)) = some (kind, a) ∧
      l.filter (fun a => (table.lookup a.name).isSome) = [a] ∧ (a.name, kind) ∈ table := by
  rw [List.countP_eq_length_filter] at h
  have hfind := List.head?_filter (p := fun a => (table.lookup a.name).isSome) (l := l)
  rcases hl : l.filter (fun a => (table.lookup a.name).isSome) with _ | ⟨a, _ | ⟨b, rest⟩⟩
  · rw [hl] at hfind
    exact .inl ⟨by rw [← hfind]; rfl, hl⟩
  · rw [hl] at hfind
    have ha : a ∈ l.filter fun a => (table.lookup a.name).isSome := by simp [hl]
    obtain ⟨kind, hkind⟩ := Option.isSome_iff_exists.mp (List.mem_filter.mp ha).2
    obtain ⟨l₁, l₂, htable, -⟩ := List.lookup_eq_some_iff.mp hkind
    exact .inr ⟨kind, a, by simp [← hfind, hkind], hl, by simp [htable]⟩
  · rw [hl] at h
    simp at h

end Entries

variable {e : Element} {s t : Attribute} {sourceKind : ActionSource} {targetKind : ActionTarget}

theorem filter_isSource (e : Element) :
    e.coreAttributes.filter (isSource ·.name) = e.actionSources := by
  refine List.filter_congr fun a _ => ?_
  rw [Bool.eq_iff_iff, isSource, List.lookup_isSome_iff]
  simp [sourceAttributes]

theorem filter_isTarget (e : Element) :
    e.coreAttributes.filter (isTarget ·.name) = e.actionTargets := by
  refine List.filter_congr fun a _ => ?_
  rw [Bool.eq_iff_iff, isTarget, List.lookup_isSome_iff]
  simp [targetAttributes]

theorem sourceOf?_cases (h : e.coreAttributes.countP (isSource ·.name) ≤ 1) :
    (sourceOf? e = none ∧ e.actionSources = []) ∨ ∃ kind s, sourceOf? e = some (kind, s) ∧
      e.actionSources = [s] ∧ (s.name, kind) ∈ sourceAttributes := by
  rw [← filter_isSource]
  exact entry_cases sourceAttributes h

theorem targetOf?_cases (h : e.coreAttributes.countP (isTarget ·.name) ≤ 1) :
    (targetOf? e = none ∧ e.actionTargets = []) ∨ ∃ kind t, targetOf? e = some (kind, t) ∧
      e.actionTargets = [t] ∧ (t.name, kind) ∈ targetAttributes := by
  rw [← filter_isTarget]
  exact entry_cases targetAttributes h

/-! ### Reading them -/

/-- What passes the check of a reader is read. -/
theorem exists_read_of_lookup {α : Type} {read : Reader α} {P : α → Prop}
    {checks : List (String × Check)} {a : Attribute} (hp : e.Passes checks) (hf : read.Of P)
    (hc : checks.lookup a.name = some read.findings) (ha : a ∈ e.coreAttributes) :
    ∃ v, (read e a).value = some v ∧ P v := by
  obtain ⟨v, hv⟩ := hf.exists_value ((hp.at a.name).of_lookup hc ha rfl)
  exact ⟨v, hv, hf.domain hv⟩

/-- The text of a target is read as it is. -/
theorem targetReader_of_passes (hp : e.Passes customActionChecks) (ht : t ∈ e.coreAttributes)
    (hkind : (t.name, targetKind) ∈ targetAttributes) :
    (targetReader targetKind e t).value = some t.value := by
  have hlookup : ∀ p ∈ targetAttributes,
      customActionChecks.lookup p.1 = some (targetReader p.2).findings := by
    simp [targetAttributes, customActionChecks, Field.check, Field.id, Field.reference, scriptField,
      Field.choice, List.lookup_cons]
  obtain ⟨rule, hrule⟩ : ∃ rule, targetReader targetKind = Reader.string rule := by
    cases targetKind <;> exact ⟨_, rfl⟩
  have hcheck := hlookup _ hkind
  rw [hrule] at hcheck
  obtain ⟨v, hv, -⟩ := exists_read_of_lookup hp (Reader.of_string rule) hcheck ht
  rw [hrule, hv, Reader.eq_of_string hv]

/-- A source that is not a script is read as a reference. -/
theorem reference_of_passes (hp : e.Passes customActionChecks) (hs : s ∈ e.coreAttributes)
    (hkind : (s.name, sourceKind) ∈ sourceAttributes) (hne : sourceKind ≠ .inlineScript) :
    (Reader.reference e s).value = some (Text.trimmed s.value) ∧
      Identifier.IsName (Text.trimmed s.value) := by
  have hcheck := lookup_customActionChecks hkind hne
  obtain ⟨v, hv, hname⟩ := exists_read_of_lookup hp Reader.of_reference hcheck hs
  obtain rfl := Reader.trimmed_of_reference hv
  rw [hv]
  exact ⟨rfl, hname⟩

/-- A script is of one of the two languages. -/
theorem script_of_passes (hp : e.Passes customActionChecks) (hs : s ∈ e.coreAttributes)
    (hname : s.name = "Script") :
    (s.value, (scriptField.read e s).value.getD .jscript) ∈
      [("jscript", ActionTarget.jscript), ("vbscript", .vbscript)] := by
  have hcheck : customActionChecks.lookup s.name = some scriptField.read.findings := by
    rw [hname]
    rfl
  have hof : scriptField.read.Of (· ∈ (Choice.choices : List ActionTarget)) := Field.of_choice _ _
  obtain ⟨v, hv, hchoice⟩ := exists_read_of_lookup hp hof hcheck hs
  have hkeyword : Choice.keyword v = s.value := Reader.keyword_of_choice hv
  have hkeywords : ∀ v ∈ (Choice.choices : List ActionTarget),
      (Choice.keyword v, v) ∈ [("jscript", ActionTarget.jscript), ("vbscript", .vbscript)] := by
    decide
  rw [hv, ← hkeyword]
  exact hkeywords v hchoice

section Code
variable (hp : e.Passes customActionChecks) (hcode : ∀ d ∈ (codeOf e).1, d.isError = false)
  (htargets : e.coreAttributes.countP (isTarget ·.name) ≤ 1)
include hp hcode htargets

/-- A script has no target but its text. -/
theorem performs_of_script (hs : sourceOf? e = some (.inlineScript, s))
    (hsources : e.actionSources = [s]) (hname : s.name = "Script") : e.Performs (codeOf e).2 := by
  have hmem : s ∈ e.coreAttributes := (exists_sourceAttribute hs).1
  rcases targetOf?_cases htargets with ⟨ht, hnil⟩ | ⟨targetKind, t, ht, -, -⟩
  · have hfilled : e.text ≠ "" := by
      intro hempty
      have hhas : e.has "Script" := Element.has_iff.mpr ⟨s, hmem, hname⟩
      obtain ⟨a, ha⟩ := Option.isSome_iff_exists.mp hhas
      simp [codeOf, hs, ht, hempty, ha] at hcode
    have hlanguage := script_of_passes hp hmem hname
    simp only [codeOf, hs, ht]
    exact .script s hsources hnil hname rfl rfl hlanguage hfilled rfl
  · -- the two exclude each other
    simp [codeOf, hs, ht] at hcode

/-- Any other source has a target beside it. -/
theorem performs_of_call (hs : sourceOf? e = some (sourceKind, s))
    (hsources : e.actionSources = [s]) (hne : sourceKind ≠ .inlineScript) :
    e.Performs (codeOf e).2 := by
  obtain ⟨hmem, hkind⟩ := exists_sourceAttribute hs
  obtain ⟨hreference, hlegal⟩ := reference_of_passes hp hmem hkind hne
  rcases targetOf?_cases htargets with ⟨ht, -⟩ | ⟨targetKind, t, ht, hsingle, htarget⟩
  · -- some target is expected
    cases sourceKind <;> simp [codeOf, hs, ht] at hcode hne
  · have hmem' : t ∈ e.coreAttributes := by
      have ht' : t ∈ e.actionTargets := by simp [hsingle]
      exact List.mem_of_mem_filter ht'
    have htext := targetReader_of_passes hp hmem' htarget
    have hcodeOf : codeOf e = ([], ⟨sourceKind, (Reader.reference e s).value, targetKind,
        (targetReader targetKind e t).value⟩) := by
      cases sourceKind <;> simp [codeOf, hs, ht] at hne ⊢
    rw [hcodeOf, hreference, htext]
    refine .call s t hsources hsingle ?_ htarget hlegal rfl rfl
    simpa [sourceAttributes, hne] using hkind

end Code

/-- **The code of a custom action without errors.** -/
theorem performs_codeOf
    (hfindings : ∀ d ∈ customActionFindings e none none e.coreAttributes, d.isError = false)
    (hcode : ∀ d ∈ (codeOf e).1, d.isError = false) : e.Performs (codeOf e).2 := by
  have hp := passes_of_customActionFindings hfindings
  have herrors : Diagnostic.hasErrors (customActionFindings e none none e.coreAttributes) = false := by
    simpa [Diagnostic.hasErrors] using hfindings
  obtain ⟨hcount, htargets, -⟩ := (customActionFindings_iff _ _ _ _).mp herrors
  rcases sourceOf?_cases hcount with ⟨hnone, -⟩ | ⟨sourceKind, s, hs, hsources, hkind⟩
  · -- some source is expected
    simp [codeOf, hnone] at hcode
  · by_cases hscript : sourceKind = .inlineScript
    · subst hscript
      have hname : s.name = "Script" := by simpa [sourceAttributes] using hkind
      exact performs_of_script hp hcode htargets hs hsources hname
    · exact performs_of_call hp hcode htargets hs hsources hscript

end Compile

/-! ### Custom actions without errors -/

/-- The symbol of the element of a custom action. -/
def Element.IsCustomAction (e : Element) (data : Symbol.Data) : Prop :=
  ∃ a, data = .customAction a ∧ e.Performs a.code

theorem Compile.isCustomAction_of_entered {config : Config} {unit : Option SectionKind}
    {scope inner : Scope} {site : Site} {body : Body} {l : List Step}
    (h : Entered config unit scope inner site .customAction body l) :
    ∀ d ∈ (body.close inner).filterMap Step.symbol?, site.element.IsCustomAction d.2 := by
  have hsmooth := h.smooth
  simp only [Rule.open, openCustomAction, all_within, Logged.all_bind, all_report] at hsmooth
  obtain ⟨hfindings, -, hcode, -⟩ := hsmooth
  have hperforms := performs_codeOf hfindings hcode
  have hbody : (within scope (openCustomAction site)).value.body = some body := h.body_eq
  simp only [openCustomAction] at hbody
  -- a reference is made or not, which is of no matter for the symbol
  split at hbody
  all_goals
    cases hbody
    intro d hd
    obtain rfl := List.mem_singleton.mp hd
    exact ⟨_, rfl, hperforms⟩

/-- **Custom actions have one source and one target.** In a compile that succeeds without extensions,
elements and custom actions belong together one by one. -/
theorem Compiler.customActions_perform {c : Compiler} {k : UInt32} {root : Element} {o : Output}
    (hc : c.extensions = []) (h : (c.compileAs k root).result = .ok o) (hs : o.isSuccess) :
    List.Forall₂ (fun site s => site.element.IsCustomAction s.data) (root.reachedAs "CustomAction")
      (o.intermediate.symbols.filter (·.kind = .customAction)) :=
  forall₂_leaves (Rule.isLeaf_of_leaf? rfl) isCustomAction_of_entered hc h hs

namespace Sample

/-- Custom actions of all sources. The text of the first one has blanks around it. -/
def sourcedActions : Element :=
  element "Wix" [] [
    element "Module" [("Id", "M"), ("Language", "1033"), ("Version", "1.0")] [
      .node { tag coreNamespace "CustomAction" [("Id", "A"), ("Script", "vbscript")] with
        text := " Quit " } [],
      element "CustomAction" [("Id", "B"), ("BinaryRef", " Tools "), ("DllEntry", "Run")] [],
      element "CustomAction" [("Id", "C"), ("ExeCommand", ""), ("FileRef", "Setup")] [],
      element "CustomAction" [("Id", "D"), ("Property", "ROOT"), ("Value", " ")] [],
      element "CustomAction" [("Id", "E"), ("Directory", "Bin"), ("JScriptCall", "go")] []]]

end Sample

/-- References are trimmed and targets are not. -/
theorem customActions_perform_sourcedActions : ∃ o,
    (Compiler.compileAs {} 0 Sample.sourcedActions).result = .ok o ∧ o.isSuccess ∧
      (o.intermediate.symbols.filterMap fun s => match s.data with
        | .customAction a => some (a.sourceKind, a.source, a.targetKind, a.target)
        | _ => none) = [
          (.inlineScript, none, .vbscript, some "Quit"), (.binary, some "Tools", .dll, some "Run"),
          (.file, some "Setup", .exe, some ""), (.property, some "ROOT", .value, some " "),
          (.directory, some "Bin", .jscript, some "go")] ∧
      List.Forall₂ (fun site s => site.element.IsCustomAction s.data)
        (Sample.sourcedActions.reachedAs "CustomAction")
        (o.intermediate.symbols.filter (·.kind = .customAction)) := by
  have h : (Compiler.compileAs {} 0 Sample.sourcedActions).result = .ok _ := rfl
  exact ⟨_, h, by decide +kernel, by decide +kernel,
    Compiler.customActions_perform rfl h (by decide +kernel)⟩

end Installer
