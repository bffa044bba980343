import Installer.Proofs.Delegation
import Installer.Proofs.Deprecation
import Installer.Proofs.Nesting

/-! # Elements that are dispatched

Which elements of a document are read by a rule, and by which, follows from their names and those around
and before them (`Element.dispatched`). A compile warns about the deprecated attributes of the packages
among them, once for each attribute and in their order, and about nothing else
(`Compiler.deprecations_eq`). -/

namespace Installer

open Compile Planned

open Installer.Symbol (PackageKind)

/-! ### Elements by their rules -/

namespace Element

mutual

/-- The elements that are read by a rule, from such an element on, with their rules. -/
def dispatchedFrom (rule : Rule) : Element → List (Rule × Element)
  | node tag children => (rule, node tag children) :: dispatchedOfList rule.content [] children

/-- The elements that are read by a rule, among some children of an element and below them. The names of
the core children before them are `seen`. -/
def dispatchedOfList (content : Content) (seen : List String) : List Element → List (Rule × Element)
  | [] => []
  | child :: rest =>
    if child.isCore then
      (match content.enters? seen child.name with
        | some rule => child.dispatchedFrom rule
        | none => []) ++ dispatchedOfList content (child.name :: seen) rest
    else dispatchedOfList content seen rest

end

/-- The elements below a document element that are read by a rule, with their rules. -/
def dispatched (root : Element) : List (Rule × Element) :=
  dispatchedOfList .document [] (topElements root)

theorem dispatchedFrom_eq (rule : Rule) (e : Element) :
    e.dispatchedFrom rule = (rule, e) :: dispatchedOfList rule.content [] e.children := by
  obtain ⟨tag, children⟩ := e
  rw [dispatchedFrom, Element.children]

section
variable {child : Element} {content : Content} {seen : List String}

theorem dispatchedOfList_of_foreign (h : child.isCore = false) (rest : List Element) :
    dispatchedOfList content seen (child :: rest) = dispatchedOfList content seen rest := by
  rw [dispatchedOfList, h]
  rfl

theorem dispatchedOfList_of_entered (h : child.isCore) {rule : Rule}
    (hr : content.enters? seen child.name = some rule) (rest : List Element) :
    dispatchedOfList content seen (child :: rest) =
      child.dispatchedFrom rule ++ dispatchedOfList content (child.name :: seen) rest := by
  rw [dispatchedOfList, if_pos h, hr]

theorem dispatchedOfList_of_passed (h : child.isCore)
    (hr : content.enters? seen child.name = none) (rest : List Element) :
    dispatchedOfList content seen (child :: rest) =
      dispatchedOfList content (child.name :: seen) rest := by
  rw [dispatchedOfList, if_pos h, hr, List.nil_append]

end

theorem dispatchedOfList_nothing (seen : List String) (children : List Element) :
    dispatchedOfList .nothing seen children = [] := by
  induction children generalizing seen with
  | nil => rw [dispatchedOfList]
  | cons child rest ih =>
    by_cases hcore : child.isCore
    · rw [dispatchedOfList_of_passed hcore rfl, ih]
    · rw [dispatchedOfList_of_foreign (by simpa using hcore), ih]

/-- The warnings about the deprecated attributes of a package. -/
def deprecations (e : Element) : List Diagnostic :=
  e.coreAttributes.flatMap fun a => ((replacement? a.name).map (e.deprecatedAttribute a)).toList

end Element

/-- The warnings about the deprecated attributes of an element that is read by a rule. -/
def Rule.warnings (config : Config) (rule : Rule) (e : Element) : List Diagnostic :=
  match rule with
  | .chainPackage kind => if config.deprecationWarnings && kind.hasArguments then e.deprecations else []
  | _ => []

/-! ### Warnings of plans -/

/-- The warning about a deprecated attribute that a step reports. -/
def Step.deprecation? : Step → Option Diagnostic
  | .report d => if d.isDeprecation then some d else none
  | _ => none

namespace Step

theorem filterMap_deprecation?_reports (ds : List Diagnostic) :
    (ds.map Step.report).filterMap deprecation? = ds.filter (·.isDeprecation) := by
  rw [List.filterMap_map, ← List.filterMap_eq_filter]
  refine List.filterMap_congr fun d _ => ?_
  cases hd : d.isDeprecation <;> simp [deprecation?, hd, Option.guard]

theorem filterMap_deprecation?_of_ruled {l : List Step} (h : ∀ s ∈ l, s.Ruled false) :
    l.filterMap deprecation? = [] := by
  refine List.filterMap_eq_nil_iff.mpr fun s hs => ?_
  have hs := (h s hs).isDeprecation
  cases s with
  | report d => exact if_neg (by simpa [isDeprecation] using hs)
  | _ => rfl

end Step

namespace Compile

theorem filter_isDeprecation_checkAttributes (config : Config) (kind : PackageKind) (e : Element) :
    (e.checkAttributes (commonChecks ++ kindChecks config kind)).filter (·.isDeprecation) =
      Rule.warnings config (.chainPackage kind) e := by
  have hruled : ∀ {ds : List Diagnostic}, Ruled false ds → ds.filter (·.isDeprecation) = [] :=
    fun hds => List.filter_eq_nil_iff.mpr fun d hd => by simp [(hds d hd).isDeprecation]
  cases h : kind.hasArguments with
  | false =>
    have hsame : kindChecks config kind = kindChecks config.lenient kind := by
      cases kind <;> first | rfl | cases h
    rw [hsame, hruled (ruled_checkAttributes e (allRuled_packageChecks config.lenient kind))]
    simp [Rule.warnings, h]
  | true =>
    have hattribute : ∀ a : Attribute,
        (e.checkAttribute (commonChecks ++ kindChecks config kind) a).filter (·.isDeprecation) =
          if config.deprecationWarnings then
            ((replacement? a.name).map (e.deprecatedAttribute a)).toList else [] := by
      intro a
      rw [checkAttribute_package h]
      cases hr : replacement? a.name with
      | none => simp [hruled (ruled_checkAttribute e (allRuled_plainChecks h) a)]
      | some name => cases config.deprecationWarnings <;> rfl
    rw [Element.checkAttributes, List.filter_flatMap]
    simp only [hattribute]
    cases hw : config.deprecationWarnings <;> simp [Rule.warnings, Element.deprecations, h, hw]

section Openings
variable {rule : Rule} {env : Env} {scope : Scope} {site : Site}

/-- An opening that does not give up finds what its rule needs. -/
theorem has_need_of_open (h : ∀ s ∈ (rule.open env scope site).log, s.halt? = none) :
    scope.Has rule.need := by
  have hhalt : ∀ reason, ¬ ∀ s ∈ (halt scope reason).log, s.halt? = none :=
    fun reason h => absurd (h (.halt reason) (by simp [halt])) (by simp [Step.halt?])
  cases rule with
  | packageGroupRef | payloadGroupRef | rollbackBoundary | payload | chainPackage kind =>
    cases hc : scope.cursor with
    | none =>
      simp only [Rule.open, openPackageGroupRef, openPayloadGroupRef, openRollbackBoundary,
        openPayload, openChainPackage, hc] at h
      exact absurd h (hhalt _)
    | some cursor => simp [Rule.need, Scope.Has, hc]
  | msiProperty | slipstreamMsp | exitCode | arpEntry =>
    cases hp : scope.parent with
    | package id entry => simp [Rule.need, Scope.Has, hp, Parent.isPackage]
    | _ =>
      simp only [Rule.open, openMsiProperty, openSlipstreamMsp, openExitCode, openArpEntry, hp] at h
      exact absurd h (hhalt _)
  | registryKey | registryValue =>
    cases hp : Parent.registryPlace? scope.parent with
    | none =>
      simp only [Rule.open, openRegistryKey, openRegistryValue, hp] at h
      exact absurd h (hhalt _)
    | some place => simp [Rule.need, Scope.Has, hp]
  | _ => trivial

/-- The warnings of an opening that finds what it needs. -/
theorem collect_deprecation?_open (h : scope.Has rule.need) :
    (rule.open env scope site).collect Step.deprecation? = rule.warnings env.config site.element := by
  have hruled := (ruledOpening_open rule env.lenient scope site).log
  cases rule with
  | chainPackage kind =>
    obtain ⟨cursor, hc⟩ := Option.isSome_iff_exists.mp h
    simp only [Rule.open, openChainPackage, hc] at hruled ⊢
    rw [Logged.all_bind] at hruled
    have hrest := Step.filterMap_deprecation?_of_ruled hruled.2
    rw [Logged.collect_bind, ← filter_isDeprecation_checkAttributes,
      ← Step.filterMap_deprecation?_reports]
    exact (congrArg (_ ++ ·) hrest).trans (List.append_nil _)
  | _ => exact Step.filterMap_deprecation?_of_ruled hruled

theorem filterMap_deprecation?_close {body : Body}
    (h : (rule.open env scope site).value.body = some body) (inner : Scope) :
    (body.close inner).filterMap Step.deprecation? = [] := by
  have hvalue : (rule.open env.lenient scope site).value = (rule.open env scope site).value := by
    rw [open_lenient]
    rfl
  exact Step.filterMap_deprecation?_of_ruled
    ((ruledOpening_open rule env.lenient scope site).close body (hvalue ▸ h) inner)

end Openings

/-- The warnings about an element and what is below it are those of the elements that are read. -/
def Warned (config : Config) (e : Element) : Prop :=
  ∀ unit depth rule scope position ancestors,
    (∀ s ∈ (planElement config unit depth rule scope position ancestors e).log, s.halt? = none) →
      (planElement config unit depth rule scope position ancestors e).collect Step.deprecation? =
        (e.dispatchedFrom rule).flatMap fun p => p.1.warnings config p.2

theorem collect_deprecation?_planChildren (config : Config) (unit : Option SectionKind)
    (depth : Nat) (content : Content) (site : Site) {children : List Element}
    (h : ∀ child ∈ children, Warned config child) :
    ∀ (scope : Scope) (position : Nat) (seen : List String),
      (∀ s ∈ (planChildren config unit depth content site scope position seen children).log,
        s.halt? = none) →
      (planChildren config unit depth content site scope position seen children).collect
          Step.deprecation? =
        (Element.dispatchedOfList content seen children).flatMap fun p => p.1.warnings config p.2 := by
  induction children with
  | nil =>
    intro scope position seen _
    rw [planChildren, Element.dispatchedOfList]
    rfl
  | cons child rest ih =>
    intro scope position seen hhalt
    obtain ⟨hchild, hrest⟩ := List.forall_mem_cons.mp h
    have ih := ih hrest
    cases hcore : child.isCore with
    | false =>
      rw [planChildren_of_foreign hcore] at hhalt ⊢
      rw [Logged.log_bind, List.forall_mem_append] at hhalt
      rw [Element.dispatchedOfList_of_foreign hcore, Logged.collect_bind, ih _ _ _ hhalt.2]
      rfl
    | true =>
      cases hr : content.enters? seen child.name with
      | none =>
        have hfindings : Ruled false (admissionOf content seen site.element child).findings := by
          cases ha : admissionOf content seen site.element child with
          | refuse d => simpa [Admission.findings] using ruled_of_refuse ha
          | _ => exact ruled_nil
        rw [planChildren_of_passed hcore hr] at hhalt ⊢
        rw [Logged.log_bind, List.forall_mem_append] at hhalt
        rw [Element.dispatchedOfList_of_passed hcore hr, Logged.collect_bind, ih _ _ _ hhalt.2]
        exact congrArg (· ++ _) (Step.filterMap_deprecation?_of_ruled
          (List.forall_mem_map.mpr fun d hd => Step.ruled_report.mpr (hfindings d hd)))
      | some rule =>
        rw [planChildren_of_entered hcore hr] at hhalt ⊢
        split_ifs at hhalt ⊢
        · exact absurd (hhalt (.halt .tooDeep) (by simp)) (by simp [Step.halt?])
        · rw [Logged.log_bind, List.forall_mem_append] at hhalt
          rw [Element.dispatchedOfList_of_entered hcore hr, Logged.collect_bind,
            hchild _ _ _ _ _ _ hhalt.1, ih _ _ _ hhalt.2, List.flatMap_append]

theorem warned (config : Config) (e : Element) : Warned config e := by
  induction e using Element.induct with
  | node tag children ih =>
    intro unit depth rule scope position ancestors hhalt
    rw [Element.dispatchedFrom_eq, List.flatMap_cons]
    cases hb : (rule.open ⟨config, unit⟩ scope
        ⟨.node tag children, position, ancestors⟩).value.body with
    | none =>
      rw [planElement_of_none hb] at hhalt ⊢
      have hneed := has_need_of_open hhalt
      rw [content_of_body_eq_none hneed hb, Element.dispatchedOfList_nothing, List.flatMap_nil,
        List.append_nil]
      exact collect_deprecation?_open hneed
    | some body =>
      rw [planElement_of_some hb] at hhalt ⊢
      dsimp only at hhalt
      rw [List.forall_mem_append, List.forall_mem_append] at hhalt
      obtain ⟨hopen, hinner, -⟩ := hhalt
      have hchildren := collect_deprecation?_planChildren config (body.unit.or unit) depth
        body.content _ ih body.scope 0 [] hinner
      have hopening : ((rule.open ⟨config, unit⟩ scope ⟨.node tag children, position,
          ancestors⟩).log).filterMap Step.deprecation? = rule.warnings config (.node tag children) :=
        collect_deprecation?_open (has_need_of_open hopen)
      have hcontent : body.content = rule.content := ((leads_open _ _ _ _).body body hb).1
      rw [← hcontent]
      simp only [Logged.collect, List.filterMap_append, filterMap_deprecation?_close hb, hopening,
        List.append_nil]
      exact congrArg (_ ++ ·) hchildren

/-- The warnings of a plan that does not give up are those of the elements that are read. -/
theorem filterMap_deprecation?_plan {config : Config} {root : Element}
    (h : ∀ s ∈ plan config root, s.halt? = none) : (plan config root).filterMap Step.deprecation? =
      root.dispatched.flatMap fun p => p.1.warnings config p.2 := by
  unfold plan Element.dispatched topElements at *
  split_ifs at h ⊢
  · rfl
  · simp only [Logged.log_bind, List.forall_mem_append] at h
    obtain ⟨-, -, hchildren⟩ := h
    have hattributes := Step.filterMap_deprecation?_of_ruled (List.forall_mem_map.mpr fun d hd =>
      Step.ruled_report.mpr (ruled_checkAttributes root Check.allRuled_nil d hd))
    have hoffer : (offerAttributes (Site.root root) []).log.filterMap Step.deprecation? = [] :=
      Step.filterMap_deprecation?_of_ruled (by simp [offerAttributes])
    have hplan := collect_deprecation?_planChildren config none 0 .document (Site.root root)
      (fun child (_ : child ∈ root.children) => warned config child) {} 0 [] hchildren
    simp only [Logged.log_bind, List.filterMap_append, hoffer, List.nil_append]
    exact congrArg₂ (· ++ ·) hattributes hplan

end Compile

/-! ### Warnings of compiles -/

/-- Without extensions an offer is no warning about a deprecated attribute. -/
theorem Step.filter_isDeprecation_bare (l : List Step) :
    ((l.map Step.bare).filterMap Step.report?).filter (·.isDeprecation) =
      l.filterMap Step.deprecation? := by
  rw [List.filterMap_map, List.filter_filterMap]
  refine List.filterMap_congr fun s _ => ?_
  cases s with
  | report d => cases hd : d.isDeprecation <;> simp [Step.bare, report?, deprecation?, hd, Option.filter]
  | offer node context => cases node <;> rfl
  | _ => rfl

namespace Run

variable {r : Run} {l : List Step}

/-- A run that does not give up runs no step that does. -/
theorem halt?_of_steps {extensions : List Extension} (h : (r.steps extensions l).halted = none) :
    ∀ s ∈ l, s.halt? = none := by
  induction l generalizing r with
  | nil => simp
  | cons s l ih =>
    rw [steps_cons] at h
    split_ifs at h with hs
    · simp [h] at hs
    · refine List.forall_mem_cons.mpr ⟨?_, ih h⟩
      cases s with
      | halt reason => simp [step] at hs
      | _ => rfl

/-- Without extensions the diagnostics of a run are what its steps report. -/
theorem diagnostics_steps (h : (r.steps [] l).halted = none) : (r.steps [] l).diagnostics =
    r.diagnostics ++ (l.map Step.bare).filterMap Step.report? := by
  induction l generalizing r with
  | nil => simp [steps]
  | cons s l ih =>
    have hstep : (r.step [] s).diagnostics = r.diagnostics ++ s.bare.report?.toList := by
      rw [← step_bare]
      cases s with
      | offer node context => rfl
      | _ => simp [Step.bare, step, report, openUnit, closeUnit, Step.report?]
    rw [steps_cons] at h ⊢
    split_ifs at h ⊢ with hs
    · simp [h] at hs
    · rw [ih h, hstep, List.map_cons, List.filterMap_cons]
      cases s.bare.report? <;> simp

end Run

/-- **The warnings of a compile.** Without extensions a compile that does not give up warns about the
deprecated attributes of the packages that are read, once for each, and about no others. -/
theorem Compiler.deprecations_eq {c : Compiler} (hc : c.extensions = []) {k : UInt32} {root : Element}
    {o : Output} (ho : (c.compileAs k root).result = .ok o) :
    o.diagnostics.filter (·.isDeprecation) =
      root.dispatched.flatMap fun p => p.1.warnings c.config p.2 := by
  unfold compileAs at ho
  rw [hc] at ho
  obtain ⟨hhalted, rfl⟩ := Run.result_eq_ok_iff.mp ho
  rw [Output.diagnostics_settle, Run.diagnostics_steps hhalted, List.nil_append,
    Step.filter_isDeprecation_bare, filterMap_deprecation?_plan (Run.halt?_of_steps hhalted)]

/-- Without extensions a compile without the setting gives the output with it, less the warnings. -/
theorem Compiler.result_lenient {c : Compiler} (hc : c.extensions = []) (k : UInt32) (root : Element) :
    (c.lenient.compileAs k root).result = (c.compileAs k root).result.map Output.lenient := by
  rw [(c.compileAs_lenient k root).1]
  cases hr : (c.lenient.compileAs k root).result with
  | error reason => rfl
  | ok o =>
    have hnone : o.diagnostics.filter (·.isDeprecation) = [] := by
      have hwarnings : ∀ p : Rule × Element, p.1.warnings c.lenient.config p.2 = [] := by
        rintro ⟨rule, e⟩
        cases rule <;> rfl
      rw [deprecations_eq (c := c.lenient) hc hr]
      simp [hwarnings]
    have hlenient : Diagnostic.lenient o.diagnostics = o.diagnostics :=
      List.filter_eq_self.mpr fun d hd => by
        simpa using List.filter_eq_nil_iff.mp hnone d hd
    exact congrArg Except.ok (by rw [Output.lenient, hlenient])

end Installer
