import Installer.Proofs.Findings
import Installer.Proofs.Reordering
import Installer.Proofs.Surroundings

/-! # Warnings about deprecated attributes

The warnings about deprecated attributes are a setting of the compiler. A plan that was made without them
is the plan with them, less the steps that report them (`Compile.plan_lenient`), and such a step changes
nothing but the diagnostics of a run. So the setting decides about these warnings and nothing else: hooks
are called in the same way, and the outputs are the same but for them (`Compiler.compileAs_lenient`). -/

namespace Installer

open Compile Planned

open Installer.Symbol (PackageKind)

/-! ### Steps -/

/-- The settings without warnings about deprecated attributes. -/
def Config.lenient (config : Config) : Config := { config with deprecationWarnings := false }

/-- The surroundings with such settings. -/
def Env.lenient (env : Env) : Env := { env with config := env.config.lenient }

/-- The diagnostics without warnings about deprecated attributes. -/
def Diagnostic.lenient (ds : List Diagnostic) : List Diagnostic := ds.filter (!·.isDeprecation)

theorem Diagnostic.lenient_of_ruled {ds : List Diagnostic} (h : Compile.Ruled false ds) :
    lenient ds = ds :=
  List.filter_eq_self.mpr fun d hd => by rw [(h d hd).isDeprecation]; rfl

namespace Step

/-- A step that reports a deprecated attribute. -/
def isDeprecation : Step → Bool
  | .report d => d.isDeprecation
  | _ => false

/-- The steps without warnings about deprecated attributes. -/
def lenient (l : List Step) : List Step := l.filter (!·.isDeprecation)

@[simp] theorem lenient_append (l l' : List Step) : lenient (l ++ l') = lenient l ++ lenient l' :=
  List.filter_append ..

theorem lenient_reports (ds : List Diagnostic) :
    lenient (ds.map .report) = (Diagnostic.lenient ds).map .report := by
  rw [lenient, Diagnostic.lenient, List.filter_map]
  rfl

theorem Ruled.isDeprecation {s : Step} (h : s.Ruled false) : s.isDeprecation = false := by
  cases s with
  | report d => exact (h d rfl).isDeprecation
  | _ => rfl

theorem lenient_of_ruled {l : List Step} (h : ∀ s ∈ l, s.Ruled false) : lenient l = l :=
  List.filter_eq_self.mpr fun s hs => by rw [(h s hs).isDeprecation]; rfl

end Step

/-- A planned value without warnings about deprecated attributes. -/
def Logged.lenient {α : Type} (x : Logged Step α) : Logged Step α := ⟨Step.lenient x.log, x.value⟩

namespace Logged

variable {α β : Type}

@[simp] theorem lenient_pure (a : α) : (pure a : Logged Step α).lenient = pure a := rfl

@[simp] theorem lenient_bind (x : Logged Step α) (f : α → Logged Step β) :
    (x >>= f).lenient = x.lenient >>= fun a => (f a).lenient := by
  simp only [lenient, bind, Step.lenient_append]

@[simp] theorem lenient_tell (l : List Step) : (tell l).lenient = tell (Step.lenient l) := rfl

theorem lenient_of_ruled {x : Logged Step α} (h : x.All (Step.Ruled false)) : x.lenient = x := by
  rw [lenient, Step.lenient_of_ruled h]

end Logged

@[simp] theorem Planned.lenient_report (ds : List Diagnostic) :
    (report ds).lenient = report (Diagnostic.lenient ds) := by
  rw [report, Logged.lenient_tell, Step.lenient_reports, report]

/-! ### Deprecated names -/

/-- The deprecated names of attributes, with the names that replace them. -/
def deprecatedNames : List (String × String) := [
  ("InstallCommand", "InstallArguments"),
  ("RepairCommand", "RepairArguments"),
  ("UninstallCommand", "UninstallArguments")]

/-- The name that replaces a deprecated one. -/
def replacement? (name : String) : Option String := deprecatedNames.lookup name

namespace Compile

/-- The checks of the attributes of packages, but for the deprecated ones. -/
def plainChecks (kind : PackageKind) : List (String × Check) :=
  (commonChecks ++ kindChecks {} kind).filter (replacement? ·.1 |>.isNone)

theorem packageChecks_eq {kind : PackageKind} (h : kind.hasArguments) (config : Config) :
    commonChecks ++ kindChecks config kind =
      plainChecks kind ++ deprecatedNames.map fun p => deprecatedCheck config p.1 p.2 := by
  cases kind <;> first | rfl | cases h

theorem lookup_plainChecks {kind : PackageKind} {name replacement : String}
    (h : replacement? name = some replacement) : (plainChecks kind).lookup name = none := by
  refine List.lookup_eq_none_iff.mpr fun check hcheck => ?_
  have hplain := (List.mem_filter.mp hcheck).2
  have hne : name ≠ check.1 := by
    rintro rfl
    simp [h] at hplain
  simpa using hne

theorem lookup_deprecatedChecks (config : Config) (name : String) :
    (deprecatedNames.map fun p => deprecatedCheck config p.1 p.2).lookup name =
      (replacement? name).map fun replacement => (deprecatedCheck config name replacement).2 := by
  unfold replacement?
  induction deprecatedNames with
  | nil => rfl
  | cons p l ih =>
    have hname : (deprecatedCheck config p.1 p.2).1 = p.1 := rfl
    rw [List.map_cons, List.lookup_cons, List.lookup_cons, ih, hname]
    cases name == p.1 <;> rfl

/-- Of the attributes of a package with command lines the deprecated ones are legal. -/
theorem checkAttribute_package {kind : PackageKind} (h : kind.hasArguments) (config : Config)
    (e : Element) (a : Attribute) : e.checkAttribute (commonChecks ++ kindChecks config kind) a =
      match replacement? a.name with
      | some name => if config.deprecationWarnings then [e.deprecatedAttribute a name] else []
      | none => e.checkAttribute (plainChecks kind) a := by
  unfold Element.checkAttribute
  rw [packageChecks_eq h, List.lookup_append, lookup_deprecatedChecks]
  cases hr : replacement? a.name with
  | none => simp
  | some name => simp [lookup_plainChecks hr, deprecatedCheck]

theorem allRuled_plainChecks {kind : PackageKind} (h : kind.hasArguments) :
    Check.AllRuled false (plainChecks kind) := by
  have hall := allRuled_packageChecks (Config.lenient {}) kind
  rw [packageChecks_eq h, Check.allRuled_append] at hall
  exact hall.1

/-- Without the setting the checks of packages find what they find with it, less the warnings. -/
theorem checkAttributes_lenient (config : Config) (kind : PackageKind) (e : Element) :
    e.checkAttributes (commonChecks ++ kindChecks config.lenient kind) =
      Diagnostic.lenient (e.checkAttributes (commonChecks ++ kindChecks config kind)) := by
  cases h : kind.hasArguments with
  | false =>
    have hsame : kindChecks config kind = kindChecks config.lenient kind := by
      cases kind <;> first | rfl | cases h
    rw [hsame, Diagnostic.lenient_of_ruled
      (ruled_checkAttributes e (allRuled_packageChecks config.lenient kind))]
  | true =>
    unfold Element.checkAttributes
    rw [Diagnostic.lenient, List.filter_flatMap]
    congr 1
    funext a
    rw [checkAttribute_package h, checkAttribute_package h]
    cases hr : replacement? a.name with
    | none =>
      exact (Diagnostic.lenient_of_ruled (ruled_checkAttribute e (allRuled_plainChecks h) a)).symm
    | some name => cases hw : config.deprecationWarnings <;> rfl

/-! ### Openings -/

theorem open_lenient (rule : Rule) (env : Env) (scope : Scope) (site : Site) :
    rule.open env.lenient scope site = (rule.open env scope site).lenient := by
  have hruled := (ruledOpening_open rule env.lenient scope site).log
  cases rule with
  | chainPackage kind =>
    simp only [Rule.open, openChainPackage] at hruled ⊢
    split at hruled
    · rfl
    · rw [Logged.all_bind] at hruled
      rw [Logged.lenient_bind, lenient_report, ← checkAttributes_lenient]
      exact congrArg (report _ >>= ·) (funext fun _ => (Logged.lenient_of_ruled hruled.2).symm)
  | _ => exact (Logged.lenient_of_ruled hruled).symm

/-! ### Plans -/

/-- The steps for an element without the setting are those with it, less the warnings. -/
def Forgiven (config : Config) (e : Element) : Prop :=
  ∀ unit depth rule scope position ancestors,
    planElement config.lenient unit depth rule scope position ancestors e =
      (planElement config unit depth rule scope position ancestors e).lenient

theorem planChildren_lenient (config : Config) (unit : Option SectionKind) (depth : Nat)
    (content : Content) (site : Site) {children : List Element}
    (h : ∀ child ∈ children, Forgiven config child) :
    ∀ (scope : Scope) (position : Nat) (seen : List String),
      planChildren config.lenient unit depth content site scope position seen children =
        (planChildren config unit depth content site scope position seen children).lenient := by
  induction children with
  | nil =>
    intro scope position seen
    rw [planChildren, planChildren]
    rfl
  | cons child rest ih =>
    intro scope position seen
    obtain ⟨hchild, hrest⟩ := List.forall_mem_cons.mp h
    have ih := ih hrest
    rw [planChildren, planChildren]
    by_cases hcore : child.isCore
    · simp only [hcore, Bool.not_true, Bool.false_eq_true, ↓reduceIte]
      cases ha : admissionOf content seen site.element child with
      | skip => exact ih _ _ _
      | refuse d =>
        have hd : Diagnostic.lenient [d] = [d] :=
          Diagnostic.lenient_of_ruled (by simpa using ruled_of_refuse ha)
        simp only [Logged.lenient_bind, lenient_report, hd, ih]
      | accept rule =>
        have hlimit : config.lenient.recursionLimit = config.recursionLimit := rfl
        dsimp only
        rw [hlimit, hchild unit]
        split_ifs
        · rfl
        · simp only [Logged.lenient_bind, ih]
    · simp only [hcore, Bool.not_false, ↓reduceIte, Logged.lenient_bind, Logged.lenient_tell, ih]
      rfl

theorem forgiven (config : Config) (e : Element) : Forgiven config e := by
  induction e using Element.induct with
  | node tag children ih =>
    intro unit depth rule scope position ancestors
    have hopen := open_lenient rule ⟨config, unit⟩ scope ⟨.node tag children, position, ancestors⟩
    have hlog := congrArg Logged.log hopen
    have hvalue := congrArg Logged.value hopen
    simp only [Env.lenient, Logged.lenient] at hlog hvalue
    cases hb : (rule.open ⟨config, unit⟩ scope
        ⟨.node tag children, position, ancestors⟩).value.body with
    | none =>
      rw [planElement_of_none hb, planElement_of_none (hvalue ▸ hb)]
      simp only [Logged.lenient, hlog, hvalue]
    | some body =>
      have hclose := fun inner => Step.lenient_of_ruled
        ((ruledOpening_open rule ⟨config.lenient, unit⟩ scope _).close body (hvalue ▸ hb) inner)
      have hinner := planChildren_lenient config (body.unit.or unit) depth body.content
        ⟨.node tag children, position, ancestors⟩ ih body.scope 0 []
      rw [planElement_of_some hb, planElement_of_some (hvalue ▸ hb)]
      simp only [Element.children, hinner, Logged.lenient, Step.lenient_append, hlog, hvalue, hclose]

/-- **The plan without the setting is the plan with it, less the warnings.** -/
theorem plan_lenient (config : Config) (root : Element) :
    plan config.lenient root = Step.lenient (plan config root) := by
  unfold plan
  split_ifs
  · rfl
  · have hattributes := Diagnostic.lenient_of_ruled (ruled_checkAttributes root Check.allRuled_nil)
    have hoffer : (offerAttributes (Site.root root) []).lenient = offerAttributes (Site.root root) [] :=
      Logged.lenient_of_ruled (by simp)
    have hchildren := planChildren_lenient config none 0 .document (Site.root root)
      (fun child (_ : child ∈ root.children) => forgiven config child) {} 0 []
    refine congrArg Logged.log (?_ : _ = Logged.lenient _)
    simp only [Logged.lenient_bind, lenient_report, hattributes, hoffer, hchildren]

end Compile

/-! ### Runs -/

theorem Diagnostic.hasErrors_lenient (ds : List Diagnostic) :
    hasErrors (lenient ds) = hasErrors ds := by
  rw [hasErrors, hasErrors, lenient, List.any_filter]
  refine congrArg ds.any (funext fun d => ?_)
  cases hd : d.isDeprecation <;> simp [isError_of_isDeprecation, hd]

namespace Run

/-- The two states are the same, but for warnings about deprecated attributes. -/
structure Concurs (r r' : Run) : Prop where
  compilation : r.compilation = r'.compilation
  intermediate : r.intermediate = r'.intermediate
  units : r.units = r'.units
  deliveries : r.deliveries = r'.deliveries
  halted : r.halted = r'.halted
  diagnostics : Diagnostic.lenient r.diagnostics = Diagnostic.lenient r'.diagnostics

namespace Concurs

variable {r r' : Run}

theorem hasErrors (h : r.Concurs r') : r.hasErrors = r'.hasErrors := by
  rw [Run.hasErrors, Run.hasErrors, ← Diagnostic.hasErrors_lenient, h.diagnostics,
    Diagnostic.hasErrors_lenient]

theorem active (h : r.Concurs r') : r.active = r'.active := congrArg List.head? h.units

theorem observation (h : r.Concurs r') : r.observation = r'.observation := by
  rw [Run.observation, Run.observation, h.hasErrors, h.active]

theorem report (h : r.Concurs r') (d : Diagnostic) : (r.report d).Concurs (r'.report d) where
  compilation := h.compilation
  intermediate := h.intermediate
  units := h.units
  deliveries := h.deliveries
  halted := h.halted
  diagnostics := by
    have hd := h.diagnostics
    unfold Diagnostic.lenient at hd ⊢
    simp only [Run.report, List.filter_append, hd]

/-- A warning about a deprecated attribute may be in the first state alone. -/
theorem report_left (h : r.Concurs r') {d : Diagnostic} (hd : d.isDeprecation) :
    (r.report d).Concurs r' where
  compilation := h.compilation
  intermediate := h.intermediate
  units := h.units
  deliveries := h.deliveries
  halted := h.halted
  diagnostics := by
    rw [← h.diagnostics]
    simp [Run.report, Diagnostic.lenient, hd]

theorem add (h : r.Concurs r') (f : Intermediate → Intermediate) : (r.add f).Concurs (r'.add f) := by
  unfold Run.add
  rw [h.hasErrors]
  split_ifs
  · exact h
  · exact ⟨h.compilation, congrArg f h.intermediate, h.units, h.deliveries, h.halted, h.diagnostics⟩

theorem emit (h : r.Concurs r') (id : Identifier) (data : Symbol.Data) :
    (r.emit id data).Concurs (r'.emit id data) := by
  unfold Run.emit
  rw [h.hasErrors, h.active, h.intermediate]
  split_ifs
  · exact h
  · split
    · exact ⟨h.compilation, rfl, h.units, h.deliveries, rfl, h.diagnostics⟩
    · split
      · exact ⟨h.compilation, rfl, h.units, h.deliveries, rfl, h.diagnostics⟩
      · exact ⟨h.compilation, rfl, h.units, h.deliveries, h.halted, h.diagnostics⟩

theorem openUnit (h : r.Concurs r') (header : UnitHeader) :
    (r.openUnit header).Concurs (r'.openUnit header) := by
  unfold Run.openUnit
  rw [h.intermediate, h.compilation, h.units]
  exact ⟨rfl, rfl, rfl, h.deliveries, h.halted, h.diagnostics⟩

/-- A hook sees the same and does the same in both states. -/
theorem runHook (h : r.Concurs r') (node : Offer) (hook : Hook) :
    (r.runHook node hook).1.Concurs (r'.runHook node hook).1 ∧
      (r.runHook node hook).2 = (r'.runHook node hook).2 := by
  induction hook generalizing r r' with
  | done handled => exact ⟨h, rfl⟩
  | report d next ih => exact ih (h.report d)
  | emit id definition fields next ih =>
    rw [Run.runHook, Run.runHook, h.active]
    cases r'.active with
    | none => exact ih (h.report _)
    | some unit => exact ih (h.emit id _)
  | refer s next ih => exact ih (h.add _)
  | group g next ih => exact ih (h.add _)
  | observe next ih =>
    rw [Run.runHook, Run.runHook, h.observation]
    exact ih _ h

theorem offer (h : r.Concurs r') (extensions : List Extension) (node : Offer) (context : Context) :
    (r.offer extensions node context).Concurs (r'.offer extensions node context) := by
  unfold Run.offer
  cases node.space?.bind (Extension.find? extensions) with
  | none => exact h.report _
  | some extension =>
    obtain ⟨h', hhandled⟩ := h.runHook node (extension.hook node context)
    dsimp only
    rw [hhandled, h.observation]
    have hd : ∀ d : Delivery,
        Concurs { (r.runHook node (extension.hook node context)).1 with
          deliveries := (r.runHook node (extension.hook node context)).1.deliveries ++ [d] }
        { (r'.runHook node (extension.hook node context)).1 with
          deliveries := (r'.runHook node (extension.hook node context)).1.deliveries ++ [d] } :=
      fun d => ⟨h'.compilation, h'.intermediate, h'.units, congrArg (· ++ [d]) h'.deliveries,
        h'.halted, h'.diagnostics⟩
    split_ifs
    · exact hd _
    · exact (hd _).report _

theorem step (h : r.Concurs r') (extensions : List Extension) (s : Step) :
    (r.step extensions s).Concurs (r'.step extensions s) := by
  cases s with
  | report d => exact h.report d
  | openUnit header => exact h.openUnit header
  | closeUnit =>
    exact ⟨h.compilation, h.intermediate, congrArg List.tail h.units, h.deliveries, h.halted,
      h.diagnostics⟩
  | emit id data => exact h.emit id data
  | refer s => exact h.add (·.addReference s)
  | group g => exact h.add (·.addGroup g)
  | offer node context => exact h.offer extensions node context
  | halt reason =>
    exact ⟨h.compilation, h.intermediate, h.units, h.deliveries, rfl, h.diagnostics⟩

/-- Steps lead to the same with the warnings and without them. -/
theorem steps (h : r.Concurs r') (extensions : List Extension) {l : List Step} (hr : r.halted = none) :
    (r.steps extensions l).Concurs (r'.steps extensions (Step.lenient l)) := by
  induction l generalizing r r' with
  | nil => exact h
  | cons s l ih =>
    cases hs : s.isDeprecation with
    | false =>
      have hstep := h.step extensions s
      rw [Step.lenient, List.filter_cons_of_pos (by simp [hs]), steps_cons, steps_cons, hstep.halted]
      split_ifs with hh
      · exact hstep
      · exact ih hstep (by rw [hstep.halted]; simpa using hh)
    | true =>
      cases s with
      | report d =>
        have hgoing : (r.step extensions (.report d)).halted = none := hr
        rw [Step.lenient, List.filter_cons_of_neg (by simp [hs]), steps_cons, hgoing]
        exact ih (h.report_left hs) hr
      | _ => cases hs

end Concurs

end Run

/-! ### Outputs -/

/-- The output without warnings about deprecated attributes. -/
def Output.lenient (o : Output) : Output :=
  { o with diagnostics := Diagnostic.lenient o.diagnostics }

/-- The compiler without warnings about deprecated attributes. -/
def Compiler.lenient (c : Compiler) : Compiler := { c with config := c.config.lenient }

theorem Run.Concurs.outcome {r r' : Run} (h : r.Concurs r') :
    r.outcome.result.map Output.lenient = r'.outcome.result.map Output.lenient ∧
      r.outcome.deliveries = r'.outcome.deliveries := by
  refine ⟨?_, h.deliveries⟩
  have hsettle : (Output.settle ⟨r.intermediate, r.diagnostics⟩).lenient =
      (Output.settle ⟨r'.intermediate, r'.diagnostics⟩).lenient := by
    cases he : r'.hasErrors with
    | true =>
      rw [settle_of_hasErrors (h.hasErrors.trans he), settle_of_hasErrors he, Output.lenient,
        Output.lenient, h.diagnostics]
    | false =>
      rw [settle_of_not_hasErrors (h.hasErrors.trans he), settle_of_not_hasErrors he,
        Output.lenient, Output.lenient, h.diagnostics, h.intermediate]
  unfold Run.outcome
  rw [h.halted]
  cases r'.halted with
  | some reason => rfl
  | none => exact congrArg Except.ok hsettle

/-- **The setting decides about the warnings alone.** With any extensions a compile has the same result
with the warnings about deprecated attributes and without them, but for these, and its hooks are called
in the same way. -/
theorem Compiler.compileAs_lenient (c : Compiler) (k : UInt32) (root : Element) :
    (c.compileAs k root).result.map Output.lenient =
        (c.lenient.compileAs k root).result.map Output.lenient ∧
      (c.compileAs k root).deliveries = (c.lenient.compileAs k root).deliveries := by
  have hstart : Run.Concurs { compilation := k } { compilation := k } := ⟨rfl, rfl, rfl, rfl, rfl, rfl⟩
  have h := (hstart.steps c.extensions (l := plan c.config root) rfl).outcome
  rw [← plan_lenient] at h
  exact h

end Installer
