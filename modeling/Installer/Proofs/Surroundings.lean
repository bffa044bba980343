import Installer.Proofs.Scoping

/-! # What is around an element

Without extensions an offered node is just reported (`Step.bare`). Then the steps for an element depend
on the document around it only through its position and its parent (`Site.Akin`), and those for
a child of the document element do not even depend on its siblings (`bare_childSteps`). -/

namespace Installer

open Compile Planned

/-! ### Plans without extensions -/

/-- What a step does without extensions: a node that is offered is unhandled. -/
def Step.bare : Step → Step
  | .offer node _ => .report node.unhandled
  | s => s

/-- A plan with what its steps do without extensions. -/
def Logged.bare {α : Type} (x : Logged Step α) : Logged Step α := ⟨x.log.map Step.bare, x.value⟩

namespace Logged

variable {α β : Type}

@[simp] theorem bare_pure (a : α) : (pure a : Logged Step α).bare = pure a := rfl

@[simp] theorem bare_bind (x : Logged Step α) (f : α → Logged Step β) :
    (x >>= f).bare = x.bare >>= fun a => (f a).bare := by
  simp [bare, bind]

@[simp] theorem bare_tell (l : List Step) : (tell l).bare = tell (l.map Step.bare) := rfl

@[simp] theorem bare_ite (p : Prop) [Decidable p] (x y : Logged Step α) :
    (if p then x else y).bare = if p then x.bare else y.bare := by
  split_ifs <;> rfl

end Logged

namespace Planned

@[simp] theorem bare_report (ds : List Diagnostic) : (report ds).bare = report ds := by
  simp [report, Step.bare, Function.comp_def]

@[simp] theorem bare_reportIf (condition : Bool) (d : Diagnostic) :
    (reportIf condition d).bare = reportIf condition d := by
  simp [reportIf]

@[simp] theorem bare_refer (kind : SymbolKind) (id : String) :
    (refer kind id).bare = refer kind id := rfl

@[simp] theorem bare_register (c : GroupCursor) (child : Member) (after : Option Member) :
    (register c child after).bare = register c child after := rfl

@[simp] theorem bare_offerAttributes (site : Site) (context : Context) :
    (offerAttributes site context).bare =
      report (site.element.foreignAttributes.map site.element.unhandledAttribute) := by
  simp [offerAttributes, report, Step.bare, Offer.unhandled, Function.comp_def]

@[simp] theorem bare_within (scope : Scope) (x : Planned Body) :
    (within scope x).bare = within scope x.bare := by
  simp [within]

@[simp] theorem bare_refuse (scope : Scope) (d : Diagnostic) :
    (refuse scope d).bare = refuse scope d := by
  simp [refuse]

end Planned

/-! ### Sites that rules cannot tell apart -/

/-- Two sites of one element, at the same place among the children of the same parent. -/
structure Site.Akin (s s' : Site) : Prop where
  element : s.element = s'.element
  position : s.position = s'.position
  parent : s.parent = s'.parent

namespace Compile

section Congruence
variable {s s' : Site}

theorem bare_leaf (h : s.element = s'.element) (id : Identifier) (close : List Step) :
    (leaf s id close).bare = (leaf s' id close).bare := by
  simp [leaf, h]

theorem bare_scanChildren (h : s.element = s'.element) (context : Context) :
    (scanChildren s context).bare = (scanChildren s' context).bare := by
  simp only [scanChildren, Logged.bare_tell, List.map_map, h]
  congr 2
  funext c
  simp only [Function.comp_apply]
  split_ifs
  · rfl
  · simp [Step.bare, Offer.unhandled, Site.child, h]

theorem bare_packagePayload (h : s.element = s'.element) (kind : Symbol.PackageKind) :
    (packagePayload kind s).bare = (packagePayload kind s').bare := by
  unfold packagePayload
  rw [h]
  dsimp only
  split
  · next child position _ =>
    have hc : (s.child position child).element = (s'.child position child).element := rfl
    simp [readTypedPayload, bare_scanChildren hc, hc]
  · simp

/-- Units do not look at what is around them. -/
theorem bare_open_of_isUnit {rule : Rule} (hu : rule.isUnit) (env : Env) (scope : Scope)
    (h : s.element = s'.element) : (rule.open env scope s).bare = (rule.open env scope s').bare := by
  cases rule with
  | bundle => simp [Rule.open, openBundle, h]
  | package => simp [Rule.open, openPackage, h]
  | module => simp [Rule.open, openModule, h]
  | patch => simp [Rule.open, openPatch, h]
  | fragment => simp [Rule.open, openFragment, h]
  | _ => cases hu

/-- Rules look only at the place of an element among the children of its parent. -/
theorem bare_open (rule : Rule) (env : Env) (scope : Scope) (h : s.Akin s') :
    (rule.open env scope s).bare = (rule.open env scope s').bare := by
  obtain ⟨he, hposition, hparent⟩ := h
  have hleaf := bare_leaf he
  cases rule with
  | bootstrapperApplication => simp [Rule.open, openBootstrapperApplication, he]
  | log => simp [Rule.open, openLog, he, hleaf]
  | update => simp [Rule.open, openUpdate, he, hleaf]
  | relatedBundle => simp [Rule.open, openRelatedBundle, he, hleaf]
  | variableValue => simp [Rule.open, openVariable, he, hleaf]
  | chain => simp [Rule.open, openChain, he]
  | packageGroup => simp [Rule.open, openPackageGroup, he]
  | packageGroupRef =>
    cases hc : scope.cursor <;> simp [Rule.open, openPackageGroupRef, hc, he, hleaf]
  | payloadGroup => simp [Rule.open, openPayloadGroup, he]
  | payloadGroupRef =>
    cases hc : scope.cursor <;> simp [Rule.open, openPayloadGroupRef, hc, he, hleaf]
  | container => simp [Rule.open, openContainer, he]
  | rollbackBoundary =>
    cases hc : scope.cursor <;> simp [Rule.open, openRollbackBoundary, hc, he, hposition, hleaf]
  | payload => cases hc : scope.cursor <;> simp [Rule.open, openPayload, hc, he, hleaf]
  | chainPackage kind =>
    cases hc : scope.cursor <;>
      simp [Rule.open, openChainPackage, hc, he, bare_packagePayload he]
  | msiProperty => cases hp : scope.parent <;> simp [Rule.open, openMsiProperty, hp, he, hleaf]
  | slipstreamMsp => cases hp : scope.parent <;> simp [Rule.open, openSlipstreamMsp, hp, he, hleaf]
  | exitCode => cases hp : scope.parent <;> simp [Rule.open, openExitCode, hp, he, hleaf]
  | arpEntry => cases hp : scope.parent <;> simp [Rule.open, openArpEntry, hp, he, hleaf]
  | component => simp [Rule.open, openComponent, he]
  | registryKey =>
    cases hp : Parent.registryPlace? scope.parent <;> simp [Rule.open, openRegistryKey, hp, he]
  | registryValue =>
    cases hp : Parent.registryPlace? scope.parent <;>
      simp [Rule.open, openRegistryValue, hp, he, hleaf]
  | customAction =>
    simp only [Rule.open, openCustomAction, he]
    split <;> simp [hleaf]
  | property => simp [Rule.open, openProperty, he, hleaf]
  | patchProperty => simp [Rule.open, openPatchProperty, he, hleaf]
  | sequence s => simp [Rule.open, openSequence, he]
  | action kind => cases hp : scope.parent <;> simp [Rule.open, openAction, hp, he, hparent, hleaf]
  | _ => exact bare_open_of_isUnit rfl env scope he

end Congruence

/-! ### Plans of elements -/

/-- The steps for an element that is read by a rule do not depend on the site, if what they are
without extensions does not. -/
def SiteFree (config : Config) (e : Element) : Prop :=
  ∀ unit depth rule scope position position' ancestors ancestors',
    (Rule.open rule ⟨config, unit⟩ scope ⟨e, position, ancestors⟩).bare =
        (Rule.open rule ⟨config, unit⟩ scope ⟨e, position', ancestors'⟩).bare →
      (planElement config unit depth rule scope position ancestors e).bare =
        (planElement config unit depth rule scope position' ancestors' e).bare

theorem bare_planChildren (config : Config) (unit : Option SectionKind) (depth : Nat)
    (content : Content) {s s' : Site} (h : s.element = s'.element) :
    ∀ (children : List Element) (scope : Scope) (position : Nat) (seen : List String),
      (∀ child ∈ children, SiteFree config child) →
        (planChildren config unit depth content s scope position seen children).bare =
          (planChildren config unit depth content s' scope position seen children).bare
  | [], scope, position, seen, _ => by rw [planChildren, planChildren]
  | child :: rest, scope, position, seen, hf => by
    have ih := fun scope position seen => bare_planChildren config unit depth content h
      rest scope position seen fun c hc => hf c (List.mem_cons_of_mem _ hc)
    rw [planChildren, planChildren, h]
    by_cases hcore : child.isCore
    · simp only [hcore, Bool.not_true, Bool.false_eq_true, ↓reduceIte]
      cases admissionOf content seen s'.element child with
      | skip => exact ih _ _ _
      | refuse d => simp [ih]
      | accept rule =>
        have hc := hf child (by simp) unit (depth + 1) rule scope position position
          (s'.element :: s.ancestors) (s'.element :: s'.ancestors)
          (bare_open rule _ _ ⟨rfl, rfl, rfl⟩)
        simp only [Logged.bare_ite, Logged.bare_bind, hc, ih]
    · simp [hcore, ih, Step.bare, Offer.unhandled, Site.child, h]

theorem siteFree (config : Config) (e : Element) : SiteFree config e := by
  induction e using Element.induct with
  | node tag children ih =>
    intro unit depth rule scope position position' ancestors ancestors' h
    have hlog := congrArg Logged.log h
    have hvalue := congrArg Logged.value h
    simp only [Logged.bare] at hlog hvalue
    cases hbody : (rule.open ⟨config, unit⟩ scope
        ⟨.node tag children, position, ancestors⟩).value.body with
    | none =>
      rw [planElement_of_none hbody, planElement_of_none (hvalue ▸ hbody)]
      simp only [Logged.bare, hlog, hvalue]
    | some body =>
      have hsame : (⟨.node tag children, position, ancestors⟩ : Site).element =
          (⟨.node tag children, position', ancestors'⟩ : Site).element := rfl
      have hc := bare_planChildren config (body.unit.or unit) depth body.content hsame
        children body.scope 0 [] ih
      have hclog := congrArg Logged.log hc
      have hcvalue := congrArg Logged.value hc
      simp only [Logged.bare] at hclog hcvalue
      rw [planElement_of_some hbody, planElement_of_some (hvalue ▸ hbody)]
      simp only [Logged.bare, Element.children, List.map_append, hlog, hvalue, hclog, hcvalue]

/-- **Siblings do not matter.** Without extensions the steps for a child of the document element are
the same wherever it stands in whatever document with the same document element. -/
theorem bare_childSteps (config : Config) {root root' : Element} (h : root.tag = root'.tag)
    (position position' : Nat) (child : Element) :
    (childSteps config root position child).map Step.bare =
      (childSteps config root' position' child).map Step.bare := by
  obtain ⟨tag, children⟩ := root
  obtain ⟨tag', children'⟩ := root'
  obtain rfl : tag = tag' := h
  by_cases hcore : child.isCore
  · cases hr : topRule? child with
    | none => rw [childSteps_of_refused hcore hr, childSteps_of_refused hcore hr]; rfl
    | some rule =>
      obtain ⟨kind, hk, -⟩ := sectionKind?_of_topRule? hr
      have hopen : rule.isUnit := by simp [Rule.isUnit, hk]
      rw [childSteps_of_unit hcore hr, childSteps_of_unit hcore hr]
      split_ifs
      · rfl
      · exact congrArg Logged.log (siteFree config child none 1 rule {} position position' _ _
          (bare_open_of_isUnit hopen _ _ rfl))
  · have hcore : child.isCore = false := by simpa using hcore
    rw [childSteps_of_foreign hcore, childSteps_of_foreign hcore]
    rfl

end Compile

/-! ### Runs without extensions -/

namespace Run

theorem step_bare (r : Run) (s : Step) : r.step [] s.bare = r.step [] s := by
  cases s with
  | offer node context => cases h : node.space? <;> simp [Step.bare, step, offer, h, Extension.find?]
  | _ => rfl

theorem steps_bare (r : Run) (l : List Step) : r.steps [] (l.map Step.bare) = r.steps [] l := by
  induction l generalizing r with
  | nil => rfl
  | cons s l ih =>
    rw [List.map_cons, steps_cons, steps_cons, step_bare]
    split_ifs
    · rfl
    · exact ih _

theorem deliveries_step (r : Run) (s : Step) : (r.step [] s).deliveries = r.deliveries := by
  rw [← step_bare]
  cases s with
  | emit id data =>
    simp only [Step.bare, step, emit]
    split_ifs
    · rfl
    · split
      · rfl
      · split <;> rfl
  | refer s => exact deliveries_add r _
  | group g => exact deliveries_add r _
  | _ => rfl

/-- Without extensions no hook is called. -/
theorem deliveries_steps (r : Run) (l : List Step) : (r.steps [] l).deliveries = r.deliveries := by
  induction l generalizing r with
  | nil => rfl
  | cons s l ih =>
    rw [steps_cons]
    split_ifs
    · exact deliveries_step r s
    · rw [ih, deliveries_step]

end Run

end Installer
