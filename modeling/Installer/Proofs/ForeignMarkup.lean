import Installer.Proofs.Findings
import Installer.Proofs.Offers
import Installer.Proofs.Pruning

/-! # Foreign markup does not interfere

Without foreign markup a document has the same plan, but for the nodes that are offered
(`Compile.plan_pruned`): rules read the same, and no element moves out of its parent. Only a rollback
boundary without an identifier is named by its position, so that its name changes with the foreign
elements before it. Without extensions all that comes of an offer is a warning, and so the two compiles
differ in such warnings alone. -/

namespace Installer

open Compile Planned

namespace Element

/-- The element is not a rollback boundary that is named by its position. -/
def Anchored (e : Element) : Prop := e.qname = QName.core "RollbackBoundary" → e.has "Id"

end Element

/-! ### Plans without offers -/

/-- A plan without what it offers. -/
def Logged.quiet {α : Type} (x : Logged Step α) : Logged Step α :=
  ⟨x.log.filter (·.offer?.isNone), x.value⟩

namespace Logged

variable {α β : Type}

@[simp] theorem quiet_pure (a : α) : (pure a : Logged Step α).quiet = pure a := rfl

@[simp] theorem quiet_bind (x : Logged Step α) (f : α → Logged Step β) :
    (x >>= f).quiet = x.quiet >>= fun a => (f a).quiet := by
  simp [quiet, bind]

@[simp] theorem quiet_tell (l : List Step) :
    (tell l).quiet = tell (l.filter (·.offer?.isNone)) := rfl

@[simp] theorem quiet_ite (p : Prop) [Decidable p] (x y : Logged Step α) :
    (if p then x else y).quiet = if p then x.quiet else y.quiet := by
  split_ifs <;> rfl

theorem quiet_eq_self {x : Logged Step α} (h : ∀ s ∈ x.log, s.offer? = none) : x.quiet = x := by
  rw [quiet, List.filter_eq_self.mpr fun s hs => by simp [h s hs]]

end Logged

namespace Planned

@[simp] theorem quiet_report (ds : List Diagnostic) : (report ds).quiet = report ds :=
  Logged.quiet_eq_self (by simp [report, Step.offer?])

@[simp] theorem quiet_reportIf (condition : Bool) (d : Diagnostic) :
    (reportIf condition d).quiet = reportIf condition d := by
  simp [reportIf]

@[simp] theorem quiet_offerAttributes (site : Site) (context : Context) :
    (offerAttributes site context).quiet = pure () := by
  rw [offerAttributes, Logged.quiet_tell, List.filter_eq_nil_iff.mpr (by simp [Step.offer?])]
  rfl

@[simp] theorem quiet_leaf (site : Site) (id : Identifier) (close : List Step) :
    (leaf site id close).quiet = pure
      { content := .nothing, scope := { context := id.validContext }, close := fun _ => close } := by
  simp [leaf]

@[simp] theorem quiet_within (scope : Scope) (x : Planned Body) :
    (within scope x).quiet = within scope x.quiet := by
  simp [within]

@[simp] theorem quiet_refuse (scope : Scope) (d : Diagnostic) :
    (refuse scope d).quiet = refuse scope d := by
  simp [refuse]

end Planned

namespace Compile

/-! ### Openings -/

section Pruned
variable {s s' : Site}

/-- Of the children of an element that has to be empty, the core ones are reported. -/
theorem quiet_scanChildren_eq (s : Site) (context : Context) : (scanChildren s context).quiet =
    report ((s.element.children.filter (·.isCore)).map s.element.unexpectedElement) := by
  have hreports : ∀ l : List (Element × Nat), (l.map fun c =>
      if c.1.isCore then Step.report (s.element.unexpectedElement c.1)
      else .offer (.ofElement s (s.child c.2 c.1)) context).filter (·.offer?.isNone) =
        (((l.map (·.1)).filter (·.isCore)).map s.element.unexpectedElement).map .report := by
    intro l
    induction l with
    | nil => rfl
    | cons c l ih =>
      rw [List.map_cons, List.map_cons, List.filter_cons, List.filter_cons, ih]
      by_cases hcore : c.1.isCore <;> simp [hcore, Step.offer?]
  rw [scanChildren, Logged.quiet_tell, hreports, List.zipIdx_map_fst, report]

theorem quiet_scanChildren (h : s'.element = s.element.pruned) (context : Context) :
    (scanChildren s' context).quiet = (scanChildren s context).quiet := by
  rw [quiet_scanChildren_eq, quiet_scanChildren_eq, h, Element.children_pruned,
    Element.prunedOfList_eq, List.filter_map, List.map_map]
  simp [Function.comp_def]

/-- The element that authors the payload of a package is still there, maybe at another position. -/
theorem map_typedPayload?_pruned (e : Element) (kind : Symbol.PackageKind) :
    (typedPayload? e.pruned kind).map (·.1) = (typedPayload? e kind).map (·.1.pruned) := by
  rw [map_typedPayload?, e.find?_children_pruned (by simp) (by simp +contextual),
    ← map_typedPayload?, Option.map_map]
  rfl

theorem isCore_of_typedPayload? {e : Element} {kind : Symbol.PackageKind} {typed : Element × Nat}
    (h : typedPayload? e kind = some typed) : typed.1.isCore := by
  have hfind := map_typedPayload? e kind
  rw [h, Option.map_some] at hfind
  have htyped := List.find?_some hfind.symm
  rw [Bool.and_eq_true] at htyped
  exact htyped.1

theorem quiet_readTypedPayload (h : s'.element = s.element.pruned) (kind : Symbol.PackageKind)
    (package : Element) (inline : PayloadFields) :
    (readTypedPayload kind package.pruned inline s').quiet =
      (readTypedPayload kind package inline s).quiet := by
  simp [readTypedPayload, quiet_scanChildren h, h]

theorem quiet_packagePayload (h : s'.element = s.element.pruned) (kind : Symbol.PackageKind) :
    (packagePayload kind s').quiet = (packagePayload kind s).quiet := by
  have hmap := map_typedPayload?_pruned s.element kind
  unfold packagePayload
  rw [h]
  dsimp only
  cases ht : typedPayload? s.element kind with
  | none =>
    rw [ht] at hmap
    have ht' := Option.map_eq_none_iff.mp hmap
    simp [ht']
  | some typed =>
    rw [ht] at hmap
    obtain ⟨typed', ht', hpruned⟩ := Option.map_eq_some_iff.mp hmap
    have hchild : (s'.child typed'.2 typed'.1).element =
        (s.child typed.2 typed.1).element.pruned := hpruned
    have hread := quiet_readTypedPayload hchild kind s.element
    simp [ht', hread]

/-- Rules do not look at foreign markup. -/
theorem quiet_open (rule : Rule) (env : Env) (scope : Scope) (h : s'.element = s.element.pruned)
    (hparent : s'.parent.name = s.parent.name)
    (hid : rule = .rollbackBoundary → s.element.has "Id") :
    (rule.open env scope s').quiet = (rule.open env scope s).quiet := by
  have hunexpected : ∀ e : Element, s'.parent.unexpectedElement e = s.parent.unexpectedElement e := by
    intro e
    simp [Element.unexpectedElement, Element.qualifyChild, hparent]
  cases rule with
  | bundle | package | module | patch | fragment =>
    simp [Rule.open, openBundle, openPackage, openModule, openPatch, openFragment, h]
  | bootstrapperApplication => simp [Rule.open, openBootstrapperApplication, h]
  | log | update | relatedBundle | variableValue =>
    simp [Rule.open, openLog, openUpdate, openRelatedBundle, openVariable, h]
  | chain | packageGroup | payloadGroup | container =>
    simp [Rule.open, openChain, openPackageGroup, openPayloadGroup, openContainer, h]
  | packageGroupRef | payloadGroupRef | payload =>
    cases hc : scope.cursor <;>
      simp [Rule.open, openPackageGroupRef, openPayloadGroupRef, openPayload, hc, h]
  | rollbackBoundary =>
    -- the position is not looked at, as there is an identifier
    obtain ⟨i, hi⟩ := Element.exists_identifier?_of_has (hid rfl)
    cases hc : scope.cursor <;> simp [Rule.open, openRollbackBoundary, hc, h, hi]
  | chainPackage kind =>
    cases hc : scope.cursor <;>
      simp [Rule.open, openChainPackage, hc, h, quiet_packagePayload h]
  | msiProperty | slipstreamMsp | exitCode | arpEntry =>
    cases hp : scope.parent <;>
      simp [Rule.open, openMsiProperty, openSlipstreamMsp, openExitCode, openArpEntry, hp, h]
  | registryKey | registryValue =>
    cases hp : Parent.registryPlace? scope.parent <;>
      simp [Rule.open, openRegistryKey, openRegistryValue, hp, h]
  | component | property | patchProperty | sequence s =>
    simp [Rule.open, openComponent, openProperty, openPatchProperty, openSequence, h]
  | customAction =>
    simp only [Rule.open, openCustomAction, h, codeOf_pruned]
    split <;> simp
  | action kind =>
    cases hp : scope.parent <;> simp [Rule.open, openAction, hp, h, hunexpected]

theorem foreignAttributes_pruned (h : s'.element = s.element.pruned) (hcore : s.element.isCore) :
    s'.foreignAttributes = [] := by
  simp only [Element.isCore, beq_iff_eq] at hcore
  rw [Site.foreignAttributes, h, Element.foreignAttributes, Element.attributes,
    Element.tag_pruned, Tag.pruned, if_pos hcore]
  simp

theorem foreignNodes_pruned (h : s'.element = s.element.pruned) (hcore : s.element.isCore) :
    s'.foreignNodes = [] := by
  have hchildren : ∀ c ∈ s'.element.children.zipIdx, c.1.isCore := by
    intro c hc
    have hmem := List.mem_map_of_mem (f := Prod.fst) hc
    rw [List.zipIdx_map_fst, h, Element.children_pruned, Element.prunedOfList_eq,
      List.mem_map] at hmem
    obtain ⟨child, hchild, hpruned⟩ := hmem
    rw [← hpruned, Element.isCore_pruned]
    exact (List.mem_filter.mp hchild).2
  rw [Site.foreignNodes, foreignAttributes_pruned h hcore, Site.foreignChildren,
    List.filter_eq_nil_iff.mpr fun c hc => by simp [hchildren c hc]]
  rfl

/-- The opening of an element without foreign markup is that of the element, offers apart. -/
theorem open_pruned (rule : Rule) (env : Env) (scope : Scope) (h : s'.element = s.element.pruned)
    (hcore : s.element.isCore) (hparent : s'.parent.name = s.parent.name)
    (hid : rule = .rollbackBoundary → s.element.has "Id") :
    rule.open env scope s' = (rule.open env scope s).quiet := by
  have hpayload : ∀ typed, rule.payload? s' = some typed → typed.foreignNodes = [] := by
    intro typed ht
    cases rule with
    | chainPackage kind =>
      have hmap := map_typedPayload?_pruned s.element kind
      obtain ⟨c', hc', rfl⟩ := Option.map_eq_some_iff.mp ht
      rw [h] at hc'
      rw [hc', Option.map_some] at hmap
      obtain ⟨c, hc, hpruned⟩ := Option.map_eq_some_iff.mp hmap.symm
      have hchild : (s'.child c'.2 c'.1).element = (s.child c.2 c.1).element.pruned := hpruned.symm
      exact foreignNodes_pruned hchild (isCore_of_typedPayload? hc)
    | _ => cases ht
  have hnone : (rule.open env scope s').collect Step.offer? = [] := by
    cases hbody : (rule.open env scope s').value.body with
    | none => exact (offers_open rule env scope s').left hbody
    | some body =>
      rw [(offers_open rule env scope s').entered body hbody, foreignAttributes_pruned h hcore,
        List.append_nil, List.flatMap_eq_nil_iff]
      intro typed ht
      exact hpayload typed (Option.mem_toList.mp ht)
  rw [← quiet_open rule env scope h hparent hid,
    Logged.quiet_eq_self (List.filterMap_eq_nil_iff.mp hnone)]

end Pruned

/-! ### Plans of documents -/

theorem admissionOf_pruned (content : Content) (seen : List String) (parent : Element)
    {child : Element} (h : child.isCore) : admissionOf content seen parent.pruned child.pruned =
      admissionOf content seen parent child := by
  simp [admissionOf, Element.tooManyChildren_pruned _ h]

/-- The steps for an element without foreign markup are those for the element, offers apart. -/
def Indifferent (config : Config) (e : Element) : Prop :=
  ∀ unit depth rule scope position position' parent ancestors ancestors', e.isCore →
    (∀ s ∈ e.sitesAt position (parent :: ancestors), s.element.Anchored) →
      (rule = .rollbackBoundary → e.qname = QName.core "RollbackBoundary") →
        planElement config unit depth rule scope position' (parent.pruned :: ancestors') e.pruned =
          (planElement config unit depth rule scope position (parent :: ancestors) e).quiet

theorem planChildren_pruned (config : Config) (unit : Option SectionKind) (depth : Nat)
    (content : Content) {s s' : Site} (h : s'.element = s.element.pruned) :
    ∀ (children : List Element) (scope : Scope) (position position' : Nat) (seen : List String),
      (∀ child ∈ children, Indifferent config child) →
        (∀ t ∈ Element.sitesOfList position (s.element :: s.ancestors) children,
          t.element.Anchored) →
          planChildren config unit depth content s' scope position' seen
              (Element.prunedOfList children) =
            (planChildren config unit depth content s scope position seen children).quiet
  | [], scope, position, position', seen, _, _ => by
    rw [Element.prunedOfList, planChildren, planChildren, Logged.quiet_pure]
  | child :: rest, scope, position, position', seen, hf, ha => by
    rw [Element.sitesOfList, List.forall_mem_append] at ha
    have ih := fun scope position' seen => planChildren_pruned config unit depth content h
      rest scope (position + 1) position' seen (fun c hc => hf c (List.mem_cons_of_mem _ hc)) ha.2
    rw [Element.prunedOfList]
    by_cases hcore : child.isCore
    · rw [if_pos hcore, planChildren, planChildren, h, admissionOf_pruned _ _ _ hcore]
      simp only [Element.isCore_pruned, Element.name_pruned, hcore, Bool.not_true,
        Bool.false_eq_true, ↓reduceIte]
      cases hadm : admissionOf content seen s.element child with
      | skip => exact ih _ _ _
      | refuse d => simp [ih]
      | accept rule =>
        have hname : rule = .rollbackBoundary → child.qname = QName.core "RollbackBoundary" := by
          rintro rfl
          rw [Element.qname_eq_core hcore, Content.name_of_gives (gives_of_accept hadm) rfl]
        have hc := hf child (by simp) unit (depth + 1) rule scope position position' s.element
          s.ancestors s'.ancestors hcore ha.1 hname
        simp only [Logged.quiet_ite, Logged.quiet_bind, hc, ih]
        rfl
    · rw [if_neg hcore, planChildren]
      simp only [hcore, Bool.not_false, ↓reduceIte, Logged.quiet_bind, Logged.quiet_tell, ih]
      rfl

theorem indifferent (config : Config) (e : Element) : Indifferent config e := by
  induction e using Element.induct with
  | node tag children ih =>
    intro unit depth rule scope position position' parent ancestors ancestors' hcore ha hrule
    rw [Element.sitesAt, List.forall_mem_cons] at ha
    let s : Site := ⟨.node tag children, position, parent :: ancestors⟩
    let s' : Site := ⟨s.element.pruned, position', parent.pruned :: ancestors'⟩
    have hs : s'.element = s.element.pruned := rfl
    have hopen := open_pruned rule ⟨config, unit⟩ scope hs hcore parent.name_pruned
      fun hr => ha.1 (hrule hr)
    cases hbody : (rule.open ⟨config, unit⟩ scope s).value.body with
    | none =>
      have hbody' : (rule.open ⟨config, unit⟩ scope s').value.body = none := by
        rw [hopen]
        exact hbody
      rw [planElement_of_none hbody, planElement_of_none hbody', hopen]
      rfl
    | some body =>
      have hbody' : (rule.open ⟨config, unit⟩ scope s').value.body = some body := by
        rw [hopen]
        exact hbody
      have hclose : ∀ inner, (body.close inner).filter (·.offer?.isNone) = body.close inner := by
        intro inner
        refine List.filter_eq_self.mpr fun step hstep => ?_
        rw [(offers_open rule ⟨config, unit⟩ scope s).close body hbody inner step hstep]
        rfl
      have hchildren := planChildren_pruned config (body.unit.or unit) depth body.content hs
        children body.scope 0 0 [] ih ha.2
      rw [planElement_of_some hbody, planElement_of_some hbody', hopen, Element.children_pruned,
        Element.children, hchildren]
      simp only [Logged.quiet, List.filter_append, hclose]
      rfl

/-- The plan of a document without foreign markup is that of the document, offers apart. -/
theorem plan_pruned (config : Config) {root : Element}
    (h : ∀ s ∈ root.sites, s.element.Anchored) :
    plan config root.pruned = (plan config root).filter (·.offer?.isNone) := by
  have hroot : (Site.root root.pruned).element = (Site.root root).element.pruned := rfl
  have hbelow : ∀ s ∈ Element.sitesOfList 0 [root] root.children, s.element.Anchored := by
    obtain ⟨tag, children⟩ := root
    rw [Element.sites, Element.sitesAt, List.forall_mem_cons] at h
    exact h.2
  have hchildren := planChildren_pruned config none 0 .document hroot root.children {} 0 0 []
    (fun child _ => indifferent config child) hbelow
  unfold plan
  rw [Element.qname_pruned]
  by_cases hq : root.qname = QName.core "Wix"
  · obtain ⟨hcore, -⟩ := Element.core_of_qname hq
    have hoffer : offerAttributes (Site.root root.pruned) [] = pure () := by
      have hnone := congrArg (List.map fun node => Step.offer node [])
        (foreignAttributes_pruned hroot hcore)
      rw [Site.foreignAttributes, List.map_map] at hnone
      exact congrArg Logged.tell hnone
    rw [if_neg (by simp [hq]), if_neg (by simp [hq])]
    refine congrArg Logged.log (?_ : _ = Logged.quiet _)
    simp only [Logged.quiet_bind, quiet_report, quiet_offerAttributes, hoffer,
      Element.checkAttributes_pruned, Element.children_pruned, hchildren]
  · simp [hq, wrongRoot, Step.offer?]

end Compile

/-! ### Runs without extensions -/

namespace Run

/-- The two states are the same, but for the warnings about unhandled nodes in the first one. -/
structure Sheds (r r' : Run) : Prop where
  compilation : r'.compilation = r.compilation
  intermediate : r'.intermediate = r.intermediate
  units : r'.units = r.units
  halted : r'.halted = r.halted
  diagnostics : r'.diagnostics = r.diagnostics.filter (!·.isUnhandled)

namespace Sheds

variable {r r' : Run}

theorem active (h : r.Sheds r') : r'.active = r.active := congrArg List.head? h.units

theorem errors (h : r.Sheds r') :
    r'.diagnostics.filter (·.isError) = r.diagnostics.filter (·.isError) := by
  rw [h.diagnostics, List.filter_filter]
  refine List.filter_congr fun d _ => ?_
  by_cases hd : d.isUnhandled <;> simp [hd, Diagnostic.isError_of_isUnhandled]

theorem hasErrors (h : r.Sheds r') : r'.hasErrors = r.hasErrors := by
  have hany : ∀ ds : List Diagnostic,
      Diagnostic.hasErrors ds = !(ds.filter (·.isError)).isEmpty := by
    intro ds
    rw [Diagnostic.hasErrors, Bool.eq_iff_iff]
    simp
  rw [Run.hasErrors, Run.hasErrors, hany, hany, h.errors]

theorem report (h : r.Sheds r') {d : Diagnostic} (hd : d.isUnhandled = false) :
    (r.report d).Sheds (r'.report d) where
  compilation := h.compilation
  intermediate := h.intermediate
  units := h.units
  halted := h.halted
  diagnostics := by simp [Run.report, h.diagnostics, hd]

/-- A warning about an unhandled node is in the first state alone. -/
theorem report_unhandled (h : r.Sheds r') (node : Offer) : (r.report node.unhandled).Sheds r' where
  compilation := h.compilation
  intermediate := h.intermediate
  units := h.units
  halted := h.halted
  diagnostics := by simp [Run.report, h.diagnostics]

theorem add (h : r.Sheds r') (f : Intermediate → Intermediate) : (r.add f).Sheds (r'.add f) := by
  unfold Run.add
  rw [h.hasErrors]
  split_ifs
  · exact h
  · exact ⟨h.compilation, congrArg f h.intermediate, h.units, h.halted, h.diagnostics⟩

theorem emit (h : r.Sheds r') (id : Identifier) (data : Symbol.Data) :
    (r.emit id data).Sheds (r'.emit id data) := by
  unfold Run.emit
  rw [h.hasErrors, h.active, h.intermediate]
  split_ifs
  · exact h
  · split
    · exact ⟨h.compilation, rfl, h.units, rfl, h.diagnostics⟩
    · split
      · exact ⟨h.compilation, rfl, h.units, rfl, h.diagnostics⟩
      · exact ⟨h.compilation, rfl, h.units, h.halted, h.diagnostics⟩

theorem openUnit (h : r.Sheds r') (header : UnitHeader) :
    (r.openUnit header).Sheds (r'.openUnit header) := by
  unfold Run.openUnit
  rw [h.intermediate, h.compilation, h.units]
  exact ⟨rfl, rfl, rfl, h.halted, h.diagnostics⟩

/-- A step that offers nothing does the same in both states. -/
theorem step (h : r.Sheds r') {s : Step} (hs : s.offer? = none) (hown : s.Own) :
    (r.step [] s).Sheds (r'.step [] s) := by
  cases s with
  | report d => exact h.report (Step.own_report.mp hown)
  | openUnit header => exact h.openUnit header
  | closeUnit =>
    exact ⟨h.compilation, h.intermediate, congrArg List.tail h.units, h.halted, h.diagnostics⟩
  | emit id data => exact h.emit id data
  | refer s => exact h.add (·.addReference s)
  | group g => exact h.add (·.addGroup g)
  | offer node context => cases hs
  | halt reason => exact ⟨h.compilation, h.intermediate, h.units, rfl, h.diagnostics⟩

/-- The steps that offer nothing lead to the same state as all steps, but for such warnings. -/
theorem steps {l : List Step} (hl : ∀ s ∈ l, s.Own) (h : r.Sheds r') (hr : r.halted = none) :
    (r.steps [] l).Sheds (r'.steps [] (l.filter (·.offer?.isNone))) := by
  induction l generalizing r r' with
  | nil => exact h
  | cons s l ih =>
    rw [List.forall_mem_cons] at hl
    cases hs : s.offer? with
    | none =>
      have hstep := h.step hs hl.1
      rw [List.filter_cons_of_pos (by simp [hs]), steps_cons, steps_cons, hstep.halted]
      split_ifs with hh
      · exact hstep
      · exact ih hl.2 hstep (by simpa using hh)
    | some node =>
      obtain ⟨context, rfl⟩ : ∃ context, s = .offer node context := by
        cases s <;> cases hs
        exact ⟨_, rfl⟩
      have hstep : r.step [] (.offer node context) = r.report node.unhandled :=
        (r.step_bare (.offer node context)).symm
      rw [List.filter_cons_of_neg (by simp [hs]), steps_cons, hstep,
        if_neg (by simp [Run.report, hr])]
      exact ih hl.2 (h.report_unhandled node) hr

end Sheds

end Run

/-- **Foreign markup does not interfere.** If a document is compiled without extensions, and no rollback
boundary is named by its position, then deleting the foreign markup changes neither whether the compile
gives up nor the intermediate nor the errors: the diagnostics are the same but for the warnings about
unhandled nodes. -/
theorem Compiler.compileAs_pruned {c : Compiler} (hc : c.extensions = []) (k : UInt32) {root : Element}
    (hanchored : ∀ s ∈ root.sites, s.element.qname = QName.core "RollbackBoundary" →
      s.element.has "Id") :
    (∀ h, (c.compileAs k root.pruned).result = .error h ↔ (c.compileAs k root).result = .error h) ∧
    ∀ o, (c.compileAs k root).result = .ok o → ∃ o', (c.compileAs k root.pruned).result = .ok o' ∧
      o'.isSuccess = o.isSuccess ∧ o'.intermediate = o.intermediate ∧
      o'.diagnostics.filter (·.isError) = o.diagnostics.filter (·.isError) ∧
      o'.diagnostics = o.diagnostics.filter (!·.isUnhandled) := by
  have hstart : Run.Sheds { compilation := k } { compilation := k } := ⟨rfl, rfl, rfl, rfl, rfl⟩
  have h := hstart.steps (own_plan c.config root) rfl
  rw [← plan_pruned c.config hanchored] at h
  unfold compileAs
  rw [hc]
  refine ⟨fun reason => ?_, fun o ho => ?_⟩
  · rw [Run.result_eq_error_iff, Run.result_eq_error_iff, h.halted]
  · obtain ⟨hhalted, rfl⟩ := Run.result_eq_ok_iff.mp ho
    refine ⟨_, Run.result_eq_ok_iff.mpr ⟨h.halted.trans hhalted, rfl⟩, ?_⟩
    simp only [Output.diagnostics_settle, Output.isSuccess]
    refine ⟨congrArg (!·) h.hasErrors, ?_, h.errors, h.diagnostics⟩
    cases he : (Run.steps [] { compilation := k } (plan c.config root)).hasErrors with
    | true =>
      rw [Run.settle_of_hasErrors he, Run.settle_of_hasErrors (h.hasErrors.trans he)]
    | false =>
      rw [Run.settle_of_not_hasErrors he, Run.settle_of_not_hasErrors (h.hasErrors.trans he)]
      exact h.intermediate

namespace Sample

/-- A package group with a boundary among notes, and with a payload that has a foreign attribute. -/
def annotated : Element :=
  element "Wix" [] [
    element "Fragment" [("Id", "F")] [
      .node (tag "notes" "Note" []) [element "Fragment" [] []],
      element "PackageGroup" [("Id", "Tools")] [
        .node (tag "notes" "Note" []) [],
        element "RollbackBoundary" [("Id", "Safe")] []],
      element "PayloadGroup" [("Id", "Files")] [
        .node { tag coreNamespace "Payload" [] with
          attributes := [⟨.unqualified "Id", "Readme", ⟨0, 0⟩⟩,
            ⟨⟨some "notes", "color"⟩, "red", ⟨0, 0⟩⟩,
            ⟨.unqualified "SourceFile", "readme.txt", ⟨0, 0⟩⟩] } []]]]

end Sample

/-- A document has three warnings and two places in groups; without its notes there is no warning. -/
theorem compileAs_pruned_annotated :
    ∃ o o', (Compiler.compileAs {} 0 Sample.annotated).result = .ok o ∧
      (Compiler.compileAs {} 0 Sample.annotated.pruned).result = .ok o' ∧
      o.diagnostics.length = 3 ∧ o.intermediate.groups.length = 2 ∧
      o'.intermediate = o.intermediate ∧ o'.diagnostics = [] := by
  have h : (Compiler.compileAs {} 0 Sample.annotated).result = .ok _ := rfl
  obtain ⟨o', ho', -, hi, -, hd⟩ := (Compiler.compileAs_pruned rfl 0 (by decide +kernel)).2 _ h
  exact ⟨_, o', h, ho', by decide +kernel, by decide +kernel, hi, hd.trans (by decide +kernel)⟩

end Installer
