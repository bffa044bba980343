import Installer.Proofs.Scoping

/-! # Runs of scoped steps

A run whose steps are in their places never misses a section: it is `Run.Ready` for the next step, or
it was halted because of nesting. If there is no error in the end, then all calls on the way had
their effect (`Run.Records`), and hooks are called as `Run.events` lists them. -/

namespace Installer

open Compile

namespace Output

@[simp] theorem diagnostics_settle (o : Output) : o.settle.diagnostics = o.diagnostics := by
  unfold settle
  split_ifs <;> rfl

/-- The intermediate matters only if there is no error. -/
theorem settle_congr {x y : Output} (hd : x.diagnostics = y.diagnostics)
    (hi : Diagnostic.hasErrors x.diagnostics = false → x.intermediate = y.intermediate) :
    x.settle = y.settle := by
  obtain ⟨i, d⟩ := x
  obtain ⟨i', d'⟩ := y
  obtain rfl : d = d' := hd
  cases he : Diagnostic.hasErrors d with
  | true => simp [settle, isSuccess, he]
  | false => obtain rfl : i = i' := hi he; rfl

@[simp] theorem settle_settle (o : Output) : o.settle.settle = o.settle :=
  settle_congr (diagnostics_settle o) fun he => by
    rw [diagnostics_settle] at he
    simp [settle, isSuccess, he]

end Output

namespace Run

variable {r : Run} {a b : Bool} {s : Step} {l : List Step}

section Extends
variable (extensions : List Extension)

theorem step_extends_of_isOuter (hg : r.Grounded) (hs : s.isOuter) :
    r.Extends (r.step extensions s) := by
  cases s with
  | report d => exact .report r d
  | offer node context => exact offer_extends hg node context
  | halt h =>
    cases h with
    | tooDeep => exact ⟨rfl, rfl, rfl, List.prefix_refl _, .inr rfl⟩
    | _ => cases hs
  | _ => cases hs

theorem step_extends_of_isInner (hg : r.Grounded) (hu : r.active.isSome) (hs : s.isInner) :
    r.Extends (r.step extensions s) := by
  cases s with
  | emit id data => exact .emit hg hu id data
  | refer s => exact .refer r s
  | group g => exact .group r g
  | openUnit header => cases hs
  | closeUnit => cases hs
  | report d => exact step_extends_of_isOuter extensions hg rfl
  | offer node context => exact step_extends_of_isOuter extensions hg rfl
  | halt h =>
    cases h with
    | tooDeep => exact step_extends_of_isOuter extensions hg rfl
    | _ => cases hs

end Extends

/-! ### Being ready -/

/-- The state of a run that can go on, while a section is open or not. Sections are not nested. -/
structure Ready (b : Bool) (r : Run) : Prop where
  halted : r.halted = none
  grounded : r.Grounded
  units : r.units.length = b.toNat

theorem Ready.active (hr : r.Ready b) : r.active.isSome = b := by
  have h := hr.units
  unfold Run.active
  cases b with
  | false => simp [List.length_eq_zero_iff.mp h]
  | true =>
    obtain ⟨unit, hu⟩ := List.length_eq_one_iff.mp h
    simp [hu]

theorem ready_start (compilation : UInt32) : Ready false { compilation } :=
  ⟨rfl, by simp [Grounded, Run.active], rfl⟩

theorem Ready.of_extends {r' : Run} (hr : r.Ready b) (h : r.Extends r')
    (hh : r'.halted.isSome = false) : r'.Ready b :=
  ⟨by simpa using hh, h.grounded hr.grounded, h.units ▸ hr.units⟩

section Ready
variable (extensions : List Extension)

/-- A step that neither opens nor closes a section. -/
theorem Ready.extends (hr : r.Ready b) (hs : InPlace b s b) : r.Extends (r.step extensions s) := by
  cases hs with
  | inner hs => exact step_extends_of_isInner extensions hr.grounded hr.active hs
  | outer hs => exact step_extends_of_isOuter extensions hr.grounded hs

theorem Ready.openUnit (hr : r.Ready false) (header : UnitHeader) :
    (r.openUnit header).Ready true := by
  refine ⟨hr.halted, ?_, congrArg (· + 1) hr.units⟩
  intro unit hu
  simp only [Run.openUnit, Run.active, List.head?_cons, Option.some.injEq] at hu
  simp [Run.openUnit, Intermediate.addSection, ← hu]

/-- Once a section is closed none is open, also if others were opened before. -/
theorem Ready.closeUnit (hr : r.Ready true) : r.closeUnit.Ready false := by
  obtain ⟨unit, hu⟩ := List.length_eq_one_iff.mp hr.units
  have hnone : r.closeUnit.units = [] := by simp [Run.closeUnit, hu]
  exact ⟨hr.halted, fun unit hactive => by simp [Run.active, hnone] at hactive, by simp [hnone]⟩

/-- A step in its place leads to the next one, or halts because of nesting. -/
theorem Ready.step (hr : r.Ready a) (hs : InPlace a s b) :
    (r.step extensions s).halted = some .tooDeep ∨ (r.step extensions s).Ready b := by
  have of_extends (hab : a = b) : (r.step extensions s).halted = some .tooDeep ∨
      (r.step extensions s).Ready b := by
    subst hab
    have h := hr.extends extensions hs
    rcases h.halted with hh | hh
    · exact .inr (hr.of_extends h (by rw [hh, hr.halted]; rfl))
    · exact .inl hh
  cases hs with
  | inner hs => exact of_extends rfl
  | outer hs => exact of_extends rfl
  | opens header => exact .inr (hr.openUnit header)
  | closes => exact .inr hr.closeUnit

theorem Ready.compilation_step (hr : r.Ready a) (hs : InPlace a s b) :
    (r.step extensions s).compilation = r.compilation := by
  cases hs with
  | inner h => exact (hr.extends extensions (.inner h)).compilation
  | outer h => exact (hr.extends extensions (.outer h)).compilation
  | opens header => rfl
  | closes => rfl

/-- Steps in their places lead to the end, or one of them halts because of nesting. -/
theorem Ready.steps (hl : Scoped a l b) (hr : r.Ready a) :
    (r.steps extensions l).halted = some .tooDeep ∨ (r.steps extensions l).Ready b := by
  induction hl generalizing r with
  | nil => exact .inr hr
  | @cons a b c s l hs _ ih =>
    rw [steps_cons]
    rcases hr.step extensions hs with h | h
    · simp [h]
    · simp only [h.halted, Option.isSome_none, Bool.false_eq_true, ↓reduceIte]
      exact ih h

theorem Ready.compilation_steps (hl : Scoped a l b) (hr : r.Ready a) :
    (r.steps extensions l).compilation = r.compilation := by
  induction hl generalizing r with
  | nil => rfl
  | @cons a b c s l hs _ ih =>
    rw [steps_cons]
    rcases hr.step extensions hs with h | h
    · simpa [h] using hr.compilation_step extensions hs
    · simp only [h.halted, Option.isSome_none, Bool.false_eq_true, ↓reduceIte]
      rw [ih h, hr.compilation_step extensions hs]

end Ready

/-! ### What is left of the calls -/

end Run

/-- The symbol that a call is for, with the index of the open section. -/
def Event.symbol? (e : Event) : Option (Option Nat × Identifier × Symbol.Data) :=
  match e.call with
  | .symbol id data => some (e.active.map (·.index), id, data)
  | _ => none

/-- The reference that a call is for. -/
def Event.reference? (e : Event) : Option SymbolReference :=
  match e.call with
  | .reference r => some r
  | _ => none

/-- The group reference that a call is for. -/
def Event.group? (e : Event) : Option GroupReference :=
  match e.call with
  | .group r => some r
  | _ => none

/-- The node that a hook is called for, with the open section. -/
def Event.hook? (e : Event) : Option (Offer × Option ActiveUnit) :=
  match e.call with
  | .hook node => some (node, e.active)
  | _ => none

/-- A symbol as a call asks for it. -/
def Symbol.asked (s : Symbol) : Option Nat × Identifier × Symbol.Data :=
  (some s.sectionIndex, s.id, s.data)

/-- A call of a hook as an event. -/
def Delivery.hooked (d : Delivery) : Offer × Option ActiveUnit := (d.node, d.seen.active)

namespace Run

/-- The calls between two states of a run: if there is no error in the end, all of them
had their effect. -/
structure Records (r : Run) (es : List Event) (r' : Run) : Prop where
  diagnostics : r.diagnostics <+: r'.diagnostics
  symbols : r'.hasErrors = false → r'.intermediate.symbols.map Symbol.asked =
    r.intermediate.symbols.map Symbol.asked ++ es.filterMap Event.symbol?
  references : r'.hasErrors = false → r'.intermediate.references =
    r.intermediate.references ++ es.filterMap Event.reference?
  groups : r'.hasErrors = false → r'.intermediate.groups =
    r.intermediate.groups ++ es.filterMap Event.group?
  deliveries : r'.deliveries.map Delivery.hooked =
    r.deliveries.map Delivery.hooked ++ es.filterMap Event.hook?

/-- There is no error before if there is none after. -/
theorem not_hasErrors_of_later {r r' : Run} (h : r.diagnostics <+: r'.diagnostics)
    (he : r'.hasErrors = false) : r.hasErrors = false := by
  obtain ⟨ds, hd⟩ := h
  simp only [hasErrors, Diagnostic.hasErrors, ← hd, List.any_append, Bool.or_eq_false_iff] at he ⊢
  exact he.1

namespace Records

variable {r r' r'' : Run} {es es' : List Event}

theorem trans (h : r.Records es r') (h' : r'.Records es' r'') : r.Records (es ++ es') r'' where
  diagnostics := h.diagnostics.trans h'.diagnostics
  symbols he := by
    simp [h'.symbols he, h.symbols (not_hasErrors_of_later h'.diagnostics he)]
  references he := by
    simp [h'.references he, h.references (not_hasErrors_of_later h'.diagnostics he)]
  groups he := by
    simp [h'.groups he, h.groups (not_hasErrors_of_later h'.diagnostics he)]
  deliveries := by simp [h'.deliveries, h.deliveries]

/-- States that differ in the open section or in whether they are halted. -/
theorem of_eq (hd : r'.diagnostics = r.diagnostics) (hy : r'.intermediate.symbols =
    r.intermediate.symbols) (hr : r'.intermediate.references = r.intermediate.references)
    (hg : r'.intermediate.groups = r.intermediate.groups) (hv : r'.deliveries = r.deliveries) :
    r.Records [] r' := by
  refine ⟨?_, ?_, ?_, ?_, ?_⟩ <;> simp [hd, hy, hr, hg, hv]

theorem report (r : Run) (d : Diagnostic) : r.Records [] (r.report d) := by
  refine ⟨List.prefix_append _ _, ?_, ?_, ?_, ?_⟩ <;> simp [Run.report]

theorem refer (r : Run) (s : SymbolReference) :
    r.Records [⟨r.active, .reference s⟩] (r.add (·.addReference s)) := by
  unfold add
  split_ifs with he
  · refine ⟨List.prefix_refl _, ?_, ?_, ?_, ?_⟩ <;> simp [he, Event.hook?]
  · refine ⟨List.prefix_refl _, ?_, ?_, ?_, ?_⟩ <;>
      simp [Intermediate.addReference, Event.symbol?, Event.reference?, Event.group?, Event.hook?]

theorem group (r : Run) (g : GroupReference) :
    r.Records [⟨r.active, .group g⟩] (r.add (·.addGroup g)) := by
  unfold add
  split_ifs with he
  · refine ⟨List.prefix_refl _, ?_, ?_, ?_, ?_⟩ <;> simp [he, Event.hook?]
  · refine ⟨List.prefix_refl _, ?_, ?_, ?_, ?_⟩ <;>
      simp [Intermediate.addGroup, Event.symbol?, Event.reference?, Event.group?, Event.hook?]

theorem emit (hg : r.Grounded) (hu : r.active.isSome) (id : Identifier) (data : Symbol.Data) :
    r.Records [⟨r.active, .symbol id data⟩] (r.emit id data) := by
  obtain ⟨unit, hu⟩ := Option.isSome_iff_exists.mp hu
  rw [emit_of_active hg hu, hu]
  unfold add
  split_ifs with he
  · refine ⟨List.prefix_refl _, ?_, ?_, ?_, ?_⟩ <;> simp [he, Event.hook?]
  · refine ⟨List.prefix_refl _, ?_, ?_, ?_, ?_⟩ <;>
      simp [Symbol.asked, Event.symbol?, Event.reference?, Event.group?, Event.hook?]

end Records

theorem runHook_records (node : Offer) (hook : Hook) {r : Run} (hg : r.Grounded) :
    r.Records (r.hookEvents node hook) (r.runHook node hook).1 := by
  induction hook generalizing r with
  | done handled => exact .of_eq rfl rfl rfl rfl rfl
  | report d next ih => exact (Records.report r d).trans (ih hg)
  | emit id definition fields next ih =>
    rw [runHook, hookEvents]
    cases hu : r.active with
    | none => exact (Records.report r _).trans (ih hg)
    | some unit =>
      have hs : r.active.isSome := by simp [hu]
      have h := Records.emit hg hs id (.extensionData definition fields)
      rw [hu] at h
      exact h.trans (ih ((Extends.emit hg hs id _).grounded hg))
  | refer s next ih => exact (Records.refer r s).trans (ih ((Extends.refer r s).grounded hg))
  | group g next ih => exact (Records.group r g).trans (ih ((Extends.group r g).grounded hg))
  | observe next ih => exact ih _ hg

/-- A hook does not call hooks. -/
theorem hook?_hookEvents (node : Offer) (r : Run) (hook : Hook) :
    (r.hookEvents node hook).filterMap Event.hook? = [] := by
  induction hook generalizing r with
  | done handled => rfl
  | report d next ih => exact ih _
  | emit id definition fields next ih =>
    rw [hookEvents]
    split
    · exact ih _
    · rw [List.filterMap_cons_none rfl]
      exact ih _
  | refer s next ih => exact ih _
  | group g next ih => exact ih _
  | observe next ih => exact ih _ _

theorem offer_records (extensions : List Extension) {r : Run} (hg : r.Grounded) (node : Offer)
    (context : Context) : r.Records (r.stepEvents extensions (.offer node context))
      (r.offer extensions node context) := by
  simp only [stepEvents, offer]
  cases node.space?.bind (Extension.find? extensions) with
  | none => exact .report r _
  | some extension =>
    have h := runHook_records node (extension.hook node context) hg
    have hnone := hook?_hookEvents node r (extension.hook node context)
    dsimp only
    generalize r.runHook node (extension.hook node context) = result at h ⊢
    obtain ⟨after, handled⟩ := result
    -- the call is written down after the hook is done, but it was made before the calls of the hook
    have h' : r.Records (⟨r.active, .hook node⟩ :: r.hookEvents node (extension.hook node context))
        { after with
          deliveries := after.deliveries ++ [⟨node, context, r.observation, handled⟩] } := by
      refine ⟨h.diagnostics, h.symbols, h.references, h.groups, ?_⟩
      simp [h.deliveries, hnone, Delivery.hooked, Event.hook?, observation]
    split_ifs
    · exact h'
    · simpa using h'.trans (.report _ _)

theorem step_records (extensions : List Extension) {r : Run} {a b : Bool} {s : Step}
    (hr : r.Ready a) (hs : InPlace a s b) :
    r.Records (r.stepEvents extensions s) (r.step extensions s) := by
  cases s with
  | report d => exact .report r d
  | openUnit header => exact .of_eq rfl rfl rfl rfl rfl
  | closeUnit => exact .of_eq rfl rfl rfl rfl rfl
  | emit id data =>
    cases hs with
    | inner _ => exact .emit hr.grounded hr.active id data
    | outer h => cases h
  | refer s => exact .refer r s
  | group g => exact .group r g
  | offer node context => exact offer_records extensions hr.grounded node context
  | halt h => exact .of_eq rfl rfl rfl rfl rfl

/-- **The calls of a run are recorded.** -/
theorem steps_records (extensions : List Extension) {r : Run} {a b : Bool} {l : List Step}
    (hl : Scoped a l b) (hr : r.Ready a) :
    r.Records (r.events extensions l) (r.steps extensions l) := by
  induction hl generalizing r with
  | nil => exact .of_eq rfl rfl rfl rfl rfl
  | @cons a b c s l hs _ ih =>
    have h := step_records extensions hr hs
    rw [steps_cons, events]
    rcases hr.step extensions hs with hh | hh
    · simpa [hh] using h
    · simp only [hh.halted, Option.isSome_none, Bool.false_eq_true, ↓reduceIte]
      exact h.trans (ih hh)

/-! ### What comes of a run -/

theorem result_eq_ok_iff {r : Run} {o : Output} : r.outcome.result = .ok o ↔
    r.halted = none ∧ Output.settle ⟨r.intermediate, r.diagnostics⟩ = o := by
  unfold outcome
  cases r.halted <;> simp

theorem result_eq_error_iff {r : Run} {h : Halt} :
    r.outcome.result = .error h ↔ r.halted = some h := by
  unfold outcome
  cases r.halted <;> simp

theorem settle_of_hasErrors {r : Run} (h : r.hasErrors = true) :
    Output.settle ⟨r.intermediate, r.diagnostics⟩ = ⟨{}, r.diagnostics⟩ := by
  unfold hasErrors at h
  simp [Output.settle, Output.isSuccess, h]

theorem settle_of_not_hasErrors {r : Run} (h : r.hasErrors = false) :
    Output.settle ⟨r.intermediate, r.diagnostics⟩ = ⟨r.intermediate, r.diagnostics⟩ := by
  unfold hasErrors at h
  simp [Output.settle, Output.isSuccess, h]

end Run

/-- A compile gives up only because of nesting. -/
theorem Compiler.result_ok_or_tooDeep (c : Compiler) (k : UInt32) (root : Element) :
    (∃ o, (c.compileAs k root).result = .ok o) ∨
      (c.compileAs k root).result = .error .tooDeep := by
  rcases (Run.ready_start k).steps c.extensions (scoped_plan c.config root) with h | h
  · exact .inr (Run.result_eq_error_iff.mpr h)
  · exact .inl ⟨_, Run.result_eq_ok_iff.mpr ⟨h.halted, rfl⟩⟩

/-- The calls on the way of a compile. -/
def Compiler.calls (c : Compiler) (root : Element) : List Event :=
  Run.events c.extensions { compilation := c.next } (plan c.config root)

/-! ### A document with a note -/

namespace Sample

/-- The tag of an element, without its place in a text. -/
def tag (space name : String) (attributes : List (String × String)) : Tag where
  number := 0
  qname := ⟨some space, name⟩
  range := ⟨0, 0⟩
  attributes := attributes.map fun a => ⟨.unqualified a.1, a.2, ⟨0, 0⟩⟩
  text := ""

/-- A core element. -/
def element (name : String) (attributes : List (String × String)) (children : List Element) :
    Element :=
  .node (tag coreNamespace name attributes) children

/-- A fragment with a property and a foreign note. -/
def note : Element :=
  element "Wix" [] [
    element "Fragment" [("Id", "F")] [
      element "Property" [("Id", "P"), ("Value", "v")] [],
      .node (tag "notes" "Note" []) []]]

/-- A compiler with an extension that defines a symbol for each note and refers to a property. -/
def notingCompiler : Compiler where
  extensions := [⟨"notes", fun _ _ =>
    .emit (.ofName "N") "Note" .empty (.refer ⟨.property, "P"⟩ (.done true))⟩]

end Sample

end Installer
