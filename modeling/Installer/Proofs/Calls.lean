import Installer.Compiler
import Mathlib.Tactic.Common

/-! # The calls of a run

While a plan is run, rules and hooks call for symbols, references and group references, and hooks are
called. `Run.events` lists these calls in order, each with the section that is open when it is made,
whether the call has an effect or is held back because of an error. `Run.Extends` says what stays as
it is while no section is opened or closed. -/

namespace Installer

/-- A call that is made while a plan is run. -/
inductive Call where
  | symbol (id : Identifier) (data : Symbol.Data)
  | reference (r : SymbolReference)
  | group (r : GroupReference)
  | hook (node : Offer)

/-- A call, with the section that is open when it is made. -/
structure Event where
  active : Option ActiveUnit
  call : Call

namespace Run

/-- The calls that the program of a hook makes. It cannot define a symbol where there is no section. -/
def hookEvents (node : Offer) : Run → Hook → List Event
  | _, .done _ => []
  | r, .report d next => hookEvents node (r.report d) next
  | r, .emit id definition fields next =>
    match r.active with
    | none => hookEvents node (r.report (node.misplaced id)) next
    | some _ =>
      ⟨r.active, .symbol id (.extensionData definition fields)⟩ ::
        hookEvents node (r.emit id (.extensionData definition fields)) next
  | r, .refer s next => ⟨r.active, .reference s⟩ :: hookEvents node (r.add (·.addReference s)) next
  | r, .group g next => ⟨r.active, .group g⟩ :: hookEvents node (r.add (·.addGroup g)) next
  | r, .observe next => hookEvents node r (next r.observation)

/-- The calls of one step. -/
def stepEvents (extensions : List Extension) (r : Run) : Step → List Event
  | .emit id data => [⟨r.active, .symbol id data⟩]
  | .refer s => [⟨r.active, .reference s⟩]
  | .group g => [⟨r.active, .group g⟩]
  | .offer node context =>
    match node.space?.bind (Extension.find? extensions) with
    | none => []
    | some extension => ⟨r.active, .hook node⟩ :: hookEvents node r (extension.hook node context)
  | .report _ | .openUnit _ | .closeUnit | .halt _ => []

/-- The calls of steps that are run until one of them halts. -/
def events (extensions : List Extension) (r : Run) : List Step → List Event
  | [] => []
  | s :: rest =>
    r.stepEvents extensions s ++
      if (r.step extensions s).halted.isSome then [] else (r.step extensions s).events extensions rest

/-! ### Steps one after another -/

variable {extensions : List Extension}

theorem steps_cons (r : Run) (s : Step) (l : List Step) :
    r.steps extensions (s :: l) =
      if (r.step extensions s).halted.isSome then r.step extensions s
      else (r.step extensions s).steps extensions l := rfl

theorem steps_append {r : Run} (h : r.halted = none) (l l' : List Step) :
    r.steps extensions (l ++ l') =
      if (r.steps extensions l).halted.isSome then r.steps extensions l
      else (r.steps extensions l).steps extensions l' := by
  induction l generalizing r with
  | nil => simp [steps, h]
  | cons s l ih =>
    rw [List.cons_append, steps_cons, steps_cons]
    by_cases hs : (r.step extensions s).halted.isSome
    · simp [hs]
    · simp only [hs, Bool.false_eq_true, ↓reduceIte]
      exact ih (by simpa using hs)

theorem events_append {r : Run} (h : r.halted = none) (l l' : List Step) :
    r.events extensions (l ++ l') =
      r.events extensions l ++
        if (r.steps extensions l).halted.isSome then []
        else (r.steps extensions l).events extensions l' := by
  induction l generalizing r with
  | nil => simp [steps, events, h]
  | cons s l ih =>
    rw [List.cons_append, events, events, steps_cons]
    by_cases hs : (r.step extensions s).halted.isSome
    · simp [hs]
    · simp only [hs, Bool.false_eq_true, ↓reduceIte, List.append_assoc]
      rw [ih (by simpa using hs)]

/-- Findings do nothing but being reported. -/
theorem steps_reports {r : Run} (h : r.halted = none) (ds : List Diagnostic) (l : List Step) :
    r.steps extensions (ds.map .report ++ l) =
      { r with diagnostics := r.diagnostics ++ ds }.steps extensions l := by
  induction ds generalizing r with
  | nil => simp
  | cons d ds ih =>
    have hd : (r.report d).halted = none := h
    rw [List.map_cons, List.cons_append, steps_cons]
    simp only [step, hd, Option.isSome_none, Bool.false_eq_true, ↓reduceIte]
    rw [ih hd]
    simp [report]

theorem events_reports {r : Run} (h : r.halted = none) (ds : List Diagnostic) (l : List Step) :
    r.events extensions (ds.map .report ++ l) =
      { r with diagnostics := r.diagnostics ++ ds }.events extensions l := by
  induction ds generalizing r with
  | nil => simp
  | cons d ds ih =>
    have hd : (r.report d).halted = none := h
    rw [List.map_cons, List.cons_append, events]
    simp only [step, stepEvents, hd, Option.isSome_none, Bool.false_eq_true, ↓reduceIte,
      List.nil_append]
    rw [ih hd]
    simp [report]

/-- Steps that every run takes alike, with the same calls. -/
structure Alike (l l' : List Step) : Prop where
  steps : ∀ (extensions : List Extension) (r : Run), r.halted = none →
    r.steps extensions l = r.steps extensions l'
  events : ∀ (extensions : List Extension) (r : Run), r.halted = none →
    r.events extensions l = r.events extensions l'

theorem Alike.refl (l : List Step) : Alike l l := ⟨fun _ _ _ => rfl, fun _ _ _ => rfl⟩

/-- What would come after a halt does not matter. -/
theorem Alike.halt (h : Halt) (l l' : List Step) : Alike (.halt h :: l) (.halt h :: l') :=
  ⟨fun _ _ _ => by simp [steps_cons, step], fun _ _ _ => by simp [Run.events, step]⟩

theorem Alike.append {l₁ l₂ : List Step} (h : Alike l₁ l₂) (l : List Step) :
    Alike (l ++ l₁) (l ++ l₂) where
  steps := by
    intro extensions r hr
    rw [steps_append hr, steps_append hr]
    split_ifs with hs
    · rfl
    · exact h.steps extensions _ (by simpa using hs)
  events := by
    intro extensions r hr
    rw [events_append hr, events_append hr]
    split_ifs with hs
    · rfl
    · rw [h.events extensions _ (by simpa using hs)]

/-! ### Adding to the intermediate -/

section add
variable (r : Run) (f : Intermediate → Intermediate)

theorem add_of_not_hasErrors {r : Run} (h : r.hasErrors = false) :
    r.add f = { r with intermediate := f r.intermediate } := by
  simp [add, h]

@[simp] theorem compilation_add : (r.add f).compilation = r.compilation := by
  unfold add; split_ifs <;> rfl

@[simp] theorem diagnostics_add : (r.add f).diagnostics = r.diagnostics := by
  unfold add; split_ifs <;> rfl

@[simp] theorem units_add : (r.add f).units = r.units := by
  unfold add; split_ifs <;> rfl

@[simp] theorem deliveries_add : (r.add f).deliveries = r.deliveries := by
  unfold add; split_ifs <;> rfl

@[simp] theorem halted_add : (r.add f).halted = r.halted := by
  unfold add; split_ifs <;> rfl

/-- Adding something else than sections. -/
theorem sections_add {f : Intermediate → Intermediate} (hf : ∀ x, (f x).sections = x.sections) :
    (r.add f).intermediate.sections = r.intermediate.sections := by
  unfold add
  split_ifs
  · rfl
  · exact hf _

end add

/-! ### Running inside of a section -/

/-- The open section is one of those that were added. -/
def Grounded (r : Run) : Prop :=
  ∀ unit, r.active = some unit → unit.index < r.intermediate.sections.length

/-- A later state of a run in which no section was opened or closed. It may have been halted because
of nesting, but for no other reason. -/
structure Extends (r r' : Run) : Prop where
  compilation : r'.compilation = r.compilation
  units : r'.units = r.units
  sections : r'.intermediate.sections = r.intermediate.sections
  diagnostics : r.diagnostics <+: r'.diagnostics
  halted : r'.halted = r.halted ∨ r'.halted = some .tooDeep

namespace Extends

variable {r r' r'' : Run}

theorem refl (r : Run) : r.Extends r := ⟨rfl, rfl, rfl, List.prefix_refl _, .inl rfl⟩

theorem active (h : r.Extends r') : r'.active = r.active := congrArg List.head? h.units

theorem trans (h : r.Extends r') (h' : r'.Extends r'') : r.Extends r'' where
  compilation := h'.compilation.trans h.compilation
  units := h'.units.trans h.units
  sections := h'.sections.trans h.sections
  diagnostics := h.diagnostics.trans h'.diagnostics
  halted := by
    rcases h'.halted with h' | h'
    · rw [h']; exact h.halted
    · exact .inr h'

theorem grounded (h : r.Extends r') (hg : r.Grounded) : r'.Grounded := by
  intro unit hu
  rw [h.sections]
  exact hg unit (h.active ▸ hu)

theorem report (r : Run) (d : Diagnostic) : r.Extends (r.report d) :=
  ⟨rfl, rfl, rfl, List.prefix_append _ _, .inl rfl⟩

theorem add (r : Run) {f : Intermediate → Intermediate} (hf : ∀ x, (f x).sections = x.sections) :
    r.Extends (r.add f) :=
  ⟨by simp, by simp, sections_add r hf, by simp, .inl (by simp)⟩

theorem refer (r : Run) (s : SymbolReference) : r.Extends (r.add (·.addReference s)) :=
  .add r fun _ => rfl

theorem group (r : Run) (g : GroupReference) : r.Extends (r.add (·.addGroup g)) :=
  .add r fun _ => rfl

end Extends

/-- Defining a symbol in an open section adds it, unless there is an error. -/
theorem emit_of_active {r : Run} {unit : ActiveUnit} (hg : r.Grounded) (hu : r.active = some unit)
    (id : Identifier) (data : Symbol.Data) :
    r.emit id data = r.add fun x => { x with symbols := x.symbols ++ [⟨id, unit.index, data⟩] } := by
  simp [emit, add, hu, Intermediate.addSymbol?, hg unit hu]

theorem Extends.emit {r : Run} (hg : r.Grounded) (hu : r.active.isSome) (id : Identifier)
    (data : Symbol.Data) : r.Extends (r.emit id data) := by
  obtain ⟨unit, hu⟩ := Option.isSome_iff_exists.mp hu
  rw [emit_of_active hg hu]
  exact .add r fun _ => rfl

theorem runHook_extends (node : Offer) {r : Run} (hg : r.Grounded) (hook : Hook) :
    r.Extends (r.runHook node hook).1 := by
  induction hook generalizing r with
  | done handled => exact .refl r
  | report d next ih => exact (Extends.report r d).trans (ih hg)
  | emit id definition fields next ih =>
    rw [runHook]
    cases hu : r.active with
    | none => exact (Extends.report r _).trans (ih hg)
    | some unit =>
      have h := Extends.emit hg (by simp [hu]) id (.extensionData definition fields)
      exact h.trans (ih (h.grounded hg))
  | refer s next ih => exact (Extends.refer r s).trans (ih ((Extends.refer r s).grounded hg))
  | group g next ih => exact (Extends.group r g).trans (ih ((Extends.group r g).grounded hg))
  | observe next ih => exact ih _ hg

theorem offer_extends {r : Run} (hg : r.Grounded) (node : Offer) (context : Context) :
    r.Extends (r.offer extensions node context) := by
  unfold offer
  split
  · exact .report r _
  · next extension _ =>
    have h := runHook_extends node hg (extension.hook node context)
    have h' : r.Extends { (r.runHook node (extension.hook node context)).1 with
        deliveries := (r.runHook node (extension.hook node context)).1.deliveries ++
          [⟨node, context, r.observation, (r.runHook node (extension.hook node context)).2⟩] } :=
      ⟨h.compilation, h.units, h.sections, h.diagnostics, h.halted⟩
    dsimp only
    split_ifs
    · exact h'
    · exact h'.trans (.report _ _)

end Run

end Installer
