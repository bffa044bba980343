import Installer.Proofs.Runs

/-! # The gate

Once there is an error a run adds nothing more to its output, and the output is dropped in the end. A
compile that always adds everything and only drops the output in the end (`Compiler.compileUngated`)
gives the same: the two runs agree in all but the intermediate, and in the intermediate as long as
there is no error (`Run.Matches`). -/

namespace Installer

open Compile

namespace Run

/-! ### Runs without the gate -/

/-- Change the intermediate, also if there is an error. -/
def addAlways (r : Run) (f : Intermediate → Intermediate) : Run :=
  { r with intermediate := f r.intermediate }

/-- Define a symbol in the open section, also if there is an error. -/
def emitAlways (r : Run) (id : Identifier) (data : Symbol.Data) : Run :=
  match r.active with
  | none => { r with halted := some .noSection }
  | some unit =>
    match r.intermediate.addSymbol? ⟨id, unit.index, data⟩ with
    | none => { r with halted := some .noSection }
    | some intermediate => { r with intermediate }

/-- Run the program of a hook without the gate. -/
def runHookAlways (node : Offer) : Run → Hook → Run × Bool
  | r, .done handled => (r, handled)
  | r, .report d next => runHookAlways node (r.report d) next
  | r, .emit id definition fields next =>
    runHookAlways node
      (match r.active with
      | none => r.report (node.misplaced id)
      | some _ => r.emitAlways id (.extensionData definition fields)) next
  | r, .refer s next => runHookAlways node (r.addAlways (·.addReference s)) next
  | r, .group g next => runHookAlways node (r.addAlways (·.addGroup g)) next
  | r, .observe next => runHookAlways node r (next r.observation)

/-- Offer a node to the extension for its namespace, without the gate. -/
def offerAlways (extensions : List Extension) (r : Run) (node : Offer) (context : Context) : Run :=
  match node.space?.bind (Extension.find? extensions) with
  | none => r.report node.unhandled
  | some extension =>
    let (after, handled) := runHookAlways node r (extension.hook node context)
    let after := { after with
      deliveries := after.deliveries ++ [⟨node, context, r.observation, handled⟩] }
    if handled then after else after.report node.unhandled

/-- Run one step without the gate. -/
def stepAlways (extensions : List Extension) (r : Run) : Step → Run
  | .report d => r.report d
  | .openUnit header => r.openUnit header
  | .closeUnit => r.closeUnit
  | .emit id data => r.emitAlways id data
  | .refer s => r.addAlways (·.addReference s)
  | .group g => r.addAlways (·.addGroup g)
  | .offer node context => r.offerAlways extensions node context
  | .halt h => { r with halted := some h }

/-- Run steps without the gate until one of them halts. -/
def stepsAlways (extensions : List Extension) (r : Run) : List Step → Run
  | [] => r
  | s :: rest =>
    let r := r.stepAlways extensions s
    if r.halted.isSome then r else r.stepsAlways extensions rest

/-! ### The two runs agree -/

/-- A run without the gate that agrees with a run: also in the intermediate if there is no error. -/
structure Matches (r u : Run) : Prop where
  compilation : u.compilation = r.compilation
  diagnostics : u.diagnostics = r.diagnostics
  units : u.units = r.units
  deliveries : u.deliveries = r.deliveries
  halted : u.halted = r.halted
  sections : u.intermediate.sections = r.intermediate.sections
  intermediate : r.hasErrors = false → u.intermediate = r.intermediate

namespace Matches

variable {r u : Run}

theorem refl (r : Run) : r.Matches r := ⟨rfl, rfl, rfl, rfl, rfl, rfl, fun _ => rfl⟩

theorem active (h : r.Matches u) : u.active = r.active := congrArg List.head? h.units

theorem observation (h : r.Matches u) : u.observation = r.observation := by
  simp [Run.observation, hasErrors, h.diagnostics, h.active]

theorem report (h : r.Matches u) (d : Diagnostic) : (r.report d).Matches (u.report d) where
  compilation := h.compilation
  diagnostics := congrArg (· ++ [d]) h.diagnostics
  units := h.units
  deliveries := h.deliveries
  halted := h.halted
  sections := h.sections
  intermediate := fun he => h.intermediate (not_hasErrors_of_later (List.prefix_append _ _) he)

theorem add (h : r.Matches u) {f : Intermediate → Intermediate}
    (hf : ∀ x, (f x).sections = x.sections) : (r.add f).Matches (u.addAlways f) := by
  have hs : (f u.intermediate).sections = r.intermediate.sections := (hf _).trans h.sections
  unfold Run.add
  split_ifs with he
  · refine ⟨h.compilation, h.diagnostics, h.units, h.deliveries, h.halted, hs, ?_⟩
    simp [he]
  · refine ⟨h.compilation, h.diagnostics, h.units, h.deliveries, h.halted, ?_, fun he => ?_⟩
    · exact hs.trans (hf _).symm
    · exact congrArg f (h.intermediate he)

theorem refer (h : r.Matches u) (s : SymbolReference) :
    (r.add (·.addReference s)).Matches (u.addAlways (·.addReference s)) :=
  h.add fun _ => rfl

theorem group (h : r.Matches u) (g : GroupReference) :
    (r.add (·.addGroup g)).Matches (u.addAlways (·.addGroup g)) :=
  h.add fun _ => rfl

theorem emit (h : r.Matches u) (hg : r.Grounded) (hu : r.active.isSome) (id : Identifier)
    (data : Symbol.Data) : (r.emit id data).Matches (u.emitAlways id data) := by
  obtain ⟨unit, hu⟩ := Option.isSome_iff_exists.mp hu
  have hin : unit.index < u.intermediate.sections.length := h.sections ▸ hg unit hu
  have hemit : u.emitAlways id data =
      u.addAlways fun x => { x with symbols := x.symbols ++ [⟨id, unit.index, data⟩] } := by
    simp [emitAlways, addAlways, h.active, hu, Intermediate.addSymbol?, hin]
  rw [emit_of_active hg hu, hemit]
  exact h.add fun _ => rfl

theorem runHook (h : r.Matches u) (hg : r.Grounded) (node : Offer) (hook : Hook) :
    (r.runHook node hook).1.Matches (u.runHookAlways node hook).1 ∧
      (u.runHookAlways node hook).2 = (r.runHook node hook).2 := by
  induction hook generalizing r u with
  | done handled => exact ⟨h, rfl⟩
  | report d next ih => exact ih (h.report d) hg
  | emit id definition fields next ih =>
    rw [Run.runHook, runHookAlways, h.active]
    cases hu : r.active with
    | none => exact ih (h.report _) hg
    | some unit =>
      have hs : r.active.isSome := by simp [hu]
      exact ih (h.emit hg hs id _) ((Extends.emit hg hs id _).grounded hg)
  | refer s next ih => exact ih (h.refer s) ((Extends.refer r s).grounded hg)
  | group g next ih => exact ih (h.group g) ((Extends.group r g).grounded hg)
  | observe next ih =>
    rw [Run.runHook, runHookAlways, h.observation]
    exact ih _ h hg

theorem offer (h : r.Matches u) (hg : r.Grounded) (extensions : List Extension) (node : Offer)
    (context : Context) :
    (r.offer extensions node context).Matches (u.offerAlways extensions node context) := by
  unfold Run.offer offerAlways
  cases node.space?.bind (Extension.find? extensions) with
  | none => exact h.report _
  | some extension =>
    obtain ⟨h', hhandled⟩ := h.runHook hg node (extension.hook node context)
    dsimp only
    rw [hhandled, h.observation]
    have hd : ∀ d : Delivery,
        Matches { (r.runHook node (extension.hook node context)).1 with
          deliveries := (r.runHook node (extension.hook node context)).1.deliveries ++ [d] }
        { (u.runHookAlways node (extension.hook node context)).1 with
          deliveries := (u.runHookAlways node (extension.hook node context)).1.deliveries ++ [d] } :=
      fun d => ⟨h'.compilation, h'.diagnostics, h'.units, congrArg (· ++ [d]) h'.deliveries,
        h'.halted, h'.sections, h'.intermediate⟩
    split_ifs
    · exact hd _
    · exact (hd _).report _

theorem openUnit (h : r.Matches u) (header : UnitHeader) :
    (r.openUnit header).Matches (u.openUnit header) where
  compilation := h.compilation
  diagnostics := h.diagnostics
  units := by simp [Run.openUnit, h.units, h.sections]
  deliveries := h.deliveries
  halted := h.halted
  sections := by simp [Run.openUnit, Intermediate.addSection, h.sections, h.compilation]
  intermediate := fun he => by simp [Run.openUnit, h.compilation, h.intermediate he]

/-- One step keeps the two runs in agreement. -/
theorem step (h : r.Matches u) (extensions : List Extension) {a b : Bool} {s : Step}
    (hr : r.Ready a) (hs : InPlace a s b) :
    (r.step extensions s).Matches (u.stepAlways extensions s) := by
  cases s with
  | report d => exact h.report d
  | openUnit header => exact h.openUnit header
  | closeUnit =>
    exact ⟨h.compilation, h.diagnostics, congrArg List.tail h.units, h.deliveries, h.halted, h.sections,
      h.intermediate⟩
  | emit id data =>
    cases hs with
    | inner _ => exact h.emit hr.grounded hr.active id data
    | outer hs => cases hs
  | refer s => exact h.refer s
  | group g => exact h.group g
  | offer node context => exact h.offer hr.grounded extensions node context
  | halt reason =>
    exact ⟨h.compilation, h.diagnostics, h.units, h.deliveries, rfl, h.sections, h.intermediate⟩

theorem steps (extensions : List Extension) {a b : Bool} {l : List Step} (hl : Scoped a l b)
    (hr : r.Ready a) (h : r.Matches u) :
    (r.steps extensions l).Matches (u.stepsAlways extensions l) := by
  induction hl generalizing r u with
  | nil => exact h
  | @cons a b c s l hs _ ih =>
    have h' := h.step extensions hr hs
    rw [steps_cons, stepsAlways]
    simp only [h'.halted]
    rcases hr.step extensions hs with hh | hh
    · simpa [hh] using h'
    · simp only [hh.halted, Option.isSome_none, Bool.false_eq_true, ↓reduceIte]
      exact ih hh h'

/-- The output is dropped if there is an error, so that it does not matter what was added then. -/
theorem outcome (h : r.Matches u) : u.outcome = r.outcome := by
  have hs : Output.settle ⟨u.intermediate, u.diagnostics⟩ =
      Output.settle ⟨r.intermediate, r.diagnostics⟩ :=
    Output.settle_congr h.diagnostics fun he => h.intermediate (by rwa [hasErrors, ← h.diagnostics])
  unfold Run.outcome
  rw [h.halted, h.deliveries, hs]

end Matches

end Run

/-- An output without an error in which everything is there that was called for, in order. -/
structure Output.Complete (o : Output) (calls : List Event) : Prop where
  noErrors : Diagnostic.hasErrors o.diagnostics = false
  symbols : o.intermediate.symbols.map Symbol.asked = calls.filterMap Event.symbol?
  references : o.intermediate.references = calls.filterMap Event.reference?
  groups : o.intermediate.groups = calls.filterMap Event.group?

/-- An output with an error and nothing else. -/
structure Output.Dropped (o : Output) : Prop where
  hasErrors : Diagnostic.hasErrors o.diagnostics = true
  intermediate : o.intermediate = {}

namespace Compiler

/-- Compile one document without the gate. -/
def compileUngated (c : Compiler) (root : Element) : Outcome × Compiler :=
  ((Run.stepsAlways c.extensions { compilation := c.next } (plan c.config root)).outcome,
    { c with next := c.next + 1 })

theorem compile_eq_compileUngated (c : Compiler) (root : Element) :
    c.compile root = c.compileUngated root := by
  have h := Run.Matches.steps c.extensions (scoped_plan c.config root) (Run.ready_start c.next)
    (.refl _)
  rw [compileUngated, h.outcome]
  rfl

/-- **No call is lost.** If a compile gives an output, then either there is no error, and all
symbols and references that were called for on the way are there in order, or there is one and
the intermediate is empty. It is the same output as without the gate. -/
theorem compile_complete_xor_dropped (c : Compiler) (root : Element) :
    c.compile root = c.compileUngated root ∧
    ∀ o, (c.compile root).1.result = .ok o → Xor (o.Complete (c.calls root)) o.Dropped := by
  refine ⟨compile_eq_compileUngated c root, fun o ho => ?_⟩
  have hrec := Run.steps_records c.extensions (scoped_plan c.config root) (Run.ready_start c.next)
  obtain ⟨-, rfl⟩ := Run.result_eq_ok_iff.mp ho
  cases he : (Run.steps c.extensions { compilation := c.next } (plan c.config root)).hasErrors with
  | false =>
    rw [Run.settle_of_not_hasErrors he]
    exact .inl ⟨⟨he, hrec.symbols he, hrec.references he, hrec.groups he⟩,
      fun h => absurd (h.hasErrors.symm.trans he) (by decide)⟩
  | true =>
    rw [Run.settle_of_hasErrors he]
    exact .inr ⟨⟨he, rfl⟩, fun h => absurd (h.noErrors.symm.trans he) (by decide)⟩

end Compiler

/-- The symbols of the property and of the note are there. -/
theorem compile_complete_xor_dropped_note :
    ∃ o, (Sample.notingCompiler.compile Sample.note).1.result = .ok o ∧
      o.intermediate.symbols.map (·.id.id) = ["P", "N"] ∧
      Xor (o.Complete (Sample.notingCompiler.calls Sample.note)) o.Dropped :=
  ⟨_, rfl, by decide +kernel, (Compiler.compile_complete_xor_dropped _ _).2 _ rfl⟩

end Installer
