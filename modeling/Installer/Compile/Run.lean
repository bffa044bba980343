import Installer.Extension

/-! # Runs

The steps of a plan are run one by one. Once there is an error nothing more is added to the output;
the output of a run with an error is dropped as a whole in the end. Every call of a hook is
written down. -/

namespace Installer

/-- A call of a hook: what it was offered, what it saw and whether it handled the node. -/
structure Delivery where
  node : Offer
  context : Context
  seen : Observation
  handled : Bool

/-- The state of a compile with the number `compilation`. The units that are entered are kept from the
innermost one on. -/
structure Run where
  compilation : UInt32
  intermediate : Intermediate := {}
  diagnostics : List Diagnostic := []
  units : List ActiveUnit := []
  deliveries : List Delivery := []
  halted : Option Halt := none

namespace Run

/-- The unit that is compiled. -/
def active (r : Run) : Option ActiveUnit := r.units.head?

def hasErrors (r : Run) : Bool := Diagnostic.hasErrors r.diagnostics

def observation (r : Run) : Observation := ⟨r.hasErrors, r.active⟩

def report (r : Run) (d : Diagnostic) : Run := { r with diagnostics := r.diagnostics ++ [d] }

/-- Change the intermediate, unless there is an error. -/
def add (r : Run) (f : Intermediate → Intermediate) : Run :=
  if r.hasErrors then r else { r with intermediate := f r.intermediate }

/-- Define a symbol in the open section. -/
def emit (r : Run) (id : Identifier) (data : Symbol.Data) : Run :=
  if r.hasErrors then r
  else
    match r.active with
    | none => { r with halted := some .noSection }
    | some unit =>
      match r.intermediate.addSymbol? ⟨id, unit.index, data⟩ with
      | none => { r with halted := some .noSection }
      | some intermediate => { r with intermediate }

/-- Open a section and enter its unit. Sections are added whether there are errors or not. -/
def openUnit (r : Run) (header : UnitHeader) : Run :=
  { r with
    intermediate := r.intermediate.addSection ⟨header.id, header.kind, r.compilation⟩
    units := ⟨r.intermediate.sections.length, header⟩ :: r.units }

/-- Leave a unit. The one around it, if there is one, is compiled again. -/
def closeUnit (r : Run) : Run := { r with units := r.units.tail }

/-- Run the program of a hook for a node. -/
def runHook (node : Offer) : Run → Hook → Run × Bool
  | r, .done handled => (r, handled)
  | r, .report d next => runHook node (r.report d) next
  | r, .emit id definition fields next =>
    runHook node
      (match r.active with
      | none => r.report (node.misplaced id)
      | some _ => r.emit id (.extensionData definition fields)) next
  | r, .refer s next => runHook node (r.add (·.addReference s)) next
  | r, .group g next => runHook node (r.add (·.addGroup g)) next
  | r, .observe next => runHook node r (next r.observation)

/-- Offer a node to the extension for its namespace. -/
def offer (extensions : List Extension) (r : Run) (node : Offer) (context : Context) : Run :=
  match node.space?.bind (Extension.find? extensions) with
  | none => r.report node.unhandled
  | some extension =>
    let (after, handled) := runHook node r (extension.hook node context)
    let after := { after with
      deliveries := after.deliveries ++ [⟨node, context, r.observation, handled⟩] }
    if handled then after else after.report node.unhandled

/-- Run one step. -/
def step (extensions : List Extension) (r : Run) : Step → Run
  | .report d => r.report d
  | .openUnit header => r.openUnit header
  | .closeUnit => r.closeUnit
  | .emit id data => r.emit id data
  | .refer s => r.add (·.addReference s)
  | .group g => r.add (·.addGroup g)
  | .offer node context => r.offer extensions node context
  | .halt h => { r with halted := some h }

/-- Run steps until one of them halts. -/
def steps (extensions : List Extension) (r : Run) : List Step → Run
  | [] => r
  | s :: rest =>
    let r := r.step extensions s
    if r.halted.isSome then r else r.steps extensions rest

end Run

end Installer
