import Installer.Compile.Plan
import Installer.Compile.Run

/-! # The compiler

A compiler turns documents into intermediates. Each document that it starts to compile gets the next
number; these numbers have 32 bits and start again after the last one. A compile fails only if elements
are nested too deeply; other errors are among the diagnostics of its output, and the intermediate is
then empty. -/

namespace Installer

/-- The result of a compile. -/
structure Output where
  intermediate : Intermediate := {}
  diagnostics : List Diagnostic := []

namespace Output

def isSuccess (o : Output) : Bool := !Diagnostic.hasErrors o.diagnostics

/-- The output with an empty intermediate if there is an error. -/
def settle (o : Output) : Output := if o.isSuccess then o else { o with intermediate := {} }

/-- Everything of `x`, then everything of `y`. -/
def append (x y : Output) : Output where
  intermediate := x.intermediate.append y.intermediate
  diagnostics := x.diagnostics ++ y.diagnostics

/-- The message about a compile with errors. -/
def failureMessage (o : Output) : String :=
  "compile failed with " ++ toString (Diagnostic.count .error o.diagnostics) ++ " errors"

end Output

/-- What came of a compile, with the calls of hooks on the way. -/
structure Outcome where
  result : Except Halt Output
  deliveries : List Delivery

/-- The outcome of a run that is over. -/
def Run.outcome (r : Run) : Outcome where
  result :=
    match r.halted with
    | some h => .error h
    | none => .ok (Output.settle ⟨r.intermediate, r.diagnostics⟩)
  deliveries := r.deliveries

/-- A compiler: its settings, its extensions and the number of the next compile. -/
structure Compiler where
  config : Config := {}
  extensions : List Extension := []
  next : UInt32 := 0

namespace Compiler

/-- Compile one document with the given number. -/
def compileAs (c : Compiler) (compilation : UInt32) (root : Element) : Outcome :=
  (Run.steps c.extensions { compilation } (Compile.plan c.config root)).outcome

/-- Compile one document, given by its document element. A document without one, whose output would be
empty, cannot be expressed here. -/
def compile (c : Compiler) (root : Element) : Outcome × Compiler :=
  (c.compileAs c.next root, { c with next := c.next + 1 })

/-- Compile documents and put their outputs together in order. -/
def compileEach (c : Compiler) : List Element → Outcome × Compiler
  | [] => (⟨.ok {}, []⟩, c)
  | root :: roots =>
    let (first, c) := c.compile root
    match first.result with
    | .error h => (⟨.error h, first.deliveries⟩, c)
    | .ok output =>
      let (rest, c) := c.compileEach roots
      (⟨rest.result.map output.append, first.deliveries ++ rest.deliveries⟩, c)

/-- Compile documents together. An error in one of them empties the intermediate of all. -/
def compileAll (c : Compiler) (roots : List Element) : Outcome × Compiler :=
  let (outcome, c) := c.compileEach roots
  ({ outcome with result := outcome.result.map (·.settle) }, c)

end Compiler

end Installer
