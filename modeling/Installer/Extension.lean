import Installer.Compile.Finding
import Installer.Compile.Step

/-! # Extensions

An extension owns a namespace. The foreign attributes and elements of its namespace are offered to its
hook, which answers with a program of calls (`Hook`): it may report diagnostics, define symbols, add
references and look at the state of the compile, and in the end it says whether it handled the
node. -/

namespace Installer

/-- The section that is being compiled, by its index. -/
structure ActiveUnit where
  index : Nat
  header : UnitHeader
  deriving DecidableEq, Repr

/-- What a hook can see of the state of the compile. -/
structure Observation where
  hasErrors : Bool
  active : Option ActiveUnit
  deriving DecidableEq, Repr

/-- A program of calls that a hook makes. -/
inductive Hook where
  | done (handled : Bool)
  | report (d : Diagnostic) (next : Hook)
  | emit (id : Identifier) (definition : String) (fields : Symbol.Fields) (next : Hook)
  | refer (r : SymbolReference) (next : Hook)
  | group (r : GroupReference) (next : Hook)
  | observe (next : Observation → Hook)

/-- An extension: its namespace and its hook. -/
structure Extension where
  space : String
  hook : Offer → Context → Hook

namespace Extension

/-- An extension that handles nothing. -/
def silent (space : String) : Extension := ⟨space, fun _ _ => .done false⟩

/-- The extension for a namespace: the one that was registered last. -/
def find? (extensions : List Extension) (space : String) : Option Extension :=
  extensions.reverse.find? (·.space == space)

end Extension

namespace Offer

/-- The namespace of a node. -/
def space? : Offer → Option String
  | ofAttribute _ a => a.qname.space
  | ofElement _ child => child.element.qname.space

def range : Offer → TextRange
  | ofAttribute _ a => a.range
  | ofElement _ child => child.element.range

/-- The element whose attribute or child the node is. -/
def owner : Offer → Element
  | ofAttribute owner _ => owner.element
  | ofElement parent _ => parent.element

/-- The element that the hook works on: the node itself, or the element around an attribute. -/
def subject : Offer → Site
  | ofAttribute owner _ => owner
  | ofElement _ child => child

/-- The name of a node without its namespace. -/
def name : Offer → String
  | ofAttribute _ a => a.name
  | ofElement _ child => child.element.name

/-- The warning that nothing handled a node. -/
def unhandled : Offer → Diagnostic
  | ofAttribute owner a => owner.element.unhandledAttribute a
  | ofElement parent child => parent.element.unhandledElement child.element

/-- A node as messages name it, with the element around it. -/
def text : Offer → String
  | ofAttribute owner a => owner.element.qualify a.qname.text
  | ofElement parent child => parent.element.qualifyChild child.element.qname.text

/-- The error that a hook defines a symbol where there is no section. -/
def misplaced (node : Offer) (id : Identifier) : Diagnostic :=
  .of (match node with
    | ofAttribute _ _ => .unexpectedAttribute
    | ofElement _ _ => .unexpectedElement)
    node.range node.text [node.text, id.text] []
    ["extension symbols need an enclosing section such as `Fragment`"]

end Offer

end Installer
