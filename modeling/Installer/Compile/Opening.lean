import Installer.Compile.Field
import Installer.Compile.Step
import Installer.Compile.Vocabulary

/-! # Opening elements

A rule opens an element: it reads the attributes and decides what its children are read with and what
is done after them. The scope of an element is what its children need to know of it; a child may
change the scope of its parent, since it takes the next place in a group. -/

namespace Installer

open Installer.Symbol (RegistryRoot SequenceTable)

/-- The settings of a compile. -/
structure Config where
  recursionLimit : Nat := 256
  deprecationWarnings : Bool := true
  deriving DecidableEq, Repr

/-- What all rules know: the settings, and the kind of the section around the element. -/
structure Env where
  config : Config
  unit : Option SectionKind

namespace Env

/-- Whether the element belongs to an installer database. -/
def inDatabase (env : Env) : Bool := env.unit.any (·.isDatabase)

/-- Whether the element belongs to a merge module. -/
def inModule (env : Env) : Bool := env.unit == some .module

end Env

/-- An entry of the list of installed programs by which a package is detected. -/
structure ArpEntry where
  id : Option String
  version : Option String
  win64 : Bool
  deriving DecidableEq, Repr

/-- What the children need to know of the element around them. -/
inductive Parent where
  | plain
  | container
  | package (id : String) (entry : Option ArpEntry)
  | component (id : String)
  | registryKey (component : String) (root : Option RegistryRoot) (key : Option String)
  | sequence (table : SequenceTable)
  deriving DecidableEq, Repr

/-- The scope of the children of an element: its parent, the group that they are put into and what
extensions are told about the parent. -/
structure Scope where
  parent : Parent := .plain
  cursor : Option GroupCursor := none
  context : Context := []

/-- How the children of an element are read, and what is done after them. A unit has a section kind
of its own. -/
structure Body where
  content : Content
  scope : Scope
  unit : Option SectionKind := none
  close : Scope → List Step

/-- An opened element: the scope of its later siblings, and its body if its children are read. -/
structure Opening where
  outer : Scope
  body : Option Body

/-- What extensions are told about an element with an identifier. -/
def Identifier.context (id : Identifier) : Context := [("Id", id.id)]

/-- What extensions are told about an element whose identifier may be wrong. -/
def Identifier.validContext (id : Identifier) : Context := if id.isInvalid then [] else id.context

namespace Planned

/-- The body of an element without core children, with the steps after them. -/
def leaf (site : Site) (id : Identifier) (close : List Step) : Planned Body := do
  offerAttributes site id.validContext
  return { content := .nothing, scope := { context := id.validContext }, close := fun _ => close }

/-- Open an element whose siblings do not notice it. -/
def within (scope : Scope) (body : Planned Body) : Planned Opening := do
  return ⟨scope, some (← body)⟩

/-- Report an element and leave its children alone. -/
def refuse (scope : Scope) (d : Diagnostic) : Planned Opening := do
  report [d]
  return ⟨scope, none⟩

/-- Give up since a rule was used in a wrong place. -/
def halt (scope : Scope) (h : Halt) : Planned Opening := ⟨[.halt h], ⟨scope, none⟩⟩

end Planned

end Installer
