import Installer.Compile.Value

/-! # Fields

A field is an attribute that an element may have, with the way it is read. Its value is that of the
last attribute of its name (`Element.value?`). All core attributes are checked in the order in which
they are authored (`Element.checkAttributes`); one that no check knows is unexpected. -/

namespace Installer

/-- An attribute name and a reader. -/
structure Field (α : Type) where
  name : String
  read : Reader α

/-- What is found when an attribute is checked. -/
abbrev Check := Element → Attribute → List Diagnostic

namespace Element

/-- The last core attribute with one of the given names. -/
def last? (e : Element) (names : List String) : Option Attribute :=
  (e.coreAttributes.filter (names.contains ·.name)).getLast?

/-- The value of a field, if it is authored and legal. -/
def value? {α : Type} (e : Element) (f : Field α) : Option α :=
  (e.last? [f.name]).bind fun a => (f.read e a).value

/-- The value of a field that is read only if its attribute is one of those with the given names. -/
def valueIn? {α : Type} (e : Element) (names : List String) (f : Field α) : Option α :=
  if names.contains f.name then e.value? f else none

/-- The identifier in a field: none if none is authored, and the invalid one if it is wrong. -/
def identifier? (e : Element) (f : Field Identifier) : Option Identifier :=
  (e.last? [f.name]).map fun a => (f.read.orInvalid e a).value

/-- The findings about one core attribute of an element whose attributes have the given checks. -/
def checkAttribute (e : Element) (checks : List (String × Check)) (a : Attribute) :
    List Diagnostic :=
  match checks.lookup a.name with
  | some check => check e a
  | none => [e.unexpectedAttribute a]

/-- The findings about the core attributes of an element. -/
def checkAttributes (e : Element) (checks : List (String × Check)) : List Diagnostic :=
  e.coreAttributes.flatMap (e.checkAttribute checks)

end Element

/-- What is wrong with an attribute according to a reader. -/
def Reader.findings {α : Type} (read : Reader α) : Check := fun e a => (read e a).findings

namespace Field

/-- The check of a field, by its name. -/
def check {α : Type} (f : Field α) : String × Check := (f.name, f.read.findings)

/-- The identifier of an element. -/
def id : Field Identifier := ⟨"Id", Reader.identifier⟩

/-- The name of another symbol. -/
def reference (name : String) : Field String := ⟨name, Reader.reference⟩

/-- A text with a character that is not blank. -/
def text (name : String) : Field String := ⟨name, Reader.string .nonBlank⟩

/-- Any text. -/
def anyText (name : String) : Field String := ⟨name, Reader.string .canBeEmpty⟩

def yesNo (name : String) : Field Bool := ⟨name, Reader.yesNo⟩

def choice (α : Type) [Choice α] (name : String) : Field α := ⟨name, Reader.choice α⟩

/-- A number of 64 bits. -/
def long (name : String) (lo hi : Int) : Field Int := ⟨name, Reader.long lo hi⟩

/-- A number of 32 bits. -/
def integer (name : String) (lo hi : Int32) : Field Int :=
  ⟨name, (Reader.integer lo hi).map Int32.toInt⟩

def version (name : String) : Field String := ⟨name, Reader.version⟩

/-- A GUID that is authored. -/
def guid (name : String) : Field String := ⟨name, Reader.guid false⟩

/-- A GUID that may be generated later. -/
def generatableGuid (name : String) : Field String := ⟨name, Reader.guid true⟩

def codePage (name : String) : Field Int := ⟨name, Reader.codePage⟩

/-- The name of a file, without a directory. -/
def fileName (name : String) : Field String := ⟨name, Reader.longFileName false⟩

/-- The name of a file, maybe with directories. -/
def relativePath (name : String) : Field String := ⟨name, Reader.longFileName true⟩

/-- A language number. -/
def language (name : String) : Field Int := integer name 0 65535

end Field

end Installer
