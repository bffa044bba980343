import Installer.Reference
import Installer.Section

/-! # Intermediates

An intermediate is what compiling gives to the linker: sections, symbols, references to symbols and
group references. Intermediates are appended to each other, and `Intermediate.dump` lists one in a
plain form. -/

namespace Installer

structure Intermediate where
  sections : List Section := []
  symbols : List Symbol := []
  references : List SymbolReference := []
  groups : List GroupReference := []
  deriving DecidableEq, Repr

namespace Intermediate

def empty : Intermediate := {}

def isEmpty (x : Intermediate) : Bool :=
  x.sections.isEmpty && x.symbols.isEmpty && x.references.isEmpty && x.groups.isEmpty

/-- Add a section. Its index is the number of sections before. -/
def addSection (x : Intermediate) (s : Section) : Intermediate :=
  { x with sections := x.sections ++ [s] }

/-- Add a symbol of a section that is there. -/
def addSymbol? (x : Intermediate) (s : Symbol) : Option Intermediate :=
  if s.sectionIndex < x.sections.length then some { x with symbols := x.symbols ++ [s] } else none

def addReference (x : Intermediate) (r : SymbolReference) : Intermediate :=
  { x with references := x.references ++ [r] }

def addGroup (x : Intermediate) (r : GroupReference) : Intermediate :=
  { x with groups := x.groups ++ [r] }

/-- The symbol with the indices of its section moved up by `offset`. -/
def moveUp (offset : Nat) (s : Symbol) : Symbol := { s with sectionIndex := s.sectionIndex + offset }

/-- All of `x`, then all of `y`. -/
def append (x y : Intermediate) : Intermediate where
  sections := x.sections ++ y.sections
  symbols := x.symbols ++ y.symbols.map (moveUp x.sections.length)
  references := x.references ++ y.references
  groups := x.groups ++ y.groups

/-- The first symbol with the given name. -/
def find? (x : Intermediate) (id : String) : Option Symbol := x.symbols.find? (·.id.id == id)

/-- The section of a symbol. -/
def sectionOf? (x : Intermediate) (s : Symbol) : Option Section := x.sections[s.sectionIndex]?

/-! ### Plain form -/

def sectionLine (s : Section) : String :=
  "section " ++ s.kind.name ++
    (match s.id with
    | some id => " " ++ id
    | none => "") ++ "\n"

def symbolLine (s : Symbol) : String :=
  "  " ++ s.kind.name ++ " " ++ s.id.text ++
    String.join (s.data.fields.map fun f => " " ++ f.1 ++ "=" ++ f.2) ++ "\n"

def referenceLine (r : SymbolReference) : String := "ref " ++ r.kind.name ++ ":" ++ r.id ++ "\n"

def groupLine (r : GroupReference) : String := "group " ++ r.text ++ "\n"

/-- A section and its symbols. -/
def dumpSection (symbols : List Symbol) (index : Nat) (s : Section) : String :=
  sectionLine s ++ String.join ((symbols.filter (·.sectionIndex == index)).map symbolLine)

def dumpSections (x : Intermediate) : String :=
  String.join (x.sections.mapIdx (dumpSection x.symbols))

def dumpReferences (x : Intermediate) : String := String.join (x.references.map referenceLine)

def dumpGroups (x : Intermediate) : String := String.join (x.groups.map groupLine)

/-- The intermediate in a plain form: sections with their symbols, then the references. -/
def dump (x : Intermediate) : String := x.dumpSections ++ x.dumpReferences ++ x.dumpGroups

instance : ToJson Intermediate :=
  ⟨fun x => .record [
    ("sections", toJson x.sections), ("symbols", toJson x.symbols),
    ("simple_references", toJson x.references), ("complex_references", toJson x.groups)]⟩

/-- The intermediate as a JSON text. -/
def json (x : Intermediate) : String := (toJson x).render

end Intermediate

end Installer
