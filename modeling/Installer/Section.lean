import Installer.Json

/-! # Sections

A section is one compilation unit: a package, a module, a bundle, a patch or a fragment. -/

namespace Installer

inductive SectionKind where
  | package
  | module
  | bundle
  | patch
  | fragment
  deriving DecidableEq, Repr

namespace SectionKind

def all : List SectionKind := [package, module, bundle, patch, fragment]

def name : SectionKind → String
  | package => "Package"
  | module => "Module"
  | bundle => "Bundle"
  | patch => "Patch"
  | fragment => "Fragment"

def ofName? (s : String) : Option SectionKind := all.find? (·.name == s)

/-- Whether sections of this kind are installer databases. -/
def isDatabase : SectionKind → Bool
  | package | module => true
  | _ => false

end SectionKind

/-- A section and the number of the compilation that it comes from. -/
structure Section where
  id : Option String
  kind : SectionKind
  compilation : UInt32
  deriving DecidableEq, Repr

instance : ToJson SectionKind := ⟨fun kind => .text kind.name⟩

instance : ToJson Section :=
  ⟨fun s => .record [
    ("id", toJson s.id), ("kind", toJson s.kind), ("compilation_id", toJson s.compilation)]⟩

end Installer
