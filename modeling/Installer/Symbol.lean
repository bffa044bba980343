import Installer.Identifier
import Installer.Symbol.Bundle
import Installer.Symbol.Package
import Installer.Symbol.Database

/-! # Symbols

A symbol is an identifier, the section it belongs to and what it defines. `Symbol.Data` has one
case for each kind of definition; `Symbol.Data.members` lists what a definition holds in the order
in which it is written, and the JSON form and the flat list of fields are both made from it. -/

namespace Installer

/-- The kinds of symbols. Directories, binaries, files and dialogs are only referred to. -/
inductive SymbolKind where
  | bundle
  | chain
  | bootstrapperApplication
  | relatedBundle
  | bundleLog
  | bundleUpdate
  | container
  | packageGroup
  | rollbackBoundary
  | package
  | payload
  | payloadGroup
  | msiProperty
  | slipstreamMsp
  | exitCode
  | variableValue
  | dependencyProvider
  | packageSummary
  | moduleSignature
  | patch
  | patchProperty
  | property
  | component
  | registry
  | customAction
  | action
  | suppressAction
  | directory
  | binary
  | file
  | dialog
  | extensionData
  deriving DecidableEq, Repr

namespace SymbolKind

def all : List SymbolKind := [
  bundle, chain, bootstrapperApplication, relatedBundle, bundleLog, bundleUpdate, container,
  packageGroup, rollbackBoundary, package, payload, payloadGroup, msiProperty, slipstreamMsp,
  exitCode, variableValue, dependencyProvider, packageSummary, moduleSignature, patch,
  patchProperty, property, component, registry, customAction, action, suppressAction, directory,
  binary, file, dialog, extensionData]

def name : SymbolKind → String
  | bundle => "Bundle"
  | chain => "Chain"
  | bootstrapperApplication => "BootstrapperApplication"
  | relatedBundle => "RelatedBundle"
  | bundleLog => "BundleLog"
  | bundleUpdate => "BundleUpdate"
  | container => "Container"
  | packageGroup => "PackageGroup"
  | rollbackBoundary => "RollbackBoundary"
  | package => "Package"
  | payload => "Payload"
  | payloadGroup => "PayloadGroup"
  | msiProperty => "MsiProperty"
  | slipstreamMsp => "SlipstreamMsp"
  | exitCode => "ExitCode"
  | variableValue => "Variable"
  | dependencyProvider => "DependencyProvider"
  | packageSummary => "PackageSummary"
  | moduleSignature => "ModuleSignature"
  | patch => "Patch"
  | patchProperty => "PatchProperty"
  | property => "Property"
  | component => "Component"
  | registry => "Registry"
  | customAction => "CustomAction"
  | action => "Action"
  | suppressAction => "SuppressAction"
  | directory => "Directory"
  | binary => "Binary"
  | file => "File"
  | dialog => "Dialog"
  | extensionData => "Extension"

def ofName? (s : String) : Option SymbolKind := all.find? (·.name == s)

instance : ToJson SymbolKind := ⟨fun kind => .text kind.name⟩

end SymbolKind

namespace Symbol

/-- The fields of a record whose names an extension chose, in the order in which they were set first.
No name occurs twice. -/
structure Fields where
  toList : List (String × String)
  nodup : (toList.map Prod.fst).Nodup
  deriving DecidableEq, Repr

namespace Fields

def empty : Fields := ⟨[], .nil⟩

/-- Set a field in a list of fields. A name that is there already keeps its place. -/
def setIn (name value : String) : List (String × String) → List (String × String)
  | [] => [(name, value)]
  | (n, v) :: fields =>
    if n = name then (n, value) :: fields else (n, v) :: setIn name value fields

theorem map_fst_setIn (name value : String) (fields : List (String × String)) :
    (setIn name value fields).map Prod.fst =
      if name ∈ fields.map Prod.fst then fields.map Prod.fst else fields.map Prod.fst ++ [name] := by
  induction fields with
  | nil => rfl
  | cons f fields ih =>
    by_cases h : f.1 = name
    · simp [setIn, h]
    · by_cases hmem : name ∈ fields.map Prod.fst <;> simp_all [setIn, eq_comm]

/-- Set a field. A name that is there already keeps its place. -/
def insert (fields : Fields) (name value : String) : Fields where
  toList := setIn name value fields.toList
  nodup := by
    rw [map_fst_setIn]
    split
    · exact fields.nodup
    · next h =>
      refine List.nodup_append.mpr ⟨fields.nodup, List.pairwise_singleton _ _, ?_⟩
      intro n hn m hm heq
      exact h (List.mem_singleton.mp hm ▸ heq ▸ hn)

/-- The fields of a list of pairs, where a later pair overrides an earlier one. -/
def ofList (pairs : List (String × String)) : Fields :=
  pairs.foldl (fun fields p => fields.insert p.1 p.2) empty

end Fields

/-- What a symbol defines. -/
inductive Data where
  | bundle (b : Bundle)
  | chain (c : Chain)
  | bootstrapperApplication (b : BootstrapperApplication)
  | relatedBundle (b : RelatedBundle)
  | bundleLog (l : Log)
  | bundleUpdate (u : Update)
  | container (c : Container)
  | packageGroup
  | rollbackBoundary (b : RollbackBoundary)
  | package (p : Package)
  | payload (p : Payload)
  | payloadGroup
  | msiProperty (p : MsiProperty)
  | slipstreamMsp (s : SlipstreamMsp)
  | exitCode (e : ExitCode)
  | variableValue (v : Variable)
  | dependencyProvider (p : DependencyProvider)
  | packageSummary (p : PackageSummary)
  | moduleSignature (m : ModuleSignature)
  | patch (p : Patch)
  | patchProperty (p : PatchProperty)
  | property (p : Property)
  | component (c : Component)
  | registry (r : Registry)
  | customAction (a : CustomAction)
  | action (a : Action)
  | suppressAction (a : SuppressAction)
  | extensionData (definition : String) (fields : Fields)
  deriving DecidableEq, Repr

namespace Data

def kind : Data → SymbolKind
  | bundle _ => .bundle
  | chain _ => .chain
  | bootstrapperApplication _ => .bootstrapperApplication
  | relatedBundle _ => .relatedBundle
  | bundleLog _ => .bundleLog
  | bundleUpdate _ => .bundleUpdate
  | container _ => .container
  | packageGroup => .packageGroup
  | rollbackBoundary _ => .rollbackBoundary
  | package _ => .package
  | payload _ => .payload
  | payloadGroup => .payloadGroup
  | msiProperty _ => .msiProperty
  | slipstreamMsp _ => .slipstreamMsp
  | exitCode _ => .exitCode
  | variableValue _ => .variableValue
  | dependencyProvider _ => .dependencyProvider
  | packageSummary _ => .packageSummary
  | moduleSignature _ => .moduleSignature
  | patch _ => .patch
  | patchProperty _ => .patchProperty
  | property _ => .property
  | component _ => .component
  | registry _ => .registry
  | customAction _ => .customAction
  | action _ => .action
  | suppressAction _ => .suppressAction
  | extensionData _ _ => .extensionData

/-- What a definition holds, in the order in which it is written. -/
def members : Data → List (String × Json)
  | bundle b => b.members
  | chain c => c.members
  | bootstrapperApplication b => b.members
  | relatedBundle b => b.members
  | bundleLog l => l.members
  | bundleUpdate u => u.members
  | container c => c.members
  | packageGroup => []
  | rollbackBoundary b => b.members
  | package p => p.members
  | payload p => p.members
  | payloadGroup => []
  | msiProperty p => p.members
  | slipstreamMsp s => s.members
  | exitCode e => e.members
  | variableValue v => v.members
  | dependencyProvider p => p.members
  | packageSummary p => p.members
  | moduleSignature m => m.members
  | patch p => p.members
  | patchProperty p => p.members
  | property p => p.members
  | component c => c.members
  | registry r => r.members
  | customAction a => a.members
  | action a => a.members
  | suppressAction a => a.members
  | extensionData definition fields => [
      ("definition", toJson definition),
      ("fields", .record (fields.toList.map fun f => (f.1, toJson f.2)))]

/-- The set fields of a definition by name, with the names of nested ones joined by dots. -/
def fields (data : Data) : List (String × String) := Json.flattenMembers "" data.members

instance : ToJson Data := ⟨fun data => .record (("kind", toJson data.kind) :: data.members)⟩

end Data

end Symbol

/-- A definition with its identifier, in the section with the given index. -/
structure Symbol where
  id : Identifier
  sectionIndex : Nat
  data : Symbol.Data
  deriving DecidableEq, Repr

namespace Symbol

def kind (s : Symbol) : SymbolKind := s.data.kind

end Symbol

instance : ToJson Identifier :=
  ⟨fun i => .record [("access", .text i.access.keyword), ("id", .text i.id)]⟩

instance : ToJson Symbol :=
  ⟨fun s => .record [
    ("id", toJson s.id), ("section", toJson s.sectionIndex), ("data", toJson s.data)]⟩

end Installer
