import Installer.Symbol

/-! # The vocabulary

Each core element is read by a rule, and what an element may contain is decided by a table that gives
the rules of its children. The element that authors the payload of a package is read together with
the package, so that it has a place in the table and no rule of its own. -/

namespace Installer

open Installer.Symbol (PackageKind Sequence)

/-- The kinds of scheduled actions: custom actions, dialogs and standard actions. -/
inductive ActionKind where
  | custom
  | dialog
  | standard
  deriving DecidableEq, Repr

namespace ActionKind

/-- The attribute that names a scheduled action. A standard action is named by its element. -/
def nameAttribute? : ActionKind → Option String
  | custom => some "Action"
  | dialog => some "Dialog"
  | standard => none

/-- The kind of symbol that a scheduled action refers to. -/
def symbolKind? : ActionKind → Option SymbolKind
  | custom => some .customAction
  | dialog => some .dialog
  | standard => none

end ActionKind

/-- How an element is read. -/
inductive Rule where
  -- units
  | bundle
  | package
  | module
  | patch
  | fragment
  -- parts of bundles
  | bootstrapperApplication
  | log
  | update
  | relatedBundle
  | variableValue
  -- groups
  | chain
  | packageGroup
  | packageGroupRef
  | payloadGroup
  | payloadGroupRef
  | container
  | rollbackBoundary
  | payload
  -- chain packages and their parts
  | chainPackage (kind : PackageKind)
  | msiProperty
  | slipstreamMsp
  | exitCode
  | arpEntry
  -- parts of databases
  | component
  | registryKey
  | registryValue
  | customAction
  | property
  | patchProperty
  | sequence (s : Sequence)
  | action (kind : ActionKind)
  deriving DecidableEq, Repr

/-- How often a child may appear, and its rule. -/
inductive Entry where
  | many (rule : Rule)
  | single (rule : Rule)
  /-- At most once, and read together with its parent. -/
  | absorbed
  deriving DecidableEq, Repr

/-- What an element may contain. -/
inductive Content where
  | document
  | fragment
  | bundle
  | payloads
  | chainItems
  | packageGroupRefs
  | package (kind : PackageKind)
  | component
  | database
  | patch
  | sequence
  | nothing
  deriving DecidableEq, Repr

/-- The actions with a fixed meaning, scheduled by the elements of their names. -/
def standardActions : List String := [
  "AppSearch", "LaunchConditions", "FindRelatedProducts", "CostInitialize", "FileCost",
  "CostFinalize", "InstallValidate", "InstallInitialize", "ProcessComponents", "RemoveFiles",
  "InstallFiles", "WriteRegistryValues", "RemoveRegistryValues", "RegisterProduct",
  "PublishFeatures", "PublishProduct", "InstallFinalize", "RemoveExistingProducts",
  "ExecuteAction", "MigrateFeatureStates", "ScheduleReboot", "ForceReboot"]

namespace Content

def sequenceEntries : List (String × Entry) :=
  Sequence.all.map fun s => (s.elementName, .many (.sequence s))

/-- What packages of all kinds may contain beside their typed payload. -/
def payloadEntries : List (String × Entry) :=
  [("Payload", .many .payload), ("PayloadGroupRef", .many .payloadGroupRef)]

/-- What only packages of some kinds may contain. -/
def partEntries : PackageKind → List (String × Entry)
  | .msi => [("MsiProperty", .many .msiProperty), ("SlipstreamMsp", .many .slipstreamMsp)]
  | .msp => [("MsiProperty", .many .msiProperty)]
  | .msu => []
  | .exe => [("ExitCode", .many .exitCode), ("ArpEntry", .single .arpEntry)]
  | .bundle => [("ExitCode", .many .exitCode)]

/-- The children that an element with this content may have, by name. -/
def entries : Content → List (String × Entry)
  | document => [
      ("Bundle", .many .bundle), ("Package", .many .package), ("Module", .many .module),
      ("Patch", .many .patch), ("Fragment", .many .fragment)]
  | fragment => [
      ("BootstrapperApplication", .many .bootstrapperApplication),
      ("Component", .many .component), ("Container", .many .container),
      ("CustomAction", .many .customAction), ("PackageGroup", .many .packageGroup),
      ("PayloadGroup", .many .payloadGroup), ("Property", .many .property),
      ("Variable", .many .variableValue)] ++ sequenceEntries
  | bundle => [
      ("Chain", .single .chain),
      ("BootstrapperApplication", .single .bootstrapperApplication), ("Log", .single .log),
      ("Update", .single .update), ("RelatedBundle", .many .relatedBundle),
      ("Variable", .many .variableValue), ("Container", .many .container),
      ("PackageGroup", .many .packageGroup), ("PayloadGroup", .many .payloadGroup)] ++
      payloadEntries
  | payloads => payloadEntries
  | chainItems =>
      (PackageKind.all.map fun kind => (kind.elementName, .many (.chainPackage kind))) ++ [
      ("RollbackBoundary", .many .rollbackBoundary), ("PackageGroupRef", .many .packageGroupRef)]
  | packageGroupRefs => [("PackageGroupRef", .many .packageGroupRef)]
  | package kind => (kind.payloadElementName, .absorbed) :: payloadEntries ++ partEntries kind
  | component => [("RegistryKey", .many .registryKey), ("RegistryValue", .many .registryValue)]
  | database => [
      ("Component", .many .component), ("CustomAction", .many .customAction),
      ("Property", .many .property)] ++ sequenceEntries
  | patch => [("PatchProperty", .many .patchProperty)]
  | sequence =>
      ("Custom", .many (.action .custom)) :: ("Show", .many (.action .dialog)) ::
      standardActions.map fun name => (name, .many (.action .standard))
  | nothing => []

/-- The place of a child of the given name. -/
def entry? (content : Content) (name : String) : Option Entry := content.entries.lookup name

end Content

end Installer
