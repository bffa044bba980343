import Installer.Symbol.Choice

/-! # The records of installer databases

What packages, merge modules and patches define: their summaries, properties, components with the
registry values they own, custom actions and the actions of the sequence tables. -/

namespace Installer.Symbol

/-- For whom a package is installed. -/
inductive InstallScope where
  | perMachine
  | perUser
  | perUserOrMachine
  deriving DecidableEq, Repr

instance : Choice InstallScope where
  keyword
    | .perMachine => "perMachine"
    | .perUser => "perUser"
    | .perUserOrMachine => "perUserOrMachine"
  choices := [.perMachine, .perUser, .perUserOrMachine]

structure PackageSummary where
  name : String
  manufacturer : String
  version : String
  language : Int
  codepage : Option Int
  upgradeCode : Option String
  productCode : String
  installerVersion : Int
  scope : InstallScope
  compressed : Bool
  deriving DecidableEq, Repr

def PackageSummary.members (p : PackageSummary) : List (String × Json) := [
  ("name", toJson p.name),
  ("manufacturer", toJson p.manufacturer),
  ("version", toJson p.version),
  ("language", toJson p.language),
  ("codepage", toJson p.codepage),
  ("upgradeCode", toJson p.upgradeCode),
  ("productCode", toJson p.productCode),
  ("installerVersion", toJson p.installerVersion),
  ("scope", toJson p.scope),
  ("compressed", toJson p.compressed)]

structure ModuleSignature where
  language : Int
  version : String
  codepage : Option Int
  guid : Option String
  deriving DecidableEq, Repr

def ModuleSignature.members (m : ModuleSignature) : List (String × Json) := [
  ("language", toJson m.language),
  ("version", toJson m.version),
  ("codepage", toJson m.codepage),
  ("guid", toJson m.guid)]

structure Patch where
  classification : String
  displayName : Option String
  description : Option String
  manufacturer : Option String
  allowRemoval : Bool
  deriving DecidableEq, Repr

def Patch.members (p : Patch) : List (String × Json) := [
  ("classification", toJson p.classification),
  ("displayName", toJson p.displayName),
  ("description", toJson p.description),
  ("manufacturer", toJson p.manufacturer),
  ("allowRemoval", toJson p.allowRemoval)]

structure PatchProperty where
  name : String
  value : String
  deriving DecidableEq, Repr

def PatchProperty.members (p : PatchProperty) : List (String × Json) := [
  ("name", toJson p.name),
  ("value", toJson p.value)]

structure Property where
  value : Option String
  secure : Bool
  hidden : Bool
  admin : Bool
  deriving DecidableEq, Repr

def Property.members (p : Property) : List (String × Json) := [
  ("value", toJson p.value),
  ("secure", toJson p.secure),
  ("hidden", toJson p.hidden),
  ("admin", toJson p.admin)]

/-- The registry view that a component is written to. -/
inductive Bitness where
  | default
  | always32
  | always64
  deriving DecidableEq, Repr

instance : Choice Bitness where
  keyword
    | .default => "default"
    | .always32 => "always32"
    | .always64 => "always64"
  choices := [.always32, .always64, .default]

structure Component where
  guid : Option String
  directory : Option String
  bitness : Bitness
  keyPath : Bool
  deriving DecidableEq, Repr

def Component.members (c : Component) : List (String × Json) := [
  ("guid", toJson c.guid),
  ("directory", toJson c.directory),
  ("bitness", toJson c.bitness),
  ("keyPath", toJson c.keyPath)]

/-- The trees of the registry. -/
inductive RegistryRoot where
  | localMachine
  | currentUser
  | classesRoot
  | machineOrUser
  | users
  deriving DecidableEq, Repr

instance : Choice RegistryRoot where
  keyword
    | .localMachine => "HKLM"
    | .currentUser => "HKCU"
    | .classesRoot => "HKCR"
    | .machineOrUser => "HKMU"
    | .users => "HKU"
  choices := [.localMachine, .currentUser, .classesRoot, .machineOrUser, .users]

inductive RegistryValueType where
  | string
  | integer
  | binary
  | expandable
  | multiString
  deriving DecidableEq, Repr

instance : Choice RegistryValueType where
  keyword
    | .string => "string"
    | .integer => "integer"
    | .binary => "binary"
    | .expandable => "expandable"
    | .multiString => "multiString"
  choices := [.string, .integer, .binary, .expandable, .multiString]

structure Registry where
  component : String
  root : RegistryRoot
  key : String
  name : Option String
  value : Option String
  valueType : RegistryValueType
  keyPath : Bool
  deriving DecidableEq, Repr

def Registry.members (r : Registry) : List (String × Json) := [
  ("component", toJson r.component),
  ("root", toJson r.root),
  ("key", toJson r.key),
  ("name", toJson r.name),
  ("value", toJson r.value),
  ("valueType", toJson r.valueType),
  ("keyPath", toJson r.keyPath)]

/-- Where the code of a custom action is found. -/
inductive ActionSource where
  | binary
  | file
  | property
  | directory
  | inlineScript
  deriving DecidableEq, Repr

instance : ToJson ActionSource where
  toJson
    | .binary => .text "binary"
    | .file => .text "file"
    | .property => .text "property"
    | .directory => .text "directory"
    | .inlineScript => .text "inlineScript"

/-- What the code of a custom action is. Only the two script languages are chosen by a keyword. -/
inductive ActionTarget where
  | dll
  | exe
  | value
  | jscript
  | vbscript
  deriving DecidableEq, Repr

instance : Choice ActionTarget where
  keyword
    | .dll => "dll"
    | .exe => "exe"
    | .value => "value"
    | .jscript => "jscript"
    | .vbscript => "vbscript"
  choices := [.jscript, .vbscript]

/-- When a custom action runs. -/
inductive ExecuteType where
  | immediate
  | deferred
  | rollback
  | commit
  | oncePerProcess
  | firstSequence
  | secondSequence
  deriving DecidableEq, Repr

instance : Choice ExecuteType where
  keyword
    | .immediate => "immediate"
    | .deferred => "deferred"
    | .rollback => "rollback"
    | .commit => "commit"
    | .oncePerProcess => "oncePerProcess"
    | .firstSequence => "firstSequence"
    | .secondSequence => "secondSequence"
  choices := [.immediate, .deferred, .rollback, .commit, .oncePerProcess, .firstSequence,
    .secondSequence]

/-- What becomes of the result of a custom action. -/
inductive ReturnType where
  | check
  | ignore
  | asyncWait
  | asyncNoWait
  deriving DecidableEq, Repr

instance : Choice ReturnType where
  keyword
    | .check => "check"
    | .ignore => "ignore"
    | .asyncWait => "asyncWait"
    | .asyncNoWait => "asyncNoWait"
  choices := [.check, .ignore, .asyncWait, .asyncNoWait]

structure CustomAction where
  sourceKind : ActionSource
  source : Option String
  targetKind : ActionTarget
  target : Option String
  execute : ExecuteType
  returnType : ReturnType
  impersonate : Bool
  hideTarget : Bool
  deriving DecidableEq, Repr

def CustomAction.members (a : CustomAction) : List (String × Json) := [
  ("sourceKind", toJson a.sourceKind),
  ("source", toJson a.source),
  ("targetKind", toJson a.targetKind),
  ("target", toJson a.target),
  ("execute", toJson a.execute),
  ("returnType", toJson a.returnType),
  ("impersonate", toJson a.impersonate),
  ("hideTarget", toJson a.hideTarget)]

/-- The five sequences of actions. -/
inductive Sequence where
  | installExecute
  | installInterface
  | adminExecute
  | adminInterface
  | advertiseExecute
  deriving DecidableEq, Repr

namespace Sequence

def all : List Sequence :=
  [installExecute, installInterface, adminExecute, adminInterface, advertiseExecute]

/-- The element that authors the sequence. -/
def elementName : Sequence → String
  | installExecute => "InstallExecuteSequence"
  | installInterface => "InstallUISequence"
  | adminExecute => "AdminExecuteSequence"
  | adminInterface => "AdminUISequence"
  | advertiseExecute => "AdvertiseExecuteSequence"

/-- Whether the sequence shows dialogs. -/
def isInterface : Sequence → Bool
  | installInterface | adminInterface => true
  | _ => false

end Sequence

/-- A sequence table. Merge modules have tables of their own. -/
structure SequenceTable where
  sequence : Sequence
  ofModule : Bool
  deriving DecidableEq, Repr

def SequenceTable.name (t : SequenceTable) : String :=
  if t.ofModule then "Module" ++ t.sequence.elementName else t.sequence.elementName

instance : ToJson SequenceTable := ⟨fun t => .text t.name⟩

structure Action where
  table : SequenceTable
  action : String
  condition : Option String
  sequence : Option Int
  before : Option String
  after : Option String
  overridable : Bool
  deriving DecidableEq, Repr

def Action.members (a : Action) : List (String × Json) := [
  ("table", toJson a.table),
  ("action", toJson a.action),
  ("condition", toJson a.condition),
  ("sequence", toJson a.sequence),
  ("before", toJson a.before),
  ("after", toJson a.after),
  ("overridable", toJson a.overridable)]

structure SuppressAction where
  table : SequenceTable
  action : String
  deriving DecidableEq, Repr

def SuppressAction.members (a : SuppressAction) : List (String × Json) := [
  ("table", toJson a.table),
  ("action", toJson a.action)]

end Installer.Symbol
