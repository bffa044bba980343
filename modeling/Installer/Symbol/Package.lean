import Installer.Symbol.Choice

/-! # The records of chain packages

A chain installs packages of five kinds. A package has a payload, details that depend on its kind,
and properties, slipstreamed patches and exit codes of its own. -/

namespace Installer.Symbol

/-- The kinds of packages in a chain. -/
inductive PackageKind where
  | msi
  | msp
  | msu
  | exe
  | bundle
  deriving DecidableEq, Repr

namespace PackageKind

def all : List PackageKind := [msi, msp, msu, exe, bundle]

def name : PackageKind → String
  | msi => "Msi"
  | msp => "Msp"
  | msu => "Msu"
  | exe => "Exe"
  | bundle => "Bundle"

/-- The element that authors a package of this kind. -/
def elementName (kind : PackageKind) : String := kind.name ++ "Package"

/-- The element that authors the payload of a package of this kind. -/
def payloadElementName (kind : PackageKind) : String := kind.name ++ "PackagePayload"

def ofElementName? (name : String) : Option PackageKind := all.find? (·.elementName == name)

instance : ToJson PackageKind := ⟨fun kind => .text kind.name⟩

end PackageKind

/-- What becomes of a package in the cache. -/
inductive CacheType where
  | force
  | keep
  | remove
  deriving DecidableEq, Repr

instance : Choice CacheType where
  keyword
    | .force => "force"
    | .keep => "keep"
    | .remove => "remove"
  choices := [.force, .keep, .remove]

inductive YesNoDefault where
  | yes
  | no
  | default
  deriving DecidableEq, Repr

instance : Choice YesNoDefault where
  keyword
    | .yes => "yes"
    | .no => "no"
    | .default => "default"
  choices := [.yes, .no, .default]

/-- How an executable package reports its progress. -/
inductive ExeProtocol where
  | none
  | burn
  | netfx4
  deriving DecidableEq, Repr

instance : Choice ExeProtocol where
  keyword
    | .none => "none"
    | .burn => "burn"
    | .netfx4 => "netfx4"
  choices := [.none, .burn, .netfx4]

/-- How it is found out whether an executable package is installed. -/
inductive Detection where
  | entry (id version : String) (win64 : Bool)
  | condition (condition : String)
  | none
  deriving DecidableEq, Repr

instance : ToJson Detection where
  toJson
    | .entry id version win64 => .record [
        ("strategy", .text "arp"), ("id", toJson id), ("version", toJson version),
        ("win64", toJson win64)]
    | .condition condition => .record [
        ("strategy", .text "condition"), ("condition", toJson condition)]
    | .none => .record [("strategy", .text "none")]

/-- The command lines of a package that runs a program. -/
structure Arguments where
  install : Option String := none
  repair : Option String := none
  uninstall : Option String := none
  deriving DecidableEq, Repr

def Arguments.members (a : Arguments) : List (String × Json) := [
  ("installArguments", toJson a.install),
  ("repairArguments", toJson a.repair),
  ("uninstallArguments", toJson a.uninstall)]

/-- What a package has beyond what all kinds have. -/
inductive PackageDetails where
  | msi (displayInternalUi enableFeatureSelection forcePerMachine suppressLooseFiles : Bool)
  | msp (slipstream : Bool)
  | msu (kb : Option String)
  | exe (arguments : Arguments) (repairCondition : Option String) (protocol : ExeProtocol)
      (detection : Detection)
  | bundle (arguments : Arguments)
  deriving DecidableEq, Repr

instance : ToJson PackageDetails where
  toJson
    | .msi displayInternalUi enableFeatureSelection forcePerMachine suppressLooseFiles => .record [
        ("type", .text "msi"),
        ("displayInternalUi", toJson displayInternalUi),
        ("enableFeatureSelection", toJson enableFeatureSelection),
        ("forcePerMachine", toJson forcePerMachine),
        ("suppressLooseFilePayloadGeneration", toJson suppressLooseFiles)]
    | .msp slipstream => .record [("type", .text "msp"), ("slipstream", toJson slipstream)]
    | .msu kb => .record [("type", .text "msu"), ("kb", toJson kb)]
    | .exe arguments repairCondition protocol detection => .record <|
        ("type", .text "exe") :: arguments.members ++ [
        ("repairCondition", toJson repairCondition),
        ("protocol", toJson protocol),
        ("detection", toJson detection)]
    | .bundle arguments => .record (("type", .text "bundle") :: arguments.members)

structure Package where
  kind : PackageKind
  payload : String
  cache : CacheType
  cacheId : Option String
  description : Option String
  displayName : Option String
  installCondition : Option String
  logPathVariable : Option String
  rollbackLogPathVariable : Option String
  permanent : Bool
  vital : Bool
  visible : Option Bool
  perMachine : Option YesNoDefault
  details : PackageDetails
  deriving DecidableEq, Repr

def Package.members (p : Package) : List (String × Json) := [
  ("packageKind", toJson p.kind),
  ("payload", toJson p.payload),
  ("cache", toJson p.cache),
  ("cacheId", toJson p.cacheId),
  ("description", toJson p.description),
  ("displayName", toJson p.displayName),
  ("installCondition", toJson p.installCondition),
  ("logPathVariable", toJson p.logPathVariable),
  ("rollbackLogPathVariable", toJson p.rollbackLogPathVariable),
  ("permanent", toJson p.permanent),
  ("vital", toJson p.vital),
  ("visible", toJson p.visible),
  ("perMachine", toJson p.perMachine),
  ("details", toJson p.details)]

/-- A file that is carried along or downloaded. A payload is remote if there is no file to carry. -/
structure Payload where
  name : Option String := none
  sourceFile : Option String := none
  downloadUrl : Option String := none
  compressed : Option Bool := none
  hash : Option String := none
  size : Option Int := none
  certificatePublicKey : Option String := none
  certificateThumbprint : Option String := none
  description : Option String := none
  productName : Option String := none
  version : Option String := none
  remote : Bool := false
  deriving DecidableEq, Repr

def Payload.members (p : Payload) : List (String × Json) := [
  ("name", toJson p.name),
  ("sourceFile", toJson p.sourceFile),
  ("downloadUrl", toJson p.downloadUrl),
  ("compressed", toJson p.compressed),
  ("hash", toJson p.hash),
  ("size", toJson p.size),
  ("certificatePublicKey", toJson p.certificatePublicKey),
  ("certificateThumbprint", toJson p.certificateThumbprint),
  ("description", toJson p.description),
  ("productName", toJson p.productName),
  ("version", toJson p.version),
  ("remote", toJson p.remote)]

structure MsiProperty where
  package : String
  name : String
  value : String
  condition : Option String
  deriving DecidableEq, Repr

def MsiProperty.members (p : MsiProperty) : List (String × Json) := [
  ("package", toJson p.package),
  ("name", toJson p.name),
  ("value", toJson p.value),
  ("condition", toJson p.condition)]

structure SlipstreamMsp where
  package : String
  mspPackage : String
  deriving DecidableEq, Repr

def SlipstreamMsp.members (s : SlipstreamMsp) : List (String × Json) := [
  ("package", toJson s.package),
  ("mspPackage", toJson s.mspPackage)]

/-- What an exit code of a package means. -/
inductive ExitCodeBehavior where
  | success
  | error
  | scheduleReboot
  | forceReboot
  deriving DecidableEq, Repr

instance : Choice ExitCodeBehavior where
  keyword
    | .success => "success"
    | .error => "error"
    | .scheduleReboot => "scheduleReboot"
    | .forceReboot => "forceReboot"
  choices := [.success, .error, .scheduleReboot, .forceReboot]

structure ExitCode where
  package : String
  code : Option Int
  behavior : ExitCodeBehavior
  deriving DecidableEq, Repr

def ExitCode.members (e : ExitCode) : List (String × Json) := [
  ("package", toJson e.package),
  ("code", toJson e.code),
  ("behavior", toJson e.behavior)]

end Installer.Symbol
