import Installer.Compile.Rule.PayloadSource

/-! # Chain packages

The five kinds of packages of a chain share one rule. Its tables say which attributes each kind may
have; defaults, visibility, scope and detection depend on the kind too. -/

namespace Installer.Compile

open Installer.Symbol (PackageKind PackageDetails CacheType YesNoDefault ExeProtocol Detection Arguments)
open Planned

/-! ### Attributes -/

/-- The check of a deprecated attribute whose value is always legal. -/
def deprecatedCheck (config : Config) (name replacement : String) : String × Check :=
  (name, fun e a =>
    if config.deprecationWarnings then [e.deprecatedAttribute a replacement] else [])

/-- The names of the attributes for the command lines of a package. Each has a deprecated twin, and
of the two names the one that is authored last counts. -/
def argumentChecks (config : Config) : List (String × Check) := [
  Field.check (.anyText "InstallArguments"),
  Field.check (.anyText "RepairArguments"),
  Field.check (.anyText "UninstallArguments"),
  deprecatedCheck config "InstallCommand" "InstallArguments",
  deprecatedCheck config "RepairCommand" "RepairArguments",
  deprecatedCheck config "UninstallCommand" "UninstallArguments"]

def argumentsOf (e : Element) : Arguments where
  install := (e.last? ["InstallArguments", "InstallCommand"]).map (·.value)
  repair := (e.last? ["RepairArguments", "RepairCommand"]).map (·.value)
  uninstall := (e.last? ["UninstallArguments", "UninstallCommand"]).map (·.value)

/-- What packages of all kinds may have. -/
def commonChecks : List (String × Check) :=
  Field.check .id :: compressedCheck :: sourceChecks ++ [
  Field.check (.reference "After"),
  Field.check (.choice CacheType "Cache"),
  Field.check (.text "CacheId"),
  Field.check (.text "Description"),
  Field.check (.text "DisplayName"),
  Field.check (.text "InstallCondition"),
  Field.check (.anyText "LogPathVariable"),
  Field.check (.anyText "RollbackLogPathVariable"),
  Field.check (.yesNo "Permanent"),
  Field.check (.yesNo "Vital")]

/-- What only packages of some kinds may have. -/
def kindChecks (config : Config) : PackageKind → List (String × Check)
  | .msi => [
      Field.check (.yesNo "Visible"),
      Field.check (.yesNo "DisplayInternalUI"),
      Field.check (.yesNo "EnableFeatureSelection"),
      Field.check (.yesNo "ForcePerMachine"),
      Field.check (.yesNo "SuppressLooseFilePayloadGeneration")]
  | .msp => [
      Field.check (.choice YesNoDefault "PerMachine"),
      Field.check (.yesNo "Slipstream")]
  | .msu => [Field.check (.text "KB")]
  | .exe => [
      Field.check (.choice YesNoDefault "PerMachine"),
      Field.check (.text "DetectCondition"),
      Field.check (.choice ExeProtocol "Protocol"),
      Field.check (.text "RepairCondition")] ++ argumentChecks config
  | .bundle => [
      Field.check (.yesNo "Visible"),
      Field.check (.choice YesNoDefault "PerMachine")] ++ argumentChecks config

/-- The names of the attributes that packages of a kind may have. -/
def attributeNames (kind : PackageKind) : List String :=
  (commonChecks ++ kindChecks {} kind).map (·.1)

/-! ### What depends on the kind -/

def isPermanent (e : Element) : Bool := (e.value? (.yesNo "Permanent")).getD false

/-- Whether a package is installed for the whole machine. -/
def perMachineOf (e : Element) (kind : PackageKind) : Option YesNoDefault :=
  let authored := e.valueIn? (attributeNames kind) (.choice YesNoDefault "PerMachine")
  match kind with
  | .exe | .msp => some (authored.getD .default)
  | .msu => some .yes
  | .msi | .bundle => authored

/-- Whether a package is listed among the installed programs. Among those that may be hidden, a
permanent one is. -/
def visibleOf (e : Element) (kind : PackageKind) : Option Bool :=
  let authored := e.valueIn? (attributeNames kind) (.yesNo "Visible")
  match kind with
  | .msi | .bundle => authored.or (if isPermanent e then some true else none)
  | .exe | .msp | .msu => authored

/-- How an executable package is detected: by an entry or by a condition, and not at all only if it
is never removed. A package with a condition needs a way to be removed too. -/
def detectionOf (e : Element) (entry : Option ArpEntry) : List Diagnostic × Detection :=
  match entry, e.value? (.text "DetectCondition") with
  | some _, some _ => ([e.mutuallyExclusive "DetectCondition" "ArpEntry"], .none)
  | some entry, none => ([], .entry (entry.id.getD "") (entry.version.getD "") entry.win64)
  | none, some condition =>
    (if (argumentsOf e).uninstall.isNone && !isPermanent e then
      [e.missingAttribute "UninstallArguments"] else [], .condition condition)
  | none, none =>
    (if isPermanent e then [] else [e.expectedAttributeOrElement "DetectCondition" "ArpEntry"],
      .none)

/-- The details of a package, with what is found about them. -/
def detailsOf (e : Element) (entry : Option ArpEntry) :
    PackageKind → List Diagnostic × PackageDetails
  | .msi => ([], .msi
      ((e.value? (.yesNo "DisplayInternalUI")).getD false)
      ((e.value? (.yesNo "EnableFeatureSelection")).getD false)
      ((e.value? (.yesNo "ForcePerMachine")).getD false)
      ((e.value? (.yesNo "SuppressLooseFilePayloadGeneration")).getD false))
  | .msp => ([], .msp ((e.value? (.yesNo "Slipstream")).getD false))
  | .msu => ([], .msu (e.value? (.text "KB")))
  | .exe =>
    let (findings, detection) := detectionOf e entry
    (findings, .exe (argumentsOf e) (e.value? (.text "RepairCondition"))
      ((e.value? (.choice ExeProtocol "Protocol")).getD .none) detection)
  | .bundle => ([], .bundle (argumentsOf e))

/-! ### The rule -/

/-- The package symbol of an element whose children found the given entry. -/
def packageSteps (kind : PackageKind) (e : Element) (p : PackagePayload) (entry : Option ArpEntry) :
    List Step :=
  let (findings, details) := detailsOf e entry kind
  findings.map .report ++ [
    .emit p.payloadId (.payload p.payload),
    .emit p.packageId (.package {
      kind
      payload := p.payloadId.id
      cache := (e.value? (.choice CacheType "Cache")).getD .keep
      cacheId := e.value? (.text "CacheId")
      description := e.value? (.text "Description")
      displayName := e.value? (.text "DisplayName")
      installCondition := e.value? (.text "InstallCondition")
      logPathVariable := e.value? (.anyText "LogPathVariable")
      rollbackLogPathVariable := e.value? (.anyText "RollbackLogPathVariable")
      permanent := isPermanent e
      vital := (e.value? (.yesNo "Vital")).getD true
      visible := visibleOf e kind
      perMachine := perMachineOf e kind
      details })]

/-- The steps after the children of a package. Their scope has to be that of a package still, with the
entry that they found. -/
def closePackage (kind : PackageKind) (e : Element) (p : PackagePayload) (inner : Scope) : List Step :=
  match inner.parent with
  | .package _ entry => packageSteps kind e p entry
  | _ => [.halt .noPackage]

/-- A package of a chain or of a package group. It opens a group of payloads that starts with its own
payload. -/
def openChainPackage (kind : PackageKind) (env : Env) (scope : Scope) (site : Site) :
    Planned Opening :=
  match scope.cursor with
  | none => halt scope .noCursor
  | some cursor => do
    let e := site.element
    report (e.checkAttributes (commonChecks ++ kindChecks env.config kind))
    let p ← packagePayload kind site
    let cursor ← register cursor ⟨.package, p.packageId.id⟩
      ((e.value? (.reference "After")).map (⟨.package, ·⟩))
    let context : Context := [("Id", p.packageId.id), ("PayloadId", p.payloadId.id)]
    offerAttributes site context
    let payloads ← register (.inOrder .package p.packageId.id) ⟨.payload, p.payloadId.id⟩ none
    within { scope with cursor := some cursor } (return {
      content := .package kind
      scope := { parent := .package p.packageId.id none, cursor := some payloads, context }
      close := closePackage kind e p })

end Installer.Compile
