import Installer.Compile.Opening
import Installer.Identifier.Synthesis

/-! # Parts of packages

Properties, slipstreamed patches, exit codes and detection entries. Each belongs to the package
around it. -/

namespace Installer.Compile

open Installer.Symbol (ExitCodeBehavior)
open Planned

/-- A property that is set when a package is installed. -/
def openMsiProperty (scope : Scope) (site : Site) : Planned Opening :=
  match scope.parent with
  | .package owner _ => do
    let e := site.element
    report (e.checkAttributes [
      Field.check (.text "Name"),
      Field.check (.anyText "Value"),
      Field.check (.text "Condition")])
    report (e.missingAttributes ["Name", "Value"])
    let name := (e.value? (.text "Name")).getD ""
    let id := Identifier.ofName (Identifier.synthesize "mpp" [owner, name])
    within scope <| leaf site id [.emit id (.msiProperty {
      package := owner
      name
      value := (e.value? (.anyText "Value")).getD ""
      condition := e.value? (.text "Condition") })]
  | _ => halt scope .noPackage

/-- A patch that is installed together with a package. -/
def openSlipstreamMsp (scope : Scope) (site : Site) : Planned Opening :=
  match scope.parent with
  | .package owner _ => do
    let e := site.element
    report (e.checkAttributes [Field.check (.reference "Id")])
    report (e.missingAttributes ["Id"])
    let patch := (e.value? (.reference "Id")).getD ""
    refer .package patch
    let id := Identifier.ofName (Identifier.synthesize "sls" [owner, patch])
    within scope <| leaf site id [.emit id (.slipstreamMsp { package := owner, mspPackage := patch })]
  | _ => halt scope .noPackage

/-- The exit codes that a program can end with. -/
def exitCodeField : Field Int := .integer "Value" (-2147483648) 2147483647

/-- What an exit code of a package means. Without a value the entry is about all other codes. -/
def openExitCode (scope : Scope) (site : Site) : Planned Opening :=
  match scope.parent with
  | .package owner _ => do
    let e := site.element
    report (e.checkAttributes [
      Field.check exitCodeField,
      Field.check (.choice ExitCodeBehavior "Behavior")])
    report (e.missingAttributes ["Behavior"])
    let code := e.value? exitCodeField
    let id := Identifier.ofName
      (Identifier.synthesize "ec" [owner, (code.map toString).getD "*"])
    within scope <| leaf site id [.emit id (.exitCode {
      package := owner
      code
      behavior := (e.value? (.choice ExitCodeBehavior "Behavior")).getD .success })]
  | _ => halt scope .noPackage

/-- The entry by which a package is detected. It is kept for the package and defines nothing. -/
def openArpEntry (scope : Scope) (site : Site) : Planned Opening :=
  match scope.parent with
  | .package owner _ => do
    let e := site.element
    report (e.checkAttributes [
      Field.check (.text "Id"),
      Field.check (.version "Version"),
      Field.check (.yesNo "Win64")])
    report (e.missingAttributes ["Id", "Version"])
    let entry : ArpEntry := {
      id := e.value? (.text "Id")
      version := e.value? (.version "Version")
      win64 := (e.value? (.yesNo "Win64")).getD false }
    within { scope with parent := .package owner (some entry) } (leaf site (.ofName owner) [])
  | _ => halt scope .noPackage

end Installer.Compile
