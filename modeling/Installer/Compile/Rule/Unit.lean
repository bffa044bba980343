import Installer.Compile.Opening
import Installer.Identifier.Synthesis

/-! # Units

The children of the document element: bundles, packages, merge modules, patches and fragments. Each
opens a section, and all but fragments define a symbol for the section after everything else. -/

namespace Installer.Compile

open Installer.Symbol (DisableModify InstallScope)
open Planned

/-- The dependency providers that the provider keys of a unit define. -/
def providerSteps (e : Element) (parent : Identifier) : List Step :=
  (e.coreAttributes.filter (·.name == "ProviderKey")).flatMap fun a =>
    let key := Reader.string .nonBlank e a
    key.log ++ (key.value.map fun key =>
      .emit (.ofName (Identifier.synthesize "dep" [parent.id, key]))
        (.dependencyProvider { parent := parent.id, key })).toList

/-- There is one step for each provider key. -/
theorem providerSteps_eq_map (e : Element) (parent : Identifier) : providerSteps e parent =
    (e.coreAttributes.filter (·.name == "ProviderKey")).map fun a =>
      if EmptyRule.nonBlank.allows a.value then
        .emit (.ofName (Identifier.synthesize "dep" [parent.id, a.value]))
          (.dependencyProvider { parent := parent.id, key := a.value })
      else .report (e.illegalEmpty a) := by
  rw [providerSteps, List.map_eq_flatMap]
  congr 1
  funext a
  unfold Reader.string
  cases EmptyRule.nonBlank.allows a.value <;> rfl

/-- Provider keys are read when the section is open. -/
def providerCheck : String × Check := ("ProviderKey", fun _ _ => [])

/-- The name of a section whose symbol has the given identifier. -/
def sectionName (id : Identifier) : Option String := if id.isInvalid then none else some id.id

/-- A bundle. -/
def openBundle (site : Site) : Planned Body := do
  let e := site.element
  report (e.checkAttributes [
    Field.check .id,
    Field.check (.text "Name"),
    Field.check (.version "Version"),
    Field.check (.text "Manufacturer"),
    Field.check (.guid "UpgradeCode"),
    Field.check (.text "Condition"),
    Field.check (.yesNo "Compressed"),
    Field.check (.choice DisableModify "DisableModify"),
    Field.check (.yesNo "DisableRemove"),
    Field.check (.text "AboutUrl"),
    Field.check (.text "HelpUrl"),
    Field.check (.text "Copyright"),
    Field.check (.text "ParentName"),
    providerCheck])
  report (e.missingAttributes ["Version"])
  let name := e.value? (.text "Name")
  let version := (e.value? (.version "Version")).getD ""
  let upgradeCode := e.value? (.guid "UpgradeCode")
  let id := (e.identifier? .id).getD
    (.ofName (Identifier.synthesize "bnd" [name.getD "", version, upgradeCode.getD ""]))
  Logged.tell [.openUnit { kind := .bundle, id := sectionName id, name }]
  Logged.tell (providerSteps e id)
  offerAttributes site id.context
  return {
    content := .bundle
    unit := some .bundle
    scope := {
      cursor := some (.inOrder .layout Identifier.layoutOnlyPayloads)
      context := id.context }
    close := fun _ => [
      .emit id (.bundle {
        name
        version
        manufacturer := e.value? (.text "Manufacturer")
        upgradeCode
        condition := e.value? (.text "Condition")
        compressed := e.value? (.yesNo "Compressed")
        disableModify := (e.value? (.choice DisableModify "DisableModify")).getD .no
        disableRemove := (e.value? (.yesNo "DisableRemove")).getD false
        aboutUrl := e.value? (.text "AboutUrl")
        helpUrl := e.value? (.text "HelpUrl")
        copyright := e.value? (.text "Copyright")
        parentName := e.value? (.text "ParentName") }),
      .closeUnit] }

/-- The installer version that a package needs if it names none. -/
def defaultInstallerVersion : Int := 500

def installerVersionField : Field Int := .integer "InstallerVersion" 0 2147483647

/-- A property that a package defines on its own. -/
def builtInProperty (name value : String) : Step :=
  .emit (.ofName name) (.property { value := some value, secure := false, hidden := false, admin := false })

/-- A package. It defines the properties that every installer database has. -/
def openPackage (site : Site) : Planned Body := do
  let e := site.element
  report (e.checkAttributes [
    Field.check (.text "Name"),
    Field.check (.text "Manufacturer"),
    Field.check (.version "Version"),
    Field.check (.language "Language"),
    Field.check (.codePage "Codepage"),
    Field.check (.guid "UpgradeCode"),
    Field.check (.generatableGuid "ProductCode"),
    Field.check installerVersionField,
    Field.check (.choice InstallScope "Scope"),
    Field.check (.yesNo "Compressed"),
    providerCheck])
  report (e.missingAttributes ["Name", "Manufacturer", "Version"])
  let name := (e.value? (.text "Name")).getD ""
  let manufacturer := (e.value? (.text "Manufacturer")).getD ""
  let version := (e.value? (.version "Version")).getD ""
  let language := (e.value? (.language "Language")).getD 0
  let upgradeCode := e.value? (.guid "UpgradeCode")
  let productCode := (e.value? (.generatableGuid "ProductCode")).getD "*"
  let id := Identifier.ofName
    (Identifier.synthesize "pkg" [name, manufacturer, version, productCode])
  let context : Context := [("Id", id.id), ("ProductCode", productCode)]
  Logged.tell [.openUnit {
    kind := .package, id := some id.id, name := some name, language := some (toString language) }]
  Logged.tell (providerSteps e id)
  offerAttributes site context
  return {
    content := .database
    unit := some .package
    scope := { context }
    close := fun _ => [
      builtInProperty "ProductName" name,
      builtInProperty "Manufacturer" manufacturer,
      builtInProperty "ProductVersion" version,
      builtInProperty "ProductLanguage" (toString language),
      builtInProperty "ProductCode" productCode] ++
      upgradeCode.toList.map (builtInProperty "UpgradeCode") ++ [
      .emit id (.packageSummary {
        name
        manufacturer
        version
        language
        codepage := e.value? (.codePage "Codepage")
        upgradeCode
        productCode
        installerVersion := (e.value? installerVersionField).getD defaultInstallerVersion
        scope := (e.value? (.choice InstallScope "Scope")).getD .perMachine
        compressed := (e.value? (.yesNo "Compressed")).getD false }),
      .closeUnit] }

/-- A merge module. -/
def openModule (site : Site) : Planned Body := do
  let e := site.element
  report (e.checkAttributes [
    Field.check .id,
    Field.check (.language "Language"),
    Field.check (.version "Version"),
    Field.check (.codePage "Codepage"),
    Field.check (.guid "Guid")])
  report (e.missingAttributes ["Id", "Version"])
  let id := (e.identifier? .id).getD Identifier.invalid
  let language := (e.value? (.language "Language")).getD 0
  Logged.tell [.openUnit {
    kind := .module, id := sectionName id, name := sectionName id,
    language := some (toString language) }]
  offerAttributes site id.context
  return {
    content := .database
    unit := some .module
    scope := { context := id.context }
    close := fun _ => [
      .emit id (.moduleSignature {
        language
        version := (e.value? (.version "Version")).getD ""
        codepage := e.value? (.codePage "Codepage")
        guid := e.value? (.guid "Guid") }),
      .closeUnit] }

/-- The identifier of a patch: its code, or one made from what describes it if the code is generated
later. -/
def patchId (e : Element) : Identifier :=
  let described := Identifier.ofName (Identifier.synthesize "pch" [
    (e.value? (.text "DisplayName")).getD "",
    (e.value? (.text "Description")).getD "",
    (e.value? (.text "Manufacturer")).getD ""])
  match e.value? (.generatableGuid "Id") with
  | some code => if code = "*" then described else .ofName code
  | none => described

/-- A patch. -/
def openPatch (site : Site) : Planned Body := do
  let e := site.element
  report (e.checkAttributes [
    Field.check (.generatableGuid "Id"),
    Field.check (.text "Classification"),
    Field.check (.text "DisplayName"),
    Field.check (.text "Description"),
    Field.check (.text "Manufacturer"),
    Field.check (.yesNo "AllowRemoval")])
  let id := patchId e
  Logged.tell [.openUnit { kind := .patch, id := some id.id }]
  offerAttributes site id.context
  return {
    content := .patch
    unit := some .patch
    scope := { context := id.context }
    close := fun _ => [
      .emit id (.patch {
        classification := (e.value? (.text "Classification")).getD "Update"
        displayName := e.value? (.text "DisplayName")
        description := e.value? (.text "Description")
        manufacturer := e.value? (.text "Manufacturer")
        allowRemoval := (e.value? (.yesNo "AllowRemoval")).getD false }),
      .closeUnit] }

/-- A fragment. It defines no symbol of its own, so that it may go without an identifier. -/
def openFragment (site : Site) : Planned Body := do
  let e := site.element
  report (e.checkAttributes [Field.check .id])
  let id := (e.identifier? .id).getD Identifier.invalid
  Logged.tell [.openUnit { kind := .fragment, id := sectionName id }]
  offerAttributes site id.validContext
  return {
    content := .fragment
    unit := some .fragment
    scope := { context := id.validContext }
    close := fun _ => [.closeUnit] }

end Installer.Compile
