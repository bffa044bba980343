import Installer.Compile.Opening
import Installer.FileName
import Installer.Identifier.Synthesis

/-! # Parts of bundles

The bootstrapper application, the log, the updates and the related bundles of a bundle. -/

namespace Installer.Compile

open Installer.Symbol (RelatedAction)
open Planned

/-- The identifier of a bootstrapper application without an authored one. -/
def defaultApplication : String := "WixBootstrapperApplication"

/-- The bootstrapper application. Its own file is the first of its payloads. -/
def openBootstrapperApplication (site : Site) : Planned Body := do
  let e := site.element
  report (e.checkAttributes [
    Field.check .id,
    Field.check (.text "SourceFile"),
    Field.check (.relativePath "Name")])
  let id := (e.identifier? .id).getD (.ofName defaultApplication)
  let sourceFile := e.value? (.text "SourceFile")
  let name := e.value? (.relativePath "Name")
  offerAttributes site id.context
  let start := GroupCursor.inOrder .container Identifier.interfaceContainer
  let cursor ←
    match sourceFile with
    | none => pure start
    | some file => do
      Logged.tell [.emit id (.payload {
        name := some (name.getD (FileName.lastName file))
        sourceFile := some file
        compressed := some true })]
      register start ⟨.payload, id.id⟩ none
  return {
    content := .payloads
    scope := { cursor := some cursor, context := id.context }
    close := fun _ => [.emit id (.bootstrapperApplication { sourceFile, name })] }

/-- Another bundle that this one is related to. -/
def openRelatedBundle (site : Site) : Planned Body := do
  let e := site.element
  report (e.checkAttributes [
    Field.check (.guid "Code"),
    Field.check (.choice RelatedAction "Action")])
  report (e.missingAttributes ["Code"])
  let code := (e.value? (.guid "Code")).getD ""
  let id := Identifier.ofName (Identifier.synthesize "rlb" [code])
  leaf site id [.emit id (.relatedBundle {
    code, action := (e.value? (.choice RelatedAction "Action")).getD .detect })]

/-- The log. An empty variable name means that the path is kept in no variable. -/
def openLog (site : Site) : Planned Body := do
  let e := site.element
  report (e.checkAttributes [
    Field.check (.anyText "PathVariable"),
    Field.check (.fileName "Prefix"),
    Field.check (.text "Extension"),
    Field.check (.yesNo "Disable")])
  let pathVariable := Text.trimmed ((e.value? (.anyText "PathVariable")).getD "WixBundleLog")
  let stem := (e.value? (.fileName "Prefix")).getD "Setup"
  let extension := (e.value? (.text "Extension")).getD "log"
  let id := Identifier.ofName (Identifier.synthesize "log" [pathVariable, stem, extension])
  leaf site id [.emit id (.bundleLog {
    pathVariable := if pathVariable.isEmpty then none else some pathVariable
    stem
    extension
    disabled := (e.value? (.yesNo "Disable")).getD false })]

/-- The place where updates are found. -/
def openUpdate (site : Site) : Planned Body := do
  let e := site.element
  report (e.checkAttributes [Field.check (.text "Location")])
  report (e.missingAttributes ["Location"])
  let location := (e.value? (.text "Location")).getD ""
  let id := Identifier.ofName (Identifier.synthesize "upd" [location])
  leaf site id [.emit id (.bundleUpdate { location })]

end Installer.Compile
