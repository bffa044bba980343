import Installer.Compile.Rule.Grouping

/-! # Properties

The properties of databases and those of patches. -/

namespace Installer.Compile

open Planned

/-- A property of a database. -/
def openProperty (site : Site) : Planned Body := do
  let e := site.element
  report (e.checkAttributes [
    Field.check .id,
    Field.check (.anyText "Value"),
    Field.check (.yesNo "Secure"),
    Field.check (.yesNo "Hidden"),
    Field.check (.yesNo "Admin")])
  let id ← requiredId e
  leaf site id [.emit id (.property {
    value := e.value? (.anyText "Value")
    secure := (e.value? (.yesNo "Secure")).getD false
    hidden := (e.value? (.yesNo "Hidden")).getD false
    admin := (e.value? (.yesNo "Admin")).getD false })]

/-- A property of a patch. -/
def openPatchProperty (site : Site) : Planned Body := do
  let e := site.element
  report (e.checkAttributes [Field.check (.text "Name"), Field.check (.anyText "Value")])
  report (e.missingAttributes ["Name", "Value"])
  let name := (e.value? (.text "Name")).getD ""
  let id := Identifier.ofName (Identifier.synthesize "pp" [name])
  leaf site id [.emit id (.patchProperty {
    name, value := (e.value? (.anyText "Value")).getD "" })]

end Installer.Compile
