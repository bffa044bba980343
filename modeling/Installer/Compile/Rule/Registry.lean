import Installer.Compile.Opening
import Installer.Compile.Rule.Grouping
import Installer.Text.LowerCase

/-! # Components and the registry

A component owns registry values. Registry keys can be nested: the root is that of the nearest
element that has one, and the key is joined from the keys on the way (`joinKey`). -/

namespace Installer.Compile

open Installer.Symbol (Bitness RegistryRoot RegistryValueType)
open Planned

/-- The directory of a component of a database that names none. -/
def defaultDirectory : String := "INSTALLFOLDER"

/-- The GUID of a component. Only the compiler of a database can generate one. -/
def componentGuidCheck (env : Env) : String × Check :=
  ("Guid", fun e a =>
    let guid := Reader.guid true e a
    guid.findings ++
      if guid.value = some "*" && !env.inDatabase then
        [e.illegalValueBecause a "a generated guid needs a package or module being compiled"]
      else [])

/-- The directory of a component: authored, or the default one of a database. -/
def componentDirectory (env : Env) (e : Element) : Option String :=
  if e.has "Directory" then e.value? (.reference "Directory")
  else if env.inDatabase then some defaultDirectory
  else none

/-- A component. -/
def openComponent (env : Env) (site : Site) : Planned Body := do
  let e := site.element
  report (e.checkAttributes [
    Field.check .id,
    componentGuidCheck env,
    Field.check (.reference "Directory"),
    Field.check (.choice Bitness "Bitness"),
    Field.check (.yesNo "KeyPath")])
  let id ← requiredId e
  reportIf (!e.has "Directory" && !env.inDatabase) (e.missingAttribute "Directory")
  let directory := componentDirectory env e
  Logged.tell (directory.toList.map fun d => .refer ⟨.directory, d⟩)
  offerAttributes site id.context
  return {
    content := .component
    scope := { parent := .component id.id, context := id.context }
    close := fun _ => [.emit id (.component {
      guid := e.value? (.generatableGuid "Guid")
      directory
      bitness := (e.value? (.choice Bitness "Bitness")).getD .default
      keyPath := (e.value? (.yesNo "KeyPath")).getD false })] }

/-! ### Registry -/

/-- What registry elements inherit: the component, and the root and the key so far. -/
structure RegistryPlace where
  component : String
  root : Option RegistryRoot
  key : Option String

def Parent.registryPlace? : Parent → Option RegistryPlace
  | .component id => some ⟨id, none, none⟩
  | .registryKey component root key => some ⟨component, root, key⟩
  | _ => none

/-- A key below another one. -/
def joinKey : Option String → Option String → Option String
  | some parent, some key => some (parent ++ "\\" ++ key)
  | some parent, none => some parent
  | none, key => key

/-- The place of a registry element inside of another one. -/
def RegistryPlace.enter (place : RegistryPlace) (e : Element) : RegistryPlace where
  component := place.component
  root := (e.value? (.choice RegistryRoot "Root")).or place.root
  key := joinKey place.key (e.value? (.text "Key"))

/-- A registry key. -/
def openRegistryKey (scope : Scope) (site : Site) : Planned Opening :=
  match Parent.registryPlace? scope.parent with
  | none => halt scope .noComponent
  | some place => do
    let e := site.element
    report (e.checkAttributes [
      Field.check (.choice RegistryRoot "Root"),
      Field.check (.text "Key")])
    reportIf (place.root.isNone && !e.has "Root") (e.missingAttribute "Root")
    report (e.missingAttributes ["Key"])
    let inner := place.enter e
    let context : Context := [
      ("ComponentId", inner.component),
      ("Root", (inner.root.map Choice.keyword).getD ""),
      ("Key", inner.key.getD "")]
    offerAttributes site context
    within scope (return {
      content := .component
      scope := { parent := .registryKey inner.component inner.root inner.key, context }
      close := fun _ => [] })

/-- Whether a text is a registry integer: a 32-bit number, maybe behind a number sign. -/
def isRegistryInteger (s : String) : Bool :=
  let digits :=
    match s.toList with
    | '#' :: digits => digits
    | cs => cs
  (Text.int32? (String.ofList digits)).isSome

/-- The finding about a value that has to be an integer. -/
def registryValueFindings (e : Element) (valueType : RegistryValueType) : List Diagnostic :=
  match valueType, e.value? (.anyText "Value"), e.attribute? "Value" with
  | .integer, some v, some a =>
    if isRegistryInteger v then [] else [e.illegalValueBecause a "expected a 32-bit integer"]
  | _, _, _ => []

/-- The identifier of a registry value without an authored one. The case of its key does not
matter. -/
def registryValueId (component : String) (root : RegistryRoot) (key name : String) : Identifier :=
  .ofName (Identifier.synthesize "reg" [component, Choice.keyword root, Text.lowerCase key, name])

/-- A registry value. -/
def openRegistryValue (scope : Scope) (site : Site) : Planned Opening :=
  match Parent.registryPlace? scope.parent with
  | none => halt scope .noComponent
  | some place => do
    let e := site.element
    report (e.checkAttributes [
      Field.check .id,
      Field.check (.choice RegistryRoot "Root"),
      Field.check (.text "Key"),
      Field.check (.anyText "Name"),
      Field.check (.anyText "Value"),
      Field.check (.choice RegistryValueType "Type"),
      Field.check (.yesNo "KeyPath")])
    reportIf (place.root.isNone && !e.has "Root") (e.missingAttribute "Root")
    reportIf (place.key.isNone && !e.has "Key") (e.missingAttribute "Key")
    let valueType := (e.value? (.choice RegistryValueType "Type")).getD .string
    report (registryValueFindings e valueType)
    let inner := place.enter e
    let root := inner.root.getD .localMachine
    let key := inner.key.getD ""
    let name := e.value? (.anyText "Name")
    let id := (e.identifier? .id).getD (registryValueId inner.component root key (name.getD ""))
    within scope <| leaf site id [.emit id (.registry {
      component := inner.component
      root
      key
      name
      value := e.value? (.anyText "Value")
      valueType
      keyPath := (e.value? (.yesNo "KeyPath")).getD false })]

end Installer.Compile
