import Installer.Compile.Opening
import Installer.Identifier.Synthesis

/-! # Groups

The elements that open a group (chains, package groups, payload groups, containers) and those that
only take a place in one (references to groups and rollback boundaries). -/

namespace Installer.Compile

open Installer.Symbol (ContainerType)
open Planned

/-- The chain of a bundle. -/
def openChain (site : Site) : Planned Body := do
  let e := site.element
  report (e.checkAttributes [
    Field.check (.yesNo "DisableRollback"),
    Field.check (.yesNo "DisableSystemRestore"),
    Field.check (.yesNo "ParallelCache")])
  let id := Identifier.ofName Identifier.chainGroup
  offerAttributes site id.context
  return {
    content := .chainItems
    scope := { cursor := some (.inOrder .packageGroup id.id), context := id.context }
    close := fun _ => [.emit id (.chain {
      disableRollback := (e.value? (.yesNo "DisableRollback")).getD false
      disableSystemRestore := (e.value? (.yesNo "DisableSystemRestore")).getD false
      parallelCache := (e.value? (.yesNo "ParallelCache")).getD false })] }

/-- The authored identifier of an element that has to have one. -/
def requiredId (e : Element) : Planned Identifier :=
  match e.identifier? .id with
  | some id => return id
  | none => do
    report [e.missingAttribute "Id"]
    return Identifier.invalid

/-- A group of packages. -/
def openPackageGroup (site : Site) : Planned Body := do
  report (site.element.checkAttributes [Field.check .id])
  let id ← requiredId site.element
  offerAttributes site id.context
  return {
    content := .chainItems
    scope := { cursor := some (.inOrder .packageGroup id.id), context := id.context }
    close := fun _ => [.emit id .packageGroup] }

/-- A group of payloads. -/
def openPayloadGroup (site : Site) : Planned Body := do
  report (site.element.checkAttributes [Field.check .id])
  let id ← requiredId site.element
  offerAttributes site id.context
  return {
    content := .payloads
    scope := { cursor := some (.inOrder .payloadGroup id.id), context := id.context }
    close := fun _ => [.emit id .payloadGroup] }

/-- The identifier of a container: authored, or made from its name. -/
def containerId (e : Element) : Planned Identifier :=
  match e.identifier? .id, e.value? (.fileName "Name") with
  | some id, _ => return id
  | none, some name => return .ofName (Identifier.ofFileName name)
  | none, none => do
    reportIf (!e.has "Name") (e.expectedAttributes ["Id", "Name"])
    return Identifier.invalid

/-- A container of packages. What is downloaded cannot be attached. -/
def openContainer (site : Site) : Planned Body := do
  let e := site.element
  report (e.checkAttributes [
    Field.check .id,
    Field.check (.fileName "Name"),
    Field.check (.choice ContainerType "Type"),
    Field.check (.text "DownloadUrl")])
  let id ← containerId e
  let containerType := (e.value? (.choice ContainerType "Type")).getD .detached
  let downloadUrl := e.value? (.text "DownloadUrl")
  reportIf (containerType == .attached && downloadUrl.isSome)
    (e.mutuallyExclusive "Type" "DownloadUrl")
  offerAttributes site id.context
  return {
    content := .packageGroupRefs
    scope := {
      parent := .container
      cursor := some (.unordered .container id.id)
      context := id.context }
    close := fun _ => [.emit id (.container {
      name := e.value? (.fileName "Name"), containerType, downloadUrl })] }

/-- A reference to a package group. In a container there is no order to change. -/
def openPackageGroupRef (scope : Scope) (site : Site) : Planned Opening :=
  match scope.cursor with
  | none => halt scope .noCursor
  | some cursor => do
    let e := site.element
    let ordered := scope.parent != .container
    report (e.checkAttributes (Field.check (.reference "Id") ::
      if ordered then [Field.check (.reference "After")] else []))
    report (e.missingAttributes ["Id"])
    let id := (e.value? (.reference "Id")).getD ""
    let after := if ordered then e.value? (.reference "After") else none
    refer .packageGroup id
    let cursor ← register cursor ⟨.packageGroup, id⟩ (after.map (⟨.package, ·⟩))
    within { scope with cursor := some cursor } (leaf site (.ofName id) [])

/-- A reference to a payload group. -/
def openPayloadGroupRef (scope : Scope) (site : Site) : Planned Opening :=
  match scope.cursor with
  | none => halt scope .noCursor
  | some cursor => do
    let e := site.element
    report (e.checkAttributes [Field.check (.reference "Id")])
    report (e.missingAttributes ["Id"])
    let id := (e.value? (.reference "Id")).getD ""
    refer .payloadGroup id
    let cursor ← register cursor ⟨.payloadGroup, id⟩ none
    within { scope with cursor := some cursor } (leaf site (.ofName id) [])

/-- A rollback boundary takes a place among the packages. Without an identifier it is known by its
group and its position. -/
def openRollbackBoundary (scope : Scope) (site : Site) : Planned Opening :=
  match scope.cursor with
  | none => halt scope .noCursor
  | some cursor => do
    let e := site.element
    report (e.checkAttributes [
      Field.check .id,
      Field.check (.yesNo "Vital"),
      Field.check (.yesNo "Transaction"),
      Field.check (.anyText "LogPathVariable")])
    let id := (e.identifier? .id).getD
      (.ofName (Identifier.synthesize "rba" [cursor.group.id, toString site.position]))
    let cursor ← register cursor ⟨.package, id.id⟩ none
    within { scope with cursor := some cursor } <| leaf site id [.emit id (.rollbackBoundary {
      vital := (e.value? (.yesNo "Vital")).getD true
      transaction := (e.value? (.yesNo "Transaction")).getD false
      logPathVariable := e.value? (.anyText "LogPathVariable") })]

end Installer.Compile
