import Installer.Compile.Opening
import Installer.FileName
import Installer.Identifier.Synthesis

/-! # Where payloads come from

A payload is a file that is carried along, or a remote file that is described by its hash and size
and downloaded. It is authored by an element of its own (`openPayload`), or belongs to a chain
package, which describes it by its own attributes or by a typed payload element
(`packagePayload`). -/

namespace Installer.Compile

open Installer.Symbol (PackageKind Payload)
open Planned

/-- The attributes that say where the payload of a package comes from. -/
def sourceNames : List String := ["Name", "SourceFile", "DownloadUrl", "Compressed"]

/-- The attributes that only remote payloads have. -/
def remoteNames : List String := [
  "Hash", "Size", "CertificatePublicKey", "CertificateThumbprint", "Description", "ProductName",
  "Version"]

/-- The attributes that remote payloads need. -/
def remoteRequired : List String := ["Name", "DownloadUrl", "Hash", "Size"]

def sourceChecks : List (String × Check) := [
  Field.check (.relativePath "Name"),
  Field.check (.text "SourceFile"),
  Field.check (.text "DownloadUrl")]

def compressedCheck : String × Check := Field.check (.yesNo "Compressed")

def sizeField : Field Int := .long "Size" 0 9223372036854775807

def remoteChecks : List (String × Check) := [
  Field.check (.text "Hash"),
  Field.check sizeField,
  Field.check (.text "CertificatePublicKey"),
  Field.check (.text "CertificateThumbprint"),
  Field.check (.text "Description"),
  Field.check (.text "ProductName"),
  Field.check (.version "Version")]

/-- Whether the payload of a package of this kind may be remote. -/
def allowsRemote : PackageKind → Bool
  | .exe | .msu | .bundle => true
  | .msi | .msp => false

/-- What describes a payload: an element of its own, the typed payload element of a package, or the
package itself. -/
inductive PayloadForm where
  | own
  | typed (kind : PackageKind)
  | inline
  deriving DecidableEq, Repr

namespace PayloadForm

/-- Whether a payload that is described in this form may be remote. -/
def remoteAllowed : PayloadForm → Bool
  | own => true
  | typed kind => allowsRemote kind
  | inline => false

/-- The attributes that describe the payload. A typed payload element cannot say whether its payload is
compressed, and a package has an identifier of its own. -/
def names : PayloadForm → List String
  | own => "Id" :: sourceNames ++ remoteNames
  | typed kind =>
    "Id" :: sourceNames.filter (· != "Compressed") ++ if allowsRemote kind then remoteNames else []
  | inline => sourceNames

/-- The checks of the attributes of a payload element. -/
def checks : PayloadForm → List (String × Check)
  | own => Field.check .id :: compressedCheck :: sourceChecks ++ remoteChecks
  | typed kind =>
    Field.check .id :: sourceChecks ++ if allowsRemote kind then remoteChecks else []
  | inline => compressedCheck :: sourceChecks

end PayloadForm

/-- What is gathered about a payload from the attributes of one element: its identifier, the values that
could be read, and the names of the attributes that were there, whether they could be read or not. -/
structure PayloadFields where
  id : Option Identifier := none
  values : Payload := {}
  seen : List String := []

namespace PayloadFields

/-- Whether an attribute was there. -/
def saw (fields : PayloadFields) (name : String) : Bool := fields.seen.contains name

/-- The first attribute that was there and has one of the given names. -/
def firstSeen? (fields : PayloadFields) (names : List String) : Option String :=
  fields.seen.find? names.contains

/-- Take one more attribute. Its value replaces that of an attribute of the same name, also if it cannot
be read. For an attribute that payloads do not have there is no field. -/
def take (fields : PayloadFields) (e : Element) (a : Attribute) : Option PayloadFields :=
  let seen := fields.seen ++ [a.name]
  let v := fields.values
  match a.name with
  | "Id" => some { fields with id := some (Reader.identifier.orInvalid e a).value, seen }
  | "Name" => some { fields with values := { v with name := (Reader.longFileName true e a).value }, seen }
  | "SourceFile" =>
    some { fields with values := { v with sourceFile := (Reader.string .nonBlank e a).value }, seen }
  | "DownloadUrl" =>
    some { fields with values := { v with downloadUrl := (Reader.string .nonBlank e a).value }, seen }
  | "Compressed" =>
    some { fields with values := { v with compressed := (Reader.yesNo e a).value }, seen }
  | "Hash" => some { fields with values := { v with hash := (Reader.string .nonBlank e a).value }, seen }
  | "Size" => some { fields with values := { v with size := (sizeField.read e a).value }, seen }
  | "CertificatePublicKey" =>
    some { fields with
      values := { v with certificatePublicKey := (Reader.string .nonBlank e a).value }, seen }
  | "CertificateThumbprint" =>
    some { fields with
      values := { v with certificateThumbprint := (Reader.string .nonBlank e a).value }, seen }
  | "Description" =>
    some { fields with values := { v with description := (Reader.string .nonBlank e a).value }, seen }
  | "ProductName" =>
    some { fields with values := { v with productName := (Reader.string .nonBlank e a).value }, seen }
  | "Version" => some { fields with values := { v with version := (Reader.version e a).value }, seen }
  | _ => none

/-- Take the attributes that describe a payload in the given form, in order. -/
def gather (e : Element) (form : PayloadForm) : Planned PayloadFields :=
  match (e.coreAttributes.filter (form.names.contains ·.name)).foldlM (take · e) {} with
  | some fields => return fields
  | none => ⟨[.halt .noField], {}⟩

/-- The payload with these values. If it has no name then that of its source file is its name. -/
def payload (fields : PayloadFields) (remote : Bool) : Payload :=
  { fields.values with
    name := fields.values.name.or (fields.values.sourceFile.map FileName.lastName), remote }

/-- The findings about what a remote payload needs. -/
def missing (fields : PayloadFields) (e : Element) : List Diagnostic :=
  (remoteRequired.filter (!fields.saw ·)).map e.missingAttribute

/-- The payload of an element that describes nothing else. It is remote if it is allowed to be, has
no source file and has an attribute that only remote payloads have; otherwise its name stands for a
missing source file. -/
def resolve (fields : PayloadFields) (e : Element) (remoteAllowed : Bool) : Planned Payload :=
  let remoteName := fields.firstSeen? remoteNames
  if fields.saw "SourceFile" then do
    report (remoteName.toList.map (e.mutuallyExclusive "SourceFile"))
    return fields.payload false
  else if remoteAllowed && remoteName.isSome then do
    report (fields.missing e)
    return fields.payload true
  else if fields.saw "Name" then
    return { fields with values.sourceFile := fields.values.name }.payload false
  else do
    report [e.missingAttribute "SourceFile"]
    return fields.payload false

/-- The payload of a package that describes it by its own attributes. It is carried along, and its name
stands for a source file that could not be read. -/
def resolveInline (fields : PayloadFields) : Payload :=
  payload { values := {
    name := fields.values.name
    sourceFile := fields.values.sourceFile.or fields.values.name
    downloadUrl := fields.values.downloadUrl
    compressed := fields.values.compressed } } false

end PayloadFields

/-- A payload in the group around it. -/
def openPayload (scope : Scope) (site : Site) : Planned Opening :=
  match scope.cursor with
  | none => halt scope .noCursor
  | some cursor => do
    let e := site.element
    report (e.checkAttributes PayloadForm.own.checks)
    let fields ← PayloadFields.gather e .own
    let payload ← fields.resolve e PayloadForm.own.remoteAllowed
    let id := fields.id.getD (.ofName (Identifier.synthesize "pay" [
      payload.sourceFile.getD "", payload.name.getD "", payload.downloadUrl.getD ""]))
    let cursor ← register cursor ⟨.payload, id.id⟩ none
    within { scope with cursor := some cursor } (leaf site id [.emit id (.payload payload)])

/-! ### Payloads of packages -/

/-- The child that authors the payload of a package, with its position. -/
def typedPayload? (e : Element) (kind : PackageKind) : Option (Element × Nat) :=
  e.children.zipIdx.find? fun c => c.1.isCore && c.1.name == kind.payloadElementName

/-- Report the core children of an element that has none, and offer the others to extensions. -/
def scanChildren (site : Site) (context : Context) : Planned Unit :=
  Logged.tell <| site.element.children.zipIdx.map fun c =>
    if c.1.isCore then .report (site.element.unexpectedElement c.1)
    else .offer (.ofElement site (site.child c.2 c.1)) context

/-- Read the typed payload element of a package whose own attributes were gathered before. -/
def readTypedPayload (kind : PackageKind) (package : Element) (inline : PayloadFields) (site : Site) :
    Planned (Option Identifier × Payload) := do
  let e := site.element
  report ((inline.firstSeen? sourceNames).toList.map (package.elementWithAttribute e))
  report (e.checkAttributes (PayloadForm.typed kind).checks)
  let fields ← PayloadFields.gather e (.typed kind)
  let payload ← fields.resolve e (PayloadForm.typed kind).remoteAllowed
  let context := (fields.id.map (·.validContext)).getD []
  offerAttributes site context
  scanChildren site context
  return (fields.id, payload)

/-- The identifier of a package, that of its payload, and the payload. -/
structure PackagePayload where
  packageId : Identifier
  payloadId : Identifier
  payload : Payload

/-- The payload of a package, from its typed payload element or from its own attributes. A package
without an identifier is named after its payload, and a payload without one after its package. -/
def packagePayload (kind : PackageKind) (site : Site) : Planned PackagePayload := do
  let e := site.element
  let inline ← PayloadFields.gather e .inline
  let (typedId, payload) ←
    match typedPayload? e kind with
    | some (child, position) => readTypedPayload kind e inline (site.child position child)
    | none => do
      reportIf (!inline.saw "SourceFile" && !inline.saw "Name")
        (e.expectedAttributeOrElement "SourceFile" kind.payloadElementName)
      pure (none, inline.resolveInline)
  let packageId := (e.identifier? .id).getD <|
    match payload.name with
    | some name => .ofName (Identifier.ofFileName name)
    | none => Identifier.invalid
  return ⟨packageId, typedId.getD packageId, payload⟩

end Installer.Compile
