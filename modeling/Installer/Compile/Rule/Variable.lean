import Installer.Compile.Opening

/-! # Variables

A variable has a type, authored or found from its value: `inferType` says which. -/

namespace Installer

open Installer.Symbol (VariableType)

namespace Variable

/-- A variable with an authored type has no value. -/
inductive TypeError where
  | missingValue
  deriving DecidableEq, Repr

def TypeError.message : TypeError → String
  | missingValue => "a variable with an explicit type needs a value"

/-- The type of a variable from its authored type and its value. An authored type needs a value that
is not empty. Otherwise marked versions are versions, 64-bit integers are numeric, and all other
values are strings; without a value the type is unknown. -/
def inferType (authored : Option VariableType) (value : Option String) :
    Except TypeError VariableType :=
  match authored, value with
  | some type, some v => if v.isEmpty then .error .missingValue else .ok type
  | some _, none => .error .missingValue
  | none, none => .ok .unknown
  | none, some v =>
    if Version.isMarked v then .ok .version
    else if (Text.int64? v).isSome then .ok .numeric
    else .ok .string

/-- Why a value that is not empty does not have the authored type. -/
def mismatch? (authored : Option VariableType) (value : String) : Option String :=
  if value.isEmpty then none
  else
    match authored with
    | some .numeric =>
      if (Text.int64? value).isSome then none else some "expected a 64-bit integer"
    | some .version =>
      if Version.isVersion value || Version.isMarked value then none
      else some "expected a version like `1.2.3.4`"
    | _ => none

end Variable

namespace Compile

open Planned

/-- The findings about the value of a variable. -/
def variableFindings (e : Element) : List Diagnostic :=
  let authored := e.value? (.choice VariableType "Type")
  let value := e.value? (.anyText "Value")
  let missing :=
    match Variable.inferType authored value with
    | .ok _ => []
    | .error .missingValue =>
      match e.attribute? "Value" with
      | some a => [e.illegalEmpty a]
      | none => [e.missingAttribute "Value"]
  let mismatched :=
    match value, e.attribute? "Value" with
    | some v, some a => ((Variable.mismatch? authored v).map (e.illegalValueBecause a)).toList
    | _, _ => []
  missing ++ mismatched

/-- A variable of a bundle. Its name is its identifier. -/
def openVariable (site : Site) : Planned Body := do
  let e := site.element
  report (e.checkAttributes [
    Field.check ⟨"Name", Reader.variableName⟩,
    Field.check (.anyText "Value"),
    Field.check (.choice VariableType "Type"),
    Field.check (.yesNo "Hidden"),
    Field.check (.yesNo "Persisted")])
  report (e.missingAttributes ["Name"])
  report (variableFindings e)
  let value := e.value? (.anyText "Value")
  let id := ((e.value? ⟨"Name", Reader.variableName⟩).map Identifier.ofName).getD Identifier.invalid
  leaf site id [.emit id (.variableValue {
    value
    variableType :=
      (Variable.inferType (e.value? (.choice VariableType "Type")) value).toOption.getD .unknown
    hidden := (e.value? (.yesNo "Hidden")).getD false
    persisted := (e.value? (.yesNo "Persisted")).getD false })]

end Compile

end Installer
