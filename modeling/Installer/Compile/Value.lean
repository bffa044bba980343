import Installer.CodePage
import Installer.Compile.Finding
import Installer.Compile.Step
import Installer.FileName
import Installer.Guid
import Installer.Identifier
import Installer.Symbol.Package
import Installer.Version

/-! # Values of attributes

A reader takes the value of an attribute. If there is something wrong with it then the reader reports
that and gives no value, and the caller goes on without it. -/

namespace Installer

/-- How an attribute of an element is read: the value, if there is one, and what is done on the way. -/
abbrev Reader (α : Type) := Element → Attribute → Planned (Option α)

/-- What a text has to have. -/
inductive EmptyRule where
  | nonBlank
  | nonEmpty
  | canBeEmpty
  deriving DecidableEq, Repr

def EmptyRule.allows : EmptyRule → String → Bool
  | nonBlank, s => !Text.isAllBlank s
  | nonEmpty, s => !s.isEmpty
  | canBeEmpty, _ => true

namespace Reader

open Planned

variable {α β : Type}

/-- Report what is wrong with a value, and go on without it. -/
def refuse (d : Diagnostic) : Planned (Option α) := do
  report [d]
  return none

@[simp] theorem value_refuse (d : Diagnostic) : (refuse d : Planned (Option α)).value = none := rfl

@[simp] theorem findings_refuse (d : Diagnostic) :
    (refuse d : Planned (Option α)).findings = [d] := rfl

/-- Make something of the values that are read. -/
def map (f : α → β) (read : Reader α) : Reader β := fun e a => do
  return (← read e a).map f

/-- An authored identifier. -/
def identifier : Reader Identifier := fun e a =>
  match Identifier.parse a.value with
  | .ok id => return some id
  | .error .empty => refuse (e.illegalEmpty a)
  | .error .illegal => refuse (e.illegalIdentifier a)
  | .error .reserved => refuse (e.reservedValue a)

/-- The identifier that is read, and the invalid one if there is something wrong with it. -/
def orInvalid (read : Reader Identifier) (e : Element) (a : Attribute) : Planned Identifier := do
  return (← read e a).getD Identifier.invalid

@[simp] theorem value_orInvalid (read : Reader Identifier) (e : Element) (a : Attribute) :
    (read.orInvalid e a).value = (read e a).value.getD Identifier.invalid := rfl

/-- The name of another symbol. It has no access and may be reserved. -/
def reference : Reader String := fun e a =>
  let value := Text.trimmed a.value
  if value.isEmpty then refuse (e.illegalEmpty a)
  else if !Identifier.isLegal value then refuse (e.illegalIdentifier a)
  else return some value

/-- The name of a variable. Names that start with `Wix` are those of built-in variables. -/
def variableName : Reader String := fun e a => do
  match ← reference e a with
  | none => return none
  | some value =>
    if "Wix".toList.isPrefixOf value.toList then refuse (e.reservedValue a) else return some value

/-- Any text that the rule allows. -/
def string (rule : EmptyRule) : Reader String := fun e a =>
  if rule.allows a.value then return some a.value else refuse (e.illegalEmpty a)

/-- A value that is not empty, read by `parse?`; `finding` says what is wrong with other values. -/
def nonEmpty (parse? : String → Option α) (finding : Element → Attribute → Diagnostic) :
    Reader α := fun e a =>
  if a.value.isEmpty then refuse (e.illegalEmpty a)
  else
    match parse? a.value with
    | some v => return some v
    | none => refuse (finding e a)

/-- A choice, by its keyword. -/
def choice (α : Type) [Choice α] : Reader α :=
  nonEmpty (Choice.find? α) fun e a => e.illegalValue a (Choice.keywords α)

def yesNo? (s : String) : Option Bool :=
  if s = "yes" then some true else if s = "no" then some false else none

def yesNo : Reader Bool := nonEmpty yesNo? fun e a => e.illegalValue a ["yes", "no"]

def yesNoDefault : Reader Symbol.YesNoDefault := choice Symbol.YesNoDefault

/-- A number of 64 bits between two bounds. Blanks around it do not matter. -/
def long (lo hi : Int) : Reader Int := fun e a =>
  if a.value.isEmpty then refuse (e.illegalEmpty a)
  else
    match Text.int64? (Text.trimmed a.value) with
    | none => refuse (e.illegalValueBecause a "expected an integer")
    | some n =>
      if lo ≤ n && n ≤ hi then return some n
      else refuse (e.illegalValueBecause a ("expected " ++ toString lo ++ "..=" ++ toString hi))

/-- The number with 32 bits, if it has no more. -/
def narrow? (n : Int) : Option Int32 :=
  if Int32.minValue.toInt ≤ n && n ≤ Int32.maxValue.toInt then some (Int32.ofInt n) else none

/-- A number of 32 bits between two bounds. It is read with 64 bits, and nothing is said if it turns out
to be too large for 32 bits after that. -/
def integer (lo hi : Int32) : Reader Int32 := fun e a => do
  return (← long lo.toInt hi.toInt e a).bind narrow?

/-- A text of a class, as it is. -/
def ofClass (isMember : String → Bool) (reason : String) : Reader String :=
  nonEmpty (fun s => if isMember s then some s else none) fun e a => e.illegalValueBecause a reason

/-- A version, or a variable that stands for one. -/
def version : Reader String :=
  ofClass (fun s => Version.isVersion s || Version.isBound s) "expected a version like `1.2.3.4`"

/-- A GUID in its normal form. If it may be generated later, a star may stand for it. -/
def guid (generatable : Bool) : Reader String :=
  nonEmpty
    (fun s =>
      let value := Text.trimmed s
      if generatable && value = "*" then some "*" else Guid.normalize? value)
    fun e a =>
      e.illegalValueBecause a (if generatable then "expected a GUID or `*`" else "expected a GUID")

def codePage : Reader Int :=
  nonEmpty (fun s => CodePage.parse? (Text.trimmed s)) fun e a =>
    e.illegalValueBecause a "expected a code page number or a web name like `windows-1252`"

def longFileName (relative : Bool) : Reader String :=
  ofClass (FileName.isLong relative)
    (if relative then "expected a file name or relative path" else "expected a file name")

def shortFileName : Reader String := ofClass FileName.isShort "expected an 8.3 file name"

end Reader

end Installer
