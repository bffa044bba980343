import Installer.Compile.Value
import Installer.Extension
import Installer.Identifier.Synthesis

/-! # Scripted extensions

An extension can be given by a list of rules. A rule says which nodes it is for, which actions are
performed on them and whether they are handled then; the first rule for a node counts. Each action
has a result, which depends on the node alone. -/

namespace Installer.Script

/-- What the value of an attribute is read as. -/
inductive ValueType where
  | identifier
  | string (rule : EmptyRule)
  | yesNo
  | integer (lo hi : Int32)
  | version
  | guid (generatable : Bool)
  | codePage
  | longFileName (relative : Bool)
  | shortFileName
  deriving DecidableEq, Repr

/-- The result of an action. -/
inductive Result where
  | nothing
  /-- There was no attribute to be read. -/
  | absent
  | bool (b : Bool)
  | number (n : Int)
  | text (s : String)
  | identifier (id : Identifier)
  | place (text : String) (position : Nat)
  deriving DecidableEq, Repr

/-- An action of a rule. -/
inductive Action where
  /-- Read a core attribute of the element, or the node itself if no attribute is named. -/
  | get (type : ValueType) (name : Option String)
  /-- Define a symbol, under the identifier that was read last if none is given. -/
  | emit (definition : String) (fields : Symbol.Fields) (id : Option Identifier)
  | refer (r : SymbolReference)
  | group (r : GroupReference)
  | generate (stem : String) (values : List String)
  | text
  | report (kind : DiagnosticKind) (detail : Option String) (args : List String)
      (related : List RelatedNote) (hints : List String)

/-- The two kinds of nodes. -/
inductive NodeKind where
  | ofAttribute
  | ofElement
  deriving DecidableEq, Repr

def NodeKind.of : Offer → NodeKind
  | .ofAttribute _ _ => ofAttribute
  | .ofElement _ _ => ofElement

/-- A rule for nodes of a kind with the given name; a star stands for all names. -/
structure Rule where
  kind : NodeKind
  name : String
  actions : List Action
  handled : Bool

/-- The first rule for a node. -/
def ruleFor? (rules : List Rule) (node : Offer) : Option Rule :=
  rules.find? fun r => r.kind == NodeKind.of node && (r.name == node.name || r.name == "*")

/-- The identifier that counts as read last before one has been read. -/
def unsetIdentifier : Identifier := .ofName "Unset"

/-- The attribute that an action reads. -/
def subjectAttribute? (node : Offer) (name : Option String) : Option Attribute :=
  match name, node with
  | some name, _ => node.subject.element.attribute? name
  | none, .ofAttribute _ a => some a
  | none, .ofElement _ _ => none

/-- Read an attribute as a value. What cannot be read gives nothing, or the invalid identifier. -/
def ValueType.read (type : ValueType) (e : Element) (a : Attribute) : Planned Result :=
  let orNothing {α : Type} (result : α → Result) (read : Reader α) : Planned Result := do
    return ((← read e a).map result).getD .nothing
  match type with
  | identifier => return .identifier (← Reader.identifier.orInvalid e a)
  | string rule => orNothing .text (Reader.string rule)
  | yesNo => orNothing .bool Reader.yesNo
  | integer lo hi => orNothing (.number ·.toInt) (Reader.integer lo hi)
  | version => orNothing .text Reader.version
  | guid generatable => orNothing .text (Reader.guid generatable)
  | codePage => orNothing .number Reader.codePage
  | longFileName relative => orNothing .text (Reader.longFileName relative)
  | shortFileName => orNothing .text Reader.shortFileName

/-- The result of an action on a node, with what is found on the way. -/
def Action.perform (node : Offer) : Action → List Diagnostic × Result
  | .get type name =>
    match subjectAttribute? node name with
    | none => ([], .absent)
    | some a =>
      let result := type.read node.subject.element a
      (result.findings, result.value)
  | .generate stem values => ([], .text (Identifier.synthesize stem values))
  | .text => ([], .place node.subject.element.text node.subject.position)
  | .report kind detail args related hints =>
    ([Diagnostic.of kind node.range detail args related hints], .nothing)
  | .emit _ _ _ | .refer _ | .group _ => ([], .nothing)

/-- Report diagnostics, then go on. -/
def reportAll (ds : List Diagnostic) (next : Hook) : Hook := ds.foldr .report next

/-- The program for actions, where `last` is the identifier that was read last. -/
def program (node : Offer) (handled : Bool) : Identifier → List Action → Hook
  | _, [] => .done handled
  | last, action :: actions =>
    let (findings, result) := action.perform node
    let last :=
      match result with
      | .identifier id => id
      | _ => last
    reportAll findings <|
      match action with
      | .emit definition fields id =>
        .emit (id.getD last) definition fields (program node handled last actions)
      | .refer r => .refer r (program node handled last actions)
      | .group r => .group r (program node handled last actions)
      | _ => program node handled last actions

/-- The extension with the given rules. -/
def extension (space : String) (rules : List Rule) : Extension where
  space := space
  hook := fun node _ =>
    match ruleFor? rules node with
    | none => .done false
    | some rule => program node rule.handled unsetIdentifier rule.actions

/-- The results of the actions on a node. -/
def results (rules : List Rule) (node : Offer) : List Result :=
  match ruleFor? rules node with
  | none => []
  | some rule => rule.actions.map fun action => (action.perform node).2

end Installer.Script
