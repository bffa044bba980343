import Installer.Compile.Rule.Grouping

/-! # Actions

A custom action has one source, which says where its code is found, and one target, which says what
is run there; a script in the text of the element is both. Sequences schedule custom actions, dialogs
and standard actions: at a number, when the sequence ends, or before or after another action. -/

namespace Installer.Compile

open Installer.Symbol (ActionSource ActionTarget ExecuteType ReturnType Sequence SequenceTable)
open Planned

/-! ### Custom actions -/

def scriptField : Field ActionTarget := .choice ActionTarget "Script"

/-- The attributes that are sources. -/
def sourceAttributes : List (String × ActionSource) := [
  ("BinaryRef", .binary), ("FileRef", .file), ("Property", .property),
  ("Directory", .directory), ("Script", .inlineScript)]

/-- The attributes that are targets. -/
def targetAttributes : List (String × ActionTarget) := [
  ("DllEntry", .dll), ("ExeCommand", .exe), ("Value", .value), ("JScriptCall", .jscript),
  ("VBScriptCall", .vbscript)]

def isSource (name : String) : Bool := (sourceAttributes.lookup name).isSome

def isTarget (name : String) : Bool := (targetAttributes.lookup name).isSome

/-- How the text of a target is read. -/
def targetReader : ActionTarget → Reader String
  | .exe | .value => Reader.string .canBeEmpty
  | .dll | .jscript | .vbscript => Reader.string .nonBlank

def customActionChecks : List (String × Check) :=
  [Field.check .id, Field.check scriptField] ++
  ["BinaryRef", "FileRef", "Property", "Directory"].map (fun name => Field.check (.reference name)) ++
  targetAttributes.map (fun t => Field.check ⟨t.1, targetReader t.2⟩) ++ [
  Field.check (.choice ExecuteType "Execute"),
  Field.check (.choice ReturnType "Return"),
  Field.check (.yesNo "Impersonate"),
  Field.check (.yesNo "HideTarget")]

/-- The findings about the attributes of a custom action, of which `source` and `target` have been
met already. Of the sources only the first is read, and so it is with the targets. -/
def customActionFindings (e : Element) :
    Option String → Option String → List Attribute → List Diagnostic
  | _, _, [] => []
  | source, target, a :: attributes =>
    if isSource a.name then
      match source with
      | some first => e.mutuallyExclusive first a.name ::
          customActionFindings e source target attributes
      | none => e.checkAttribute customActionChecks a ++
          customActionFindings e (some a.name) target attributes
    else if isTarget a.name then
      match target with
      | some first => e.mutuallyExclusive first a.name ::
          customActionFindings e source target attributes
      | none => e.checkAttribute customActionChecks a ++
          customActionFindings e source (some a.name) attributes
    else e.checkAttribute customActionChecks a ++ customActionFindings e source target attributes

/-- The first of the attributes that are sources, with its value if it is a legal reference. -/
def sourceOf? (e : Element) : Option (ActionSource × Attribute) :=
  (e.coreAttributes.find? (isSource ·.name)).bind fun a =>
    (sourceAttributes.lookup a.name).map (·, a)

/-- The first of the attributes that are targets. -/
def targetOf? (e : Element) : Option (ActionTarget × Attribute) :=
  (e.coreAttributes.find? (isTarget ·.name)).bind fun a =>
    (targetAttributes.lookup a.name).map (·, a)

/-- The code that a custom action runs. -/
structure ActionCode where
  sourceKind : ActionSource
  source : Option String
  targetKind : ActionTarget
  target : Option String

/-- The code of a custom action, with what is found about it. -/
def codeOf (e : Element) : List Diagnostic × ActionCode :=
  match sourceOf? e, targetOf? e with
  | none, _ =>
    ([e.expectedAttributes (sourceAttributes.map (·.1))], ⟨.binary, none, .dll, none⟩)
  | some (.inlineScript, _), some (kind, a) =>
    ([e.mutuallyExclusive "Script" a.name],
      ⟨.inlineScript, none, kind, (targetReader kind e a).value⟩)
  | some (.inlineScript, script), none =>
    (if e.text.isEmpty then
      ((e.attribute? "Script").map
        (e.illegalValueBecause · "an inline script needs a body")).toList
     else [],
      ⟨.inlineScript, none, (scriptField.read e script).value.getD .jscript, some e.text⟩)
  | some (kind, a), none =>
    ([e.expectedAttributes (targetAttributes.map (·.1))],
      ⟨kind, (Reader.reference e a).value, .dll, none⟩)
  | some (sourceKind, s), some (targetKind, t) =>
    ([], ⟨sourceKind, (Reader.reference e s).value, targetKind,
      (targetReader targetKind e t).value⟩)

/-- What a source of this kind is a reference to. -/
def referenceKind? : ActionSource → Option SymbolKind
  | .binary => some .binary
  | .file => some .file
  | .directory => some .directory
  | .property | .inlineScript => none

/-- A custom action. -/
def openCustomAction (site : Site) : Planned Body := do
  let e := site.element
  report (customActionFindings e none none e.coreAttributes)
  let id ← requiredId e
  let (findings, code) := codeOf e
  report findings
  match referenceKind? code.sourceKind, code.source with
  | some kind, some source => refer kind source
  | _, _ => pure ()
  leaf site id [.emit id (.customAction {
    sourceKind := code.sourceKind
    source := code.source
    targetKind := code.targetKind
    target := code.target
    execute := (e.value? (.choice ExecuteType "Execute")).getD .immediate
    returnType := (e.value? (.choice ReturnType "Return")).getD .check
    impersonate := (e.value? (.yesNo "Impersonate")).getD true
    hideTarget := (e.value? (.yesNo "HideTarget")).getD false })]

/-! ### Sequences -/

/-- A sequence of actions. It has no attributes. -/
def openSequence (s : Sequence) (env : Env) (site : Site) : Planned Body := do
  report (site.element.checkAttributes [])
  let table : SequenceTable := ⟨s, env.inModule⟩
  let context : Context := [("Table", table.name)]
  offerAttributes site context
  return {
    content := .sequence
    scope := { parent := .sequence table, context }
    close := fun _ => [] }

/-- The ends of a sequence, by the numbers that stand for them. -/
inductive SequenceEnd where
  | success
  | cancel
  | error
  | suspend
  deriving DecidableEq, Repr

instance : Choice SequenceEnd where
  keyword
    | .success => "success"
    | .cancel => "cancel"
    | .error => "error"
    | .suspend => "suspend"
  choices := [.success, .cancel, .error, .suspend]

def SequenceEnd.number : SequenceEnd → Int
  | success => -1
  | cancel => -2
  | error => -3
  | suspend => -4

/-- The attributes that say when an action is run. -/
def schedulingNames : List String := ["Sequence", "OnExit", "Before", "After"]

def sequenceField : Field Int := .integer "Sequence" 1 32767

/-- The fields of a scheduled action. Standard actions are not run at the end of a sequence. -/
def actionChecks (kind : ActionKind) : List (String × Check) :=
  kind.nameAttribute?.toList.map (fun name => Field.check (.reference name)) ++
  (if kind = .standard then [] else [Field.check (.choice SequenceEnd "OnExit")]) ++ [
  Field.check sequenceField,
  Field.check (.reference "Before"),
  Field.check (.reference "After"),
  Field.check (.yesNo "Suppress"),
  Field.check (.text "Condition"),
  Field.check (.yesNo "Overridable")]

/-- The scheduling attributes of an action, in the order in which they are authored. -/
def authoredScheduling (kind : ActionKind) (e : Element) : List String :=
  (e.coreAttributes.map (·.name)).filter fun name =>
    schedulingNames.contains name && !(kind == .standard && name == "OnExit")

/-- The finding that an action is scheduled relative to itself. -/
def selfRelative (e : Element) (action name : String) : List Diagnostic :=
  match e.last? [name] with
  | none => []
  | some a =>
    if !action.isEmpty && (Reader.reference e a).value == some action then
      [e.illegalValueBecause a "an action cannot be scheduled relative to itself"]
    else []

/-- The findings about the schedule of an action: there is at most one way to schedule it, none if it
is suppressed, and it is not relative to itself. -/
def scheduleFindings (kind : ActionKind) (e : Element) (action : String) : List Diagnostic :=
  let authored := authoredScheduling kind e
  if (e.value? (.yesNo "Suppress")).getD false then
    authored.head?.toList.map (e.mutuallyExclusive "Suppress")
  else
    (match authored with
    | first :: second :: _ => [e.mutuallyExclusive first second]
    | [] => if kind = .standard then [] else [e.expectedAttributes schedulingNames]
    | [_] => []) ++
    selfRelative e action "Before" ++ selfRelative e action "After"

/-- The number at which an action is run. -/
def sequenceNumber (kind : ActionKind) (e : Element) : Option Int :=
  (e.value? sequenceField).or
    (if kind = .standard then none
     else (e.value? (.choice SequenceEnd "OnExit")).map (·.number))

/-- The name of an action in a table. -/
def actionId (table : SequenceTable) (action : String) : String := table.name ++ "." ++ action

/-- The steps after the children of a scheduled action. -/
def actionSteps (kind : ActionKind) (e : Element) (table : SequenceTable) (action : String) :
    List Step :=
  let id := Identifier.ofName (actionId table action)
  if (e.value? (.yesNo "Suppress")).getD false then [.emit id (.suppressAction { table, action })]
  else
    let before := e.value? (.reference "Before")
    let after := e.value? (.reference "After")
    (kind.symbolKind?.toList.map fun symbol => .refer ⟨symbol, action⟩) ++
    ((before.toList ++ after.toList).map fun other => .refer ⟨.action, actionId table other⟩) ++
    [.emit id (.action {
      table
      action
      condition := e.value? (.text "Condition")
      sequence := sequenceNumber kind e
      before
      after
      overridable := (e.value? (.yesNo "Overridable")).getD false })]

/-- The name of a scheduled action. -/
def actionName (kind : ActionKind) (e : Element) : String :=
  match kind.nameAttribute? with
  | some name => (e.value? (.reference name)).getD ""
  | none => e.name

/-- A scheduled action. Dialogs are shown only in the sequences for them. -/
def openAction (kind : ActionKind) (scope : Scope) (site : Site) : Planned Opening :=
  let e := site.element
  match scope.parent with
  | .sequence table =>
    if kind == .dialog && !table.sequence.isInterface then
      refuse scope (site.parent.unexpectedElement e)
    else do
      report (e.checkAttributes (actionChecks kind))
      report (e.missingAttributes kind.nameAttribute?.toList)
      let action := actionName kind e
      report (scheduleFindings kind e action)
      within scope (leaf site (.ofName (actionId table action)) (actionSteps kind e table action))
  | _ => refuse scope (site.parent.unexpectedElement e)

end Installer.Compile
