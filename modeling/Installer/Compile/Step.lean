import Installer.Document
import Installer.Intermediate

/-! # Steps

What compiling does is a list of steps: diagnostics are reported, sections are opened and closed,
symbols and references are emitted, and foreign attributes and elements are offered to extensions.
A step may also halt the compile. `Logged` computations give a value and write down steps or
diagnostics on the way. -/

namespace Installer

/-- Why a compile cannot go on. Only elements that are nested too deeply are a fault of the document;
the other reasons are that something the rules rely on is not there. -/
inductive Halt where
  | tooDeep
  | noSection
  | noCursor
  | noPackage
  | noComponent
  | noField
  deriving DecidableEq, Repr

/-- What an element tells extensions about itself, in order. -/
abbrev Context := List (String × String)

/-- What a section is opened with. The name and the language are for extensions. -/
structure UnitHeader where
  kind : SectionKind
  id : Option String
  name : Option String := none
  language : Option String := none
  deriving DecidableEq, Repr

/-- A foreign node that is offered to extensions: an attribute of an element, or a child. -/
inductive Offer where
  | ofAttribute (owner : Site) (a : Attribute)
  | ofElement (parent child : Site)

/-- A step of a compile. -/
inductive Step where
  | report (d : Diagnostic)
  | openUnit (u : UnitHeader)
  | closeUnit
  | emit (id : Identifier) (data : Symbol.Data)
  | refer (r : SymbolReference)
  | group (r : GroupReference)
  | offer (node : Offer) (context : Context)
  | halt (h : Halt)

/-- The diagnostic that a step reports. -/
def Step.report? : Step → Option Diagnostic
  | .report d => some d
  | _ => none

/-- A value and what was written down on the way to it. -/
structure Logged (ω α : Type) where
  log : List ω
  value : α

namespace Logged

variable {ω α β : Type}

def tell (log : List ω) : Logged ω Unit := ⟨log, ()⟩

instance : Monad (Logged ω) where
  pure a := ⟨[], a⟩
  bind x f :=
    let y := f x.value
    ⟨x.log ++ y.log, y.value⟩

@[simp] theorem log_pure (a : α) : (pure a : Logged ω α).log = [] := rfl

@[simp] theorem value_pure (a : α) : (pure a : Logged ω α).value = a := rfl

@[simp] theorem log_bind (x : Logged ω α) (f : α → Logged ω β) :
    (x >>= f).log = x.log ++ (f x.value).log := rfl

@[simp] theorem value_bind (x : Logged ω α) (f : α → Logged ω β) :
    (x >>= f).value = (f x.value).value := rfl

@[simp] theorem pure_bind (a : α) (f : α → Logged ω β) : (pure a >>= f) = f a := rfl

@[simp] theorem log_tell (log : List ω) : (tell log).log = log := rfl

end Logged

/-- A value and the steps on the way to it. -/
abbrev Planned (α : Type) := Logged Step α

/-- What is reported on the way to a value. -/
def Logged.findings {α : Type} (x : Planned α) : List Diagnostic := x.log.filterMap Step.report?

namespace Planned

/-- Report findings. -/
def report (ds : List Diagnostic) : Planned Unit := Logged.tell (ds.map Step.report)

/-- Report a finding if the condition holds. -/
def reportIf (condition : Bool) (d : Diagnostic) : Planned Unit :=
  report (if condition then [d] else [])

/-- Promise that a symbol exists. -/
def refer (kind : SymbolKind) (id : String) : Planned Unit := Logged.tell [.refer ⟨kind, id⟩]

/-- Put the next child into a group. -/
def register (c : GroupCursor) (child : Member) (after : Option Member) : Planned GroupCursor :=
  ⟨[.group (c.next child after).1], (c.next child after).2⟩

/-- Offer the foreign attributes of an element to extensions. -/
def offerAttributes (site : Site) (context : Context) : Planned Unit :=
  Logged.tell (site.element.foreignAttributes.map fun a => .offer (.ofAttribute site a) context)

end Planned

namespace Logged

variable {α β : Type}

@[simp] theorem findings_pure (a : α) : (pure a : Planned α).findings = [] := rfl

@[simp] theorem findings_bind (x : Planned α) (f : α → Planned β) :
    (x >>= f).findings = x.findings ++ (f x.value).findings :=
  List.filterMap_append

@[simp] theorem findings_report (ds : List Diagnostic) : (Planned.report ds).findings = ds := by
  simp [findings, Planned.report, List.filterMap_map, Function.comp_def, Step.report?]

end Logged

end Installer
