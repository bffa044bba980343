import Installer.Proofs.Surroundings
import Installer.Proofs.Walk

/-! # What is found among steps

Much of what is to be known of a plan is about steps of one sort: the symbols that are defined, the
places in groups, the nodes that are offered. Such steps are picked out by a function, and
`Logged.collect` is what it finds on the way to a value. Findings are reported all over the place and
never looked for (`Step.IgnoresReports`). -/

namespace Installer

open Compile Planned

/-- What a function finds among the steps on the way to a value. -/
def Logged.collect {α β : Type} (f : Step → Option β) (x : Logged Step α) : List β :=
  x.log.filterMap f

/-- A function that finds nothing in a report. -/
class Step.IgnoresReports {β : Type} (f : Step → Option β) : Prop where
  report (d : Diagnostic) : f (.report d) = none

section
variable {α β γ : Type} (f : Step → Option γ)

namespace Logged

@[simp] theorem collect_pure (a : α) : (pure a : Logged Step α).collect f = [] := rfl

@[simp] theorem collect_bind (x : Logged Step α) (g : α → Logged Step β) :
    (x >>= g).collect f = x.collect f ++ (g x.value).collect f := by
  simp [collect]

@[simp] theorem collect_tell (l : List Step) : (tell l).collect f = l.filterMap f := rfl

end Logged

/-! ### The foreign nodes of an element -/

namespace Site

/-- The foreign attributes of an element, as they are offered. -/
def foreignAttributes (s : Site) : List Offer := s.element.foreignAttributes.map (.ofAttribute s)

/-- The foreign children of an element from a list of children that starts at the given position. -/
def foreignChildren (s : Site) (position : Nat) (children : List Element) : List Offer :=
  ((children.zipIdx position).filter (!·.1.isCore)).map fun c => .ofElement s (s.child c.2 c.1)

/-- The foreign nodes of an element: its foreign attributes, then its foreign children. -/
def foreignNodes (s : Site) : List Offer :=
  s.foreignAttributes ++ s.foreignChildren 0 s.element.children

/-- The element that authors the payload of a package. -/
def typedPayload? (s : Site) (kind : Symbol.PackageKind) : Option Site :=
  (Compile.typedPayload? s.element kind).map fun c => s.child c.2 c.1

/-- What extensions are told about the element that authors the payload of a package. -/
def payloadContext (s : Site) : Context := ((s.element.identifier? .id).map (·.validContext)).getD []

end Site

namespace Planned

@[simp] theorem collect_refer (kind : SymbolKind) (id : String) :
    (refer kind id).collect f = (f (.refer ⟨kind, id⟩)).toList := by
  cases h : f (.refer ⟨kind, id⟩) <;> simp [refer, h]

@[simp] theorem collect_register (c : GroupCursor) (child : Member) (after : Option Member) :
    (register c child after).collect f = (f (.group (c.next child after).1)).toList := by
  cases h : f (.group (c.next child after).1) <;> simp [register, Logged.collect, h]

theorem collect_offerAttributes (site : Site) (context : Context) :
    (offerAttributes site context).collect f =
      site.foreignAttributes.filterMap fun node => f (.offer node context) := by
  simp only [offerAttributes, Logged.collect_tell, List.filterMap_map, Site.foreignAttributes]
  rfl

theorem collect_leaf (site : Site) (id : Identifier) (close : List Step) :
    (leaf site id close).collect f =
      site.foreignAttributes.filterMap fun node => f (.offer node id.validContext) := by
  simp [leaf, collect_offerAttributes]

@[simp] theorem collect_within (scope : Scope) (x : Planned Body) :
    (within scope x).collect f = x.collect f := by
  simp [within]

section
variable [Step.IgnoresReports f]

@[simp] theorem collect_report (ds : List Diagnostic) : (report ds).collect f = [] := by
  simp [report, Step.IgnoresReports.report]

@[simp] theorem collect_reportIf (condition : Bool) (d : Diagnostic) :
    (reportIf condition d).collect f = [] := by
  simp [reportIf]

@[simp] theorem collect_refuse (scope : Scope) (d : Diagnostic) :
    (refuse scope d).collect f = [] := by
  simp [refuse]

end

end Planned

section
variable [Step.IgnoresReports f]

@[simp] theorem collect_requiredId (e : Element) : (requiredId e).collect f = [] := by
  unfold requiredId
  split <;> simp

@[simp] theorem collect_containerId (e : Element) : (containerId e).collect f = [] := by
  unfold containerId
  split <;> simp

@[simp] theorem collect_resolve (fields : PayloadFields) (e : Element) (remoteAllowed : Bool) :
    (fields.resolve e remoteAllowed).collect f = [] := by
  unfold PayloadFields.resolve
  dsimp only
  split_ifs <;> simp

theorem collect_scanChildren (site : Site) (context : Context) :
    (scanChildren site context).collect f =
      (site.foreignChildren 0 site.element.children).filterMap fun node =>
        f (.offer node context) := by
  simp only [scanChildren, Logged.collect_tell, Site.foreignChildren]
  induction site.element.children.zipIdx with
  | nil => rfl
  | cons c l ih =>
    by_cases hcore : c.1.isCore <;>
      simp [hcore, ih, Step.IgnoresReports.report, List.filterMap_cons]

/-- The payload of a package that is authored by a child offers the foreign nodes of that child. -/
theorem collect_packagePayload (kind : Symbol.PackageKind) (site : Site) :
    (packagePayload kind site).collect f = (site.typedPayload? kind).toList.flatMap fun typed =>
      typed.foreignNodes.filterMap fun node => f (.offer node typed.payloadContext) := by
  unfold packagePayload Site.typedPayload? Site.foreignNodes
  dsimp only
  split
  · next child position h =>
    simp [h, readTypedPayload, collect_offerAttributes, collect_scanChildren, Site.payloadContext]
  · next h => simp [h]

/-! ### Lists of steps

What is found in the lists that rules put together, given what is found in the symbols there. -/

theorem filterMap_providerSteps (hprovider : ∀ id p, f (.emit id (.dependencyProvider p)) = none)
    (e : Element) (parent : Identifier) : (providerSteps e parent).filterMap f = [] := by
  simp only [providerSteps_eq_map, List.filterMap_map, List.filterMap_eq_nil_iff]
  intro a _
  simp only [Function.comp_apply]
  split_ifs
  · exact hprovider _ _
  · exact Step.IgnoresReports.report _

theorem forall_mem_packageSteps (hpayload : ∀ id p, f (.emit id (.payload p)) = none)
    (hpackage : ∀ id p, f (.emit id (.package p)) = none) (kind : Symbol.PackageKind) (e : Element)
    (p : PackagePayload) (entry : Option ArpEntry) :
    ∀ s ∈ packageSteps kind e p entry, f s = none := by
  simp [packageSteps, or_imp, forall_and, Step.IgnoresReports.report, hpayload, hpackage]

end

theorem forall_mem_actionSteps (hrefer : ∀ r, f (.refer r) = none)
    (hsuppress : ∀ id a, f (.emit id (.suppressAction a)) = none)
    (haction : ∀ id a, f (.emit id (.action a)) = none) (kind : ActionKind) (e : Element)
    (table : Symbol.SequenceTable) (action : String) :
    ∀ s ∈ actionSteps kind e table action, f s = none := by
  unfold actionSteps
  dsimp only
  split_ifs <;> simp [or_imp, forall_and, hrefer, hsuppress, haction]

end

end Installer
