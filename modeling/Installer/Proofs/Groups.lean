import Installer.Proofs.Collect
import Mathlib.Data.List.Basic

/-! # Groups and their members

Some elements open a group (`Rule.group?`), which some of them start with a payload of their own, and
some take a place in the group around them (`Rule.member?`), maybe after another member that they
name (`Rule.after?`). What rules do about groups is just that (`places_open`): the places that an opening
hands out are that of the element and those of its own members, the group around it moves on by the one
and its own group by the others, and closing an element hands out none. -/

namespace Installer

open Compile Planned

/-! ### Cursors -/

namespace GroupCursor

/-- The cursor after a list of children. -/
def advance (c : GroupCursor) : List (Member × Option Member) → GroupCursor
  | [] => c
  | (child, after) :: children => (c.next child after).2.advance children

@[simp] theorem group_next (c : GroupCursor) (child : Member) (after : Option Member) :
    (c.next child after).2.group = c.group := by
  unfold next
  split_ifs <;> rfl

@[simp] theorem ordered_next (c : GroupCursor) (child : Member) (after : Option Member) :
    (c.next child after).2.ordered = c.ordered := by
  unfold next
  split_ifs <;> rfl

@[simp] theorem parent_next (c : GroupCursor) (child : Member) (after : Option Member) :
    (c.next child after).1.parent = c.group := by
  unfold next
  split_ifs <;> rfl

@[simp] theorem child_next (c : GroupCursor) (child : Member) (after : Option Member) :
    (c.next child after).1.child = child := by
  unfold next
  split_ifs <;> rfl

@[simp] theorem group_advance (c : GroupCursor) (items : List (Member × Option Member)) :
    (c.advance items).group = c.group := by
  induction items generalizing c with
  | nil => rfl
  | cons item items ih => rw [advance, ih, group_next]

theorem place_cons (c : GroupCursor) (item : Member × Option Member)
    (items : List (Member × Option Member)) :
    c.place (item :: items) = (c.next item.1 item.2).1 :: (c.next item.1 item.2).2.place items := rfl

theorem place_append (c : GroupCursor) (xs ys : List (Member × Option Member)) :
    c.place (xs ++ ys) = c.place xs ++ (c.advance xs).place ys := by
  induction xs generalizing c with
  | nil => rfl
  | cons x xs ih => rw [List.cons_append, place_cons, place_cons, ih, List.cons_append, advance]

@[simp] theorem place_singleton (c : GroupCursor) (item : Member × Option Member) :
    c.place [item] = [(c.next item.1 item.2).1] := rfl

@[simp] theorem place_nil (c : GroupCursor) : c.place [] = [] := rfl

@[simp] theorem advance_singleton (c : GroupCursor) (item : Member × Option Member) :
    c.advance [item] = (c.next item.1 item.2).2 := rfl

@[simp] theorem advance_nil (c : GroupCursor) : c.advance [] = c := rfl

/-- The children are those that were asked for. -/
theorem map_child_place (c : GroupCursor) (items : List (Member × Option Member)) :
    (c.place items).map (·.child) = items.map (·.1) := by
  induction items generalizing c with
  | nil => rfl
  | cons item items ih => rw [place_cons, List.map_cons, List.map_cons, child_next, ih]

@[simp] theorem length_place (c : GroupCursor) (items : List (Member × Option Member)) :
    (c.place items).length = items.length := by
  rw [← List.length_map (·.child), map_child_place, List.length_map]

theorem parent_of_mem_place {c : GroupCursor} {items : List (Member × Option Member)}
    {r : GroupReference} (h : r ∈ c.place items) : r.parent = c.group := by
  induction items generalizing c with
  | nil => cases h
  | cons item items ih =>
    rw [place_cons] at h
    rcases List.mem_cons.mp h with rfl | h
    · exact parent_next c _ _
    · rw [ih h, group_next]

end GroupCursor

/-! ### Who takes which place -/

/-- A group that is opened: whether its children follow each other, and the members that it has before
the children of its element. -/
structure GroupStart where
  group : Group
  ordered : Bool
  own : List Member

namespace GroupStart

/-- The cursor before all members. -/
def cursor (g : GroupStart) : GroupCursor := ⟨g.group, g.ordered, none⟩

/-- The places of the own members. -/
def places (g : GroupStart) : List GroupReference := g.cursor.place (g.own.map (·, none))

/-- The cursor after the own members. -/
def ready (g : GroupStart) : GroupCursor := g.cursor.advance (g.own.map (·, none))

end GroupStart

namespace Compile

/-- The identifier of a payload that stands for itself. -/
def payloadId (e : Element) : Identifier :=
  let payload := ((e.payloadFields .own).resolve e PayloadForm.own.remoteAllowed).value
  (e.identifier? .id).getD (.ofName (Identifier.synthesize "pay" [
    payload.sourceFile.getD "", payload.name.getD "", payload.downloadUrl.getD ""]))

/-- The identifier of a rollback boundary at the given position in a group. -/
def boundaryId (group : Group) (position : Nat) (e : Element) : Identifier :=
  (e.identifier? .id).getD
    (.ofName (Identifier.synthesize "rba" [group.id, toString position]))

/-- The identifier of a bootstrapper application. -/
def applicationId (e : Element) : Identifier :=
  (e.identifier? .id).getD (.ofName defaultApplication)

/-- The name of a group that is referred to. -/
def referenceId (e : Element) : String := (e.value? (.reference "Id")).getD ""

/-- The payload of a chain package, with the identifiers of both. -/
def packageOf (kind : Symbol.PackageKind) (e : Element) : PackagePayload :=
  (packagePayload kind (Site.root e)).value

theorem value_packagePayload (kind : Symbol.PackageKind) (site : Site) :
    (packagePayload kind site).value = packageOf kind site.element := by
  have h : site.element = (Site.root site.element).element := rfl
  have hbare := congrArg Logged.value (bare_packagePayload h kind)
  exact hbare

end Compile

namespace Rule

/-- What an element is known as in the group around it. -/
def member? (group : Group) (position : Nat) (e : Element) : Rule → Option Member
  | packageGroupRef => some ⟨.packageGroup, referenceId e⟩
  | payloadGroupRef => some ⟨.payloadGroup, referenceId e⟩
  | rollbackBoundary => some ⟨.package, (boundaryId group position e).id⟩
  | payload => some ⟨.payload, (payloadId e).id⟩
  | chainPackage kind => some ⟨.package, (packageOf kind e).packageId.id⟩
  | _ => none

/-- The member that an element asks to come after. There is no order in a container. -/
def after? (parent : Parent) (e : Element) : Rule → Option Member
  | packageGroupRef =>
    (if parent = .container then none else e.value? (.reference "After")).map (⟨.package, ·⟩)
  | chainPackage _ => (e.value? (.reference "After")).map (⟨.package, ·⟩)
  | _ => none

/-- The group that an element opens. -/
def group? (e : Element) : Rule → Option GroupStart
  | bundle => some ⟨⟨.layout, Identifier.layoutOnlyPayloads⟩, true, []⟩
  | bootstrapperApplication => some ⟨⟨.container, Identifier.interfaceContainer⟩, true,
      (e.value? (.text "SourceFile")).toList.map fun _ => ⟨.payload, (applicationId e).id⟩⟩
  | chain => some ⟨⟨.packageGroup, Identifier.chainGroup⟩, true, []⟩
  | packageGroup => some ⟨⟨.packageGroup, (requiredId e).value.id⟩, true, []⟩
  | payloadGroup => some ⟨⟨.payloadGroup, (requiredId e).value.id⟩, true, []⟩
  | container => some ⟨⟨.container, (containerId e).value.id⟩, false, []⟩
  | chainPackage kind => some ⟨⟨.package, (packageOf kind e).packageId.id⟩, true,
      [⟨.payload, (packageOf kind e).payloadId.id⟩]⟩
  | _ => none

/-- What an element asks of the group in its scope. -/
def items (rule : Rule) (scope : Scope) (site : Site) : List (Member × Option Member) :=
  (scope.cursor.bind fun c => rule.member? c.group site.position site.element).toList.map
    (·, rule.after? scope.parent site.element)

end Rule

/-! ### What rules do about groups -/

instance : Step.IgnoresReports Step.group? := ⟨fun _ => rfl⟩

/-- The places of some items in the group of a scope. -/
def Scope.places (scope : Scope) (items : List (Member × Option Member)) : List GroupReference :=
  (scope.cursor.map (·.place items)).getD []

@[simp] theorem Scope.places_nil (scope : Scope) : scope.places [] = [] := by
  cases h : scope.cursor <;> simp [places, h]

theorem Scope.places_of_cursor {scope : Scope} {c : GroupCursor} (h : scope.cursor = some c)
    (items : List (Member × Option Member)) : scope.places items = c.place items := by
  simp [places, h]

/-- The group around an element that takes a place in one. -/
theorem Scope.Has.group {scope : Scope} (h : scope.Has .group) : ∃ c, scope.cursor = some c :=
  Option.isSome_iff_exists.mp h

section Rules
variable {rule : Rule} {scope : Scope}

attribute [local simp] Step.group? GroupStart.places GroupStart.ready GroupStart.cursor
  GroupCursor.inOrder GroupCursor.unordered List.filterMap_none
  collect_packagePayload collect_offerAttributes collect_leaf value_packagePayload Rule.items
  Rule.member? Rule.after? Rule.group? Scope.places_of_cursor

/-- What an opening does about groups: it hands out a place in the group around the element, and those
of the own members of the group that it opens; both groups move on, and no place is handed out when the
element is closed. -/
structure Places (rule : Rule) (scope : Scope) (site : Site) (o : Planned Opening) : Prop where
  log : o.collect Step.group? = scope.places (rule.items scope site) ++
    ((rule.group? site.element).map GroupStart.places).getD []
  outer : o.value.outer.cursor = scope.cursor.map (·.advance (rule.items scope site))
  body : ∀ body, o.value.body = some body →
    body.scope.cursor = (rule.group? site.element).map GroupStart.ready ∧
      ∀ inner, ∀ s ∈ body.close inner, s.group? = none

/-- The group around an element stays the same. -/
theorem Places.group_outer {site : Site} {o : Planned Opening} (h : Places rule scope site o) :
    o.value.outer.cursor.map (·.group) = scope.cursor.map (·.group) := by
  rw [h.outer, Option.map_map]
  congr 1
  funext c
  exact c.group_advance _

theorem places_open (h : scope.Has rule.need) (env : Env) (site : Site) :
    Places rule scope site (rule.open env scope site) := by
  cases rule with
  | bundle | package | module | patch | fragment =>
    refine ⟨?_, ?_, ?_⟩ <;> simp [Rule.open, openBundle, openPackage, openModule, openPatch,
      openFragment, filterMap_providerSteps Step.group? fun _ _ => rfl, builtInProperty, or_imp,
      forall_and]
  | bootstrapperApplication =>
    simp only [Rule.open, openBootstrapperApplication]
    split <;> refine ⟨?_, ?_, ?_⟩ <;> simp [*, applicationId]
  | log | update | relatedBundle | variableValue =>
    refine ⟨?_, ?_, ?_⟩ <;>
      simp [Rule.open, openLog, openUpdate, openRelatedBundle, openVariable]
  | chain | packageGroup | payloadGroup | container =>
    refine ⟨?_, ?_, ?_⟩ <;>
      simp [Rule.open, openChain, openPackageGroup, openPayloadGroup, openContainer,
        Identifier.ofName]
  | packageGroupRef | payloadGroupRef | rollbackBoundary | payload =>
    obtain ⟨c, hc⟩ := h.group
    refine ⟨?_, ?_, ?_⟩ <;> simp [Rule.open, openPackageGroupRef, openPayloadGroupRef,
      openRollbackBoundary, openPayload, hc, referenceId, boundaryId, payloadId]
  | chainPackage kind =>
    obtain ⟨c, hc⟩ := h.group
    refine ⟨?_, ?_, ?_⟩
    · simp [Rule.open, openChainPackage, hc]
    · simp [Rule.open, openChainPackage, hc]
    · simpa [Rule.open, openChainPackage, hc] using forall_mem_closePackage
        (forall_mem_packageSteps Step.group? (fun _ _ => rfl) (fun _ _ => rfl) _ _ _) rfl
  | msiProperty | slipstreamMsp | exitCode | arpEntry =>
    obtain ⟨owner, entry, hp⟩ := h.package
    refine ⟨?_, ?_, ?_⟩ <;> simp [Rule.open, openMsiProperty, openSlipstreamMsp, openExitCode,
      openArpEntry, hp]
  | registryKey | registryValue =>
    obtain ⟨place, hp⟩ := Option.isSome_iff_exists.mp h
    refine ⟨?_, ?_, ?_⟩ <;> simp [Rule.open, openRegistryKey, openRegistryValue, hp]
  | component | property | patchProperty | sequence s =>
    refine ⟨?_, ?_, ?_⟩ <;>
      simp [Rule.open, openComponent, openProperty, openPatchProperty, openSequence]
  | customAction =>
    simp only [Rule.open, openCustomAction]
    split <;> refine ⟨?_, ?_, ?_⟩ <;> simp
  | action kind =>
    simp only [Rule.open, openAction]
    split
    · split_ifs
      · refine ⟨?_, ?_, ?_⟩ <;> simp
      · refine ⟨by simp, by simp, ?_⟩
        simpa using fun _ => forall_mem_actionSteps Step.group? (fun _ => rfl)
          (fun _ _ => rfl) (fun _ _ => rfl) _ _ _ _
    · refine ⟨?_, ?_, ?_⟩ <;> simp

end Rules

end Installer
