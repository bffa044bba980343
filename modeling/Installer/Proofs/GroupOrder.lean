import Installer.Proofs.GroupGraph
import Installer.Proofs.Paths

/-! # The order of groups

The places in a group follow the document. An element that opens a group has items (`Element.items`):
the payload that it brings along, and then those of its core children that belong into a group, in the
order of the document. The place of an item is after the member that the child names, or else after the
item before it, and there is no order in a container (`Element.places`).

The places of all groups of a document are mixed: an element hands out the places of its own group while
its parent still has places to hand out. `Element.ledger` lists all of them in the order of the document,
each with the path to the element whose group it is in. -/

namespace Installer

open Compile Planned

/-! ### Items and places -/

/-- A child of a group, and the member that it asks to come after. -/
abbrev Item := Member × Option Member

/-- The places of the items of a group. In an ordered one each item comes after the member that it asks
for, and otherwise after the item before it. -/
def GroupStart.arrange (g : GroupStart) (items : List Item) : List GroupReference :=
  items.mapIdx fun i item => ⟨g.group, item.1,
    if g.ordered then item.2.or (if i = 0 then none else items[i - 1]?.map (·.1)) else none⟩

namespace Element

/-- The group that an element opens. -/
def group? (e : Element) : Option GroupStart := (Rule.named? e.name).bind (·.group? e)

/-- The package that an element asks to come after. -/
def after? (e : Element) : Option Member :=
  (e.last? ["After"]).map fun a => ⟨.package, Text.trimmed a.value⟩

/-- What a child brings into the group of its parent, if it belongs into one. -/
def item? (group : Group) (position : Nat) (child : Element) : Option Item :=
  if child.isCore then
    ((Rule.named? child.name).bind (·.member? group position child)).map (·, child.after?)
  else none

/-- What the children from the given position on bring into the group of their parent. -/
def itemsFrom (group? : Option Group) (position : Nat) (children : List Element) : List Item :=
  (children.zipIdx position).filterMap fun c => group?.bind (c.1.item? · c.2)

/-- The items of the group of an element. -/
def items (e : Element) : List Item :=
  match e.group? with
  | none => []
  | some g => g.own.map (·, none) ++ itemsFrom (some g.group) 0 e.children

/-- The places in the group of an element. -/
def places (e : Element) : List GroupReference :=
  match e.group? with
  | none => []
  | some g => g.arrange e.items

mutual

/-- The places that are handed out for an element and all elements below it, in the order of the
document. Each has the path from the element to the one whose group it is in. -/
def ledger : Element → List (List Nat × GroupReference)
  | node tag children =>
    let e := node tag children
    let own := (e.group?.map (·.own.length)).getD 0
    (e.places.take own).map ([], ·) ++
      ledgerOfList (e.group?.map (·.group)) (e.places.drop own) 0 children

/-- The same for some children of an element, which take the given places of its group. -/
def ledgerOfList (group? : Option Group) (places : List GroupReference) (position : Nat) :
    List Element → List (List Nat × GroupReference)
  | [] => []
  | child :: rest =>
    let count := (group?.bind (child.item? · position)).toList.length
    (places.take count).map ([], ·) ++
      (if child.isCore then child.ledger.map (fun p => (position :: p.1, p.2)) else []) ++
      ledgerOfList group? (places.drop count) (position + 1) rest

end

/-- The core element at the end of a path of core elements. -/
def descend? (e : Element) : List Nat → Option Element
  | [] => some e
  | i :: path =>
    e.children[i]?.bind fun child => if child.isCore then child.descend? path else none

end Element

/-! ### Cursors put items in order -/

theorem GroupCursor.place_eq_mapIdx (c : GroupCursor) (items : List Item) :
    c.place items = items.mapIdx fun i item => ⟨c.group, item.1, if c.ordered then
      item.2.or (if i = 0 then c.last else items[i - 1]?.map (·.1)) else none⟩ := by
  induction items generalizing c with
  | nil => rfl
  | cons item items ih =>
    rw [place_cons, ih, List.mapIdx_cons, group_next, ordered_next]
    by_cases h : c.ordered
    · -- the item before the first of the rest is the one that was placed just now
      have hnext : c.next item.1 item.2 =
          (⟨c.group, item.1, item.2.or c.last⟩, { c with last := some item.1 }) := by
        simp [next, h]
      simp only [hnext, h, ↓reduceIte, List.cons.injEq, true_and]
      congr 1
      funext i item'
      cases i <;> simp
    · simp [next, h]

theorem GroupStart.previous_arrange {g : GroupStart} (h : g.ordered = false) (items : List Item) :
    ∀ r ∈ g.arrange items, r.previous = none := by
  intro r hr
  obtain ⟨i, hi, rfl⟩ := List.mem_mapIdx.mp hr
  simp [h]

theorem GroupStart.arrange_eq (g : GroupStart) (items : List Item) :
    g.arrange items = g.cursor.place items := by
  rw [GroupCursor.place_eq_mapIdx]
  rfl

namespace Element

variable {e : Element} {g : GroupStart}

theorem items_of_group? (h : e.group? = some g) :
    e.items = g.own.map (·, none) ++ itemsFrom (some g.group) 0 e.children := by
  simp [items, h]

/-- The own members of a group come first. -/
theorem places_of_group? (h : e.group? = some g) :
    e.places = g.places ++ g.ready.place (itemsFrom (some g.group) 0 e.children) := by
  simp only [places, h, items_of_group? h]
  rw [GroupStart.arrange_eq, GroupCursor.place_append, GroupStart.places, GroupStart.ready]

theorem length_places (e : Element) : e.places.length =
    (e.group?.map (·.own.length)).getD 0 + (itemsFrom (e.group?.map (·.group)) 0 e.children).length := by
  cases hg : e.group? with
  | none => simp [places, hg, itemsFrom]
  | some g => simp [places, GroupStart.arrange, hg, items_of_group? hg]

theorem itemsFrom_cons (group? : Option Group) (position : Nat) (child : Element)
    (rest : List Element) : itemsFrom group? position (child :: rest) =
      (group?.bind (child.item? · position)).toList ++ itemsFrom group? (position + 1) rest := by
  unfold itemsFrom
  rw [List.zipIdx_cons]
  cases h : group?.bind (child.item? · position) <;> simp [h]

/-! ### The ledger by paths -/

/-- The children take as many places of the group of their parent as they bring items. -/
theorem atPath_nil_ledgerOfList (group? : Option Group) (places : List GroupReference)
    (position : Nat) (children : List Element) :
    atPath [] (ledgerOfList group? places position children) =
      places.take (itemsFrom group? position children).length := by
  induction children generalizing places position with
  | nil => simp [ledgerOfList, itemsFrom]
  | cons child rest ih =>
    have hbelow : atPath [] (if child.isCore then
        child.ledger.map (fun p => (position :: p.1, p.2)) else []) = [] := by
      split_ifs <;> simp [atPath_below]
    rw [ledgerOfList, atPath_append, atPath_append, atPath_here, hbelow, ih,
      itemsFrom_cons, List.length_append, List.take_add]
    simp

/-- The groups of the elements below a list of children are not those before the list. -/
theorem atPath_ledgerOfList_of_lt {i position : Nat} (h : i < position) (path : List Nat)
    (group? : Option Group) (places : List GroupReference) (children : List Element) :
    atPath (i :: path) (ledgerOfList group? places position children) = [] := by
  induction children generalizing places position with
  | nil => simp [ledgerOfList]
  | cons child rest ih =>
    have hbelow : atPath (i :: path) (if child.isCore then
        child.ledger.map (fun p => (position :: p.1, p.2)) else []) = [] := by
      split_ifs <;> simp [atPath_below, Nat.ne_of_lt h]
    rw [ledgerOfList, atPath_append, atPath_append, atPath_here, hbelow, ih (by omega)]
    simp

theorem atPath_ledgerOfList (i : Nat) (path : List Nat) (group? : Option Group)
    (places : List GroupReference) (position : Nat) (children : List Element) :
    atPath ((position + i) :: path) (ledgerOfList group? places position children) =
      (children[i]?.bind fun child =>
        if child.isCore then some (atPath path child.ledger) else none).getD [] := by
  induction children generalizing places position i with
  | nil => simp [ledgerOfList]
  | cons child rest ih =>
    rw [ledgerOfList, atPath_append, atPath_append, atPath_here]
    cases i with
    | zero =>
      rw [Nat.add_zero, atPath_ledgerOfList_of_lt (Nat.lt_succ_self position)]
      by_cases hcore : child.isCore <;> simp [hcore, atPath_below]
    | succ i =>
      have hbelow : atPath ((position + (i + 1)) :: path) (if child.isCore then
          child.ledger.map (fun p => (position :: p.1, p.2)) else []) = [] := by
        split_ifs <;> simp [atPath_below]
      rw [hbelow, show position + (i + 1) = position + 1 + i by omega, ih]
      simp

/-- **The ledger of a document has the places of each of its elements, in order.** -/
theorem atPath_ledger (path : List Nat) (e : Element) :
    atPath path e.ledger = ((e.descend? path).map places).getD [] := by
  induction path generalizing e with
  | nil =>
    obtain ⟨tag, children⟩ := e
    rw [ledger, atPath_append, atPath_here, atPath_nil_ledgerOfList, if_pos rfl,
      ← List.take_add, descend?, Option.map_some, Option.getD_some]
    have hlength := (node tag children).length_places
    rw [Element.children] at hlength
    rw [← hlength, List.take_length]
  | cons i path ih =>
    obtain ⟨tag, children⟩ := e
    have hchild := atPath_ledgerOfList i path ((node tag children).group?.map (·.group))
      ((node tag children).places.drop (((node tag children).group?.map (·.own.length)).getD 0)) 0
      children
    rw [Nat.zero_add] at hchild
    rw [ledger, atPath_append, atPath_here, hchild, descend?]
    simp only [reduceCtorEq, ↓reduceIte, List.nil_append, Element.children]
    cases children[i]? with
    | none => rfl
    | some child =>
      simp only [Option.bind_some]
      split_ifs
      · exact ih child
      · rfl

theorem ledgerOfList_of_foreign {children : List Element} (h : ∀ c ∈ children, c.isCore = false)
    (group? : Option Group) (places : List GroupReference) (position : Nat) :
    ledgerOfList group? places position children = [] := by
  induction children generalizing places position with
  | nil => rw [ledgerOfList]
  | cons child rest ih =>
    have hcore := h child List.mem_cons_self
    have hitem : (group?.bind (child.item? · position)) = none := by simp [item?, hcore]
    rw [ledgerOfList, hitem, ih fun c hc => h c (List.mem_cons_of_mem _ hc)]
    simp [hcore]

theorem ledger_of_group?_eq_none {e : Element} (h : e.group? = none) :
    e.ledger = ledgerOfList none [] 0 e.children := by
  obtain ⟨tag, children⟩ := e
  simp [ledger, places, h, Element.children]

/-- An element without a rule and without core children hands out no places. -/
theorem ledger_eq_nil {e : Element} (hname : Rule.named? e.name = none)
    (hleaf : ∀ c ∈ e.children, c.isCore = false) : e.ledger = [] := by
  have hg : e.group? = none := by simp [group?, hname]
  rw [ledger_of_group?_eq_none hg, ledgerOfList_of_foreign hleaf]

theorem exists_child_of_descend? {e e' : Element} {i : Nat} {path : List Nat}
    (h : e.descend? (i :: path) = some e') :
    ∃ child ∈ e.children, child.isCore ∧ child.descend? path = some e' := by
  simp only [descend?, Option.bind_eq_some_iff] at h
  obtain ⟨child, hget, h⟩ := h
  split_ifs at h with hcore
  exact ⟨child, List.mem_of_getElem? hget, hcore, h⟩

end Element

/-! ### After what an element comes -/

theorem Reader.trimmed_of_reference {e : Element} {a : Attribute} {v : String}
    (h : (Reader.reference e a).value = some v) : v = Text.trimmed a.value := by
  unfold Reader.reference at h
  dsimp only at h
  split_ifs at h <;> cases h
  rfl

section After
variable {e : Element} {checks : List (String × Check)}

/-- The value of a reference that passes its check is the trimmed text of the attribute. -/
theorem Element.Passes.value?_reference (hp : e.Passes checks) (name : String)
    (hc : Reads checks (.reference name)) :
    e.value? (.reference name) = (e.last? [name]).map (Text.trimmed ·.value) := by
  cases ha : e.last? [name] with
  | none => simp [value?, Field.reference, ha]
  | some a =>
    obtain ⟨v, hv⟩ := (hp.at _).exists_read hc (Field.of_reference name) ha
    dsimp only [Field.reference] at hv
    have htrim : v = Text.trimmed a.value := Reader.trimmed_of_reference hv
    simp [value?, Field.reference, ha, hv, htrim]

/-- An attribute that no check knows is not there. -/
theorem Element.Passes.last?_eq_none {name : String} (hp : e.Passes checks)
    (hc : checks.lookup name = none) : e.last? [name] = none := by
  cases ha : e.last? [name] with
  | none => rfl
  | some a =>
    obtain ⟨hmem, hname⟩ := last?_eq_some ha
    have hd : e.unexpectedAttribute a ∈ e.checkAttribute checks a := by
      rw [checkAttribute, hname, hc]
      exact List.mem_singleton_self _
    exact Bool.noConfusion (hp.at name a hmem hname _ hd)

end After

/-- In an opening without errors, what an element comes after is the package that it names. -/
theorem after?_of_smooth {rule : Rule} {env : Env} {scope : Scope} {site : Site}
    (h : (rule.open env scope site).All Step.Smooth) (hneed : scope.Has rule.need)
    (hgroup : rule.need = .group) :
    rule.after? scope.parent site.element = site.element.after? := by
  unfold Element.after?
  cases rule with
  | packageGroupRef =>
    obtain ⟨c, hc⟩ := hneed.group
    simp only [Rule.open, openPackageGroupRef, hc, Logged.all_bind] at h
    have hp := passes_of_smooth h.1
    by_cases hparent : scope.parent = .container
    · simp only [hparent, bne_self_eq_false, Bool.false_eq_true, ↓reduceIte] at hp
      rw [hp.last?_eq_none rfl]
      simp [Rule.after?, hparent]
    · have hordered : (scope.parent != .container) = true := by simpa using hparent
      simp only [hordered, ↓reduceIte] at hp
      simp only [Rule.after?, hparent, ↓reduceIte]
      rw [hp.value?_reference "After" rfl, Option.map_map]
      rfl
  | chainPackage kind =>
    obtain ⟨c, hc⟩ := hneed.group
    simp only [Rule.open, openChainPackage, hc, Logged.all_bind] at h
    rw [Rule.after?, (passes_of_smooth h.1).value?_reference "After" rfl, Option.map_map]
    rfl
  | payloadGroupRef =>
    obtain ⟨c, hc⟩ := hneed.group
    simp only [Rule.open, openPayloadGroupRef, hc, Logged.all_bind] at h
    rw [(passes_of_smooth h.1).last?_eq_none rfl]
    rfl
  | rollbackBoundary =>
    obtain ⟨c, hc⟩ := hneed.group
    simp only [Rule.open, openRollbackBoundary, hc, Logged.all_bind] at h
    rw [(passes_of_smooth h.1).last?_eq_none rfl]
    rfl
  | payload =>
    obtain ⟨c, hc⟩ := hneed.group
    simp only [Rule.open, openPayload, hc, Logged.all_bind] at h
    rw [(passes_of_smooth h.1).last?_eq_none rfl]
    rfl
  | _ => cases hgroup

theorem Rule.need_of_member? {rule : Rule} {group : Group} {position : Nat} {e : Element}
    {m : Member} (h : rule.member? group position e = some m) : rule.need = .group := by
  cases rule <;> first | rfl | cases h

section Entered
variable {rule : Rule} {env : Env} {scope : Scope} {site : Site} {position : Nat} {child : Element}

/-- In an opening without errors, what is asked of the group around an element is its item. -/
theorem items_of_smooth (h : (rule.open env scope (site.child position child)).All Step.Smooth)
    (hneed : scope.Has rule.need) (hcore : child.isCore)
    (hname : Rule.named? child.name = some rule) :
    rule.items scope (site.child position child) =
      ((scope.cursor.map (·.group)).bind (child.item? · position)).toList := by
  cases hc : scope.cursor with
  | none => simp [Rule.items, hc]
  | some c =>
    cases hm : rule.member? c.group position child with
    | none => simp [Rule.items, Element.item?, Site.child, hc, hcore, hname, hm]
    | some m =>
      have hafter := after?_of_smooth h hneed (Rule.need_of_member? hm)
      simp only [Site.child] at hafter
      simp [Rule.items, Element.item?, Site.child, hc, hcore, hname, hm, hafter]

theorem Scope.places_append {outer : Scope} {xs ys : List Item}
    (h : outer.cursor = scope.cursor.map (·.advance xs)) :
    scope.places (xs ++ ys) = scope.places xs ++ outer.places ys := by
  cases hc : scope.cursor with
  | none => simp [Scope.places, h, hc]
  | some c => simp [Scope.places, h, hc, GroupCursor.place_append]

theorem Scope.length_places {xs : List Item} (h : scope.cursor = none → xs = []) :
    (scope.places xs).length = xs.length := by
  cases hc : scope.cursor with
  | none => simp [Scope.places, hc, h hc]
  | some c => rw [Scope.places_of_cursor hc, GroupCursor.length_place]

/-- The places for an element and those below it are its own and those that its children get. -/
theorem map_ledger_of_body {body : Body} {l : List Step} (hneed : scope.Has rule.need)
    (hname : Rule.named? child.name = some rule)
    (hbody : (rule.open env scope (site.child position child)).value.body = some body)
    (hl : l.filterMap Step.group? = (Element.ledgerOfList (body.scope.cursor.map (·.group))
      (body.scope.places (Element.itemsFrom (body.scope.cursor.map (·.group)) 0 child.children)) 0
        child.children).map (·.2)) :
    child.ledger.map (·.2) =
      ((rule.group? child).map GroupStart.places).getD [] ++ l.filterMap Step.group? := by
  have hcursor := ((places_open hneed env (site.child position child)).body body hbody).1
  have hgroup : child.group? = rule.group? child := by simp [Element.group?, hname]
  simp only [Site.child] at hcursor
  obtain ⟨tag, children⟩ := child
  rw [Element.ledger, hl]
  simp only [Element.children]
  cases hg : rule.group? (.node tag children) with
  | none =>
    rw [hg] at hgroup hcursor
    simp [hgroup, hcursor, Element.places, Scope.places]
  | some g =>
    rw [hg] at hgroup hcursor
    have hready : g.ready.group = g.group := g.cursor.group_advance _
    have hlength : g.own.length = g.places.length := by simp [GroupStart.places]
    rw [Element.places_of_group? hgroup, Scope.places_of_cursor hcursor, hgroup, hcursor]
    simp only [Option.map_some, Option.getD_some, hready, hlength, List.take_left, List.drop_left,
      Element.children, List.map_append, List.map_map, Function.comp_def, List.map_id']

end Entered

/-- **The places of a walk are those of the ledger.** -/
theorem Compile.Walk.map_ledgerOfList {config : Config} {unit : Option SectionKind}
    {content : Content} {site : Site} {scope after : Scope} {position : Nat} {seen : List String}
    {children : List Element} {l : List Step}
    (h : Walk config unit content site scope position seen children l after) :
    l.filterMap Step.group? = (Element.ledgerOfList (scope.cursor.map (·.group))
      (scope.places (Element.itemsFrom (scope.cursor.map (·.group)) position children)) position
        children).map (·.2) := by
  induction h with
  | nil => simp [Element.ledgerOfList]
  | @foreign _ _ _ scope _ position _ child rest l hcore _ ih =>
    have hitem : (scope.cursor.map (·.group)).bind (child.item? · position) = none := by
      simp [Element.item?, hcore]
    rw [List.filterMap_cons_none rfl, ih]
    simp [Element.ledgerOfList, Element.itemsFrom_cons, hitem, hcore]
  | @absorbed _ _ _ scope _ position _ child rest l hcore hname hseen hleaf _ ih =>
    have hnamed := Rule.named?_of_absorbed hname
    have hitem : (scope.cursor.map (·.group)).bind (child.item? · position) = none := by
      simp [Element.item?, hnamed]
    simp [Element.ledgerOfList, Element.itemsFrom_cons, hitem, Element.ledger_eq_nil hnamed hleaf, ih]
  | @entered unit _ site scope inner _ position _ child rest rule o body l l' hcore hgives hneed
      hopen hsmooth hbody _ hclose _ ih ih' =>
    subst hopen
    have hname := Rule.named?_of_gives hgives
    have hplaces := places_open hneed ⟨config, unit⟩ (site.child position child)
    have hitems := items_of_smooth hsmooth hneed hcore hname
    have hlength : (scope.places (rule.items scope (site.child position child))).length =
        (rule.items scope (site.child position child)).length := by
      refine Scope.length_places fun hc => ?_
      simp [Rule.items, hc]
    have hgroups : ((rule.open ⟨config, unit⟩ scope (site.child position child)).log ++
        (l ++ body.close inner)).filterMap Step.group? =
          scope.places (rule.items scope (site.child position child)) ++ child.ledger.map (·.2) := by
      have hnone := List.filterMap_eq_nil_iff.mpr ((hplaces.body body hbody).2 inner)
      rw [map_ledger_of_body hneed hname hbody ih, List.filterMap_append, List.filterMap_append,
        hnone, List.append_nil, ← List.append_assoc]
      exact congrArg (· ++ _) hplaces.log
    rw [hplaces.group_outer] at ih'
    rw [List.filterMap_append, hgroups, ih', Element.ledgerOfList, Element.itemsFrom_cons, ← hitems,
      Scope.places_append hplaces.outer, ← hlength, List.take_left, List.drop_left]
    simp [hcore, Function.comp_def]

/-! ### Containers -/

/-- Only containers are groups without an order. -/
theorem Rule.eq_container {rule : Rule} {e : Element} {g : GroupStart}
    (h : rule.group? e = some g) (hg : g.ordered = false) : rule = .container := by
  cases rule <;> cases h <;> first | rfl | cases hg

/-- In a container no core child names a package to come after. -/
theorem Compile.Walk.last?_after {config : Config} {unit : Option SectionKind} {content : Content}
    {site : Site} {scope after : Scope} {position : Nat} {seen : List String}
    {children : List Element} {l : List Step}
    (h : Walk config unit content site scope position seen children l after)
    (hcontent : content = .packageGroupRefs) (hparent : scope.parent = .container) :
    ∀ child ∈ children, child.isCore → child.last? ["After"] = none := by
  induction h with
  | nil => simp
  | foreign hcore _ ih =>
    rintro child (_ | ⟨_, hmem⟩) hc
    · rw [hcore] at hc
      cases hc
    · exact ih hcontent hparent child hmem hc
  | absorbed hcore hname hseen hleaf _ ih =>
    subst hcontent
    cases hname
  | @entered unit _ site scope inner _ position _ child rest rule o body l l' hcore hgives hneed
      hopen hsmooth hbody _ hclose _ _ ih' =>
    subst hcontent hopen
    have hrule : rule = .packageGroupRef := by
      obtain ⟨entry, hmem, hr⟩ := hgives
      simp only [Content.entries, List.mem_singleton, Prod.mk.injEq] at hmem
      rw [hmem.2] at hr
      cases hr
      rfl
    subst hrule
    obtain ⟨c, hc⟩ := hneed.group
    have hafter := after?_of_smooth hsmooth hneed rfl
    have houter : (Rule.packageGroupRef.open ⟨config, unit⟩ scope
        (site.child position child)).value.outer.parent = .container := by
      simp [Rule.open, openPackageGroupRef, hc, hparent]
    rintro child' (_ | ⟨_, hmem⟩) hcore'
    · simp only [Rule.after?, hparent, ↓reduceIte, Option.map_none, Element.after?] at hafter
      exact Option.map_eq_none_iff.mp hafter.symm
    · exact ih' rfl houter child' hmem hcore'

/-- If a group has no order, none of its children asks for one. -/
def Element.Unordered (e : Element) : Prop :=
  ∀ g, e.group? = some g → g.ordered = false →
    ∀ child ∈ e.children, child.isCore → child.has "After" = false

theorem Element.unordered_of_named? {e : Element} (h : Rule.named? e.name = none) :
    e.Unordered := by
  intro g hg
  simp [Element.group?, h] at hg

theorem Compile.Walk.unordered {config : Config} {unit : Option SectionKind} {content : Content}
    {site : Site} {scope after : Scope} {position : Nat} {seen : List String}
    {children : List Element} {l : List Step}
    (h : Walk config unit content site scope position seen children l after) :
    ∀ child ∈ children, child.isCore → ∀ path e, child.descend? path = some e → e.Unordered := by
  induction h with
  | nil => simp
  | foreign hcore _ ih =>
    rintro child (_ | ⟨_, hmem⟩) hc
    · rw [hcore] at hc
      cases hc
    · exact ih child hmem hc
  | @absorbed _ _ _ _ _ _ _ child rest l hcore hname hseen hleaf _ ih =>
    rintro child' (_ | ⟨_, hmem⟩) hc path e he
    · cases path with
      | nil => cases he; exact Element.unordered_of_named? (Rule.named?_of_absorbed hname)
      | cons i path =>
        obtain ⟨c, hmem, hcore', -⟩ := Element.exists_child_of_descend? he
        rw [hleaf c hmem] at hcore'
        cases hcore'
    · exact ih child' hmem hc path e he
  | @entered unit _ site scope inner _ position _ child rest rule o body l l' hcore hgives hneed
      hopen hsmooth hbody hchildren hclose _ ih ih' =>
    subst hopen
    rintro child' (_ | ⟨_, hmem⟩) hc path e he
    · cases path with
      | nil =>
        cases he
        intro g hg hordered
        rw [Element.group?, Rule.named?_of_gives hgives] at hg
        have hrule := Rule.eq_container hg hordered
        subst hrule
        cases hbody
        have hlast := hchildren.last?_after rfl rfl
        intro c hmem hcore'
        by_contra hhas
        obtain ⟨a, ha⟩ := Element.exists_last?_iff.mpr (by simpa using hhas)
        rw [hlast c hmem hcore'] at ha
        cases ha
      | cons i path =>
        obtain ⟨c, hmem, hcore', he⟩ := Element.exists_child_of_descend? he
        exact ih c hmem hcore' path e he
    · exact ih' child' hmem hc path e he

theorem Element.group?_root {root : Element} (h : root.qname = QName.core "Wix") :
    root.group? = none := by
  have hwix : root.name = "Wix" := congrArg QName.name h
  have hname : Rule.named? root.name = none := by
    rw [hwix]
    decide +kernel
  simp [Element.group?, hname]

/-- A plan without errors hands out the places of the ledger. -/
theorem Compile.map_ledger_plan {config : Config} {root : Element}
    (h : ∀ s ∈ plan config root, s.Smooth) :
    (plan config root).filterMap Step.group? = root.ledger.map (·.2) := by
  obtain ⟨hroot, l, after, hwalk, hplan⟩ := exists_walk h
  have hreports : ((root.checkAttributes []).map Step.report).filterMap Step.group? = [] := by
    simp [Step.group?]
  have hoffers : (offerAttributes (Site.root root) []).log.filterMap Step.group? = [] := by
    simp [offerAttributes, Step.group?]
  rw [hplan, List.filterMap_append, List.filterMap_append, hreports, hoffers, List.nil_append,
    List.nil_append, hwalk.map_ledgerOfList, Element.ledger_of_group?_eq_none (Element.group?_root hroot)]
  rfl

/-- **Groups follow the document.** Without extensions, the places of a compile that succeeds are those
of the ledger of the document. For each element they are the places of its items in order, and the
children of a container never ask for an order. -/
theorem Compiler.groups_eq_ledger {c : Compiler} (hc : c.extensions = []) {k : UInt32}
    {root : Element} {o : Output} (h : (c.compileAs k root).result = .ok o) (hs : o.isSuccess) :
    o.intermediate.groups = root.ledger.map (·.2) ∧
      (∀ path, atPath path root.ledger = ((root.descend? path).map Element.places).getD []) ∧
      ∀ path e, root.descend? path = some e → ∀ g, e.group? = some g → g.ordered = false →
        (∀ r ∈ e.places, r.previous = none) ∧
          ∀ child ∈ e.children, child.isCore → child.has "After" = false := by
  have hsmooth := smooth_of_isSuccess h hs
  obtain ⟨hroot, l, after, hwalk, hplan⟩ := exists_walk hsmooth
  refine ⟨?_, fun path => Element.atPath_ledger path root, ?_⟩
  · rw [(yields_of_isSuccess hc h hs).groups, map_ledger_plan hsmooth]
  · intro path e he g hg hordered
    refine ⟨?_, ?_⟩
    · simp only [Element.places, hg]
      exact GroupStart.previous_arrange hordered _
    · cases path with
      | nil =>
        cases he
        rw [Element.group?_root hroot] at hg
        cases hg
      | cons i path =>
        obtain ⟨child, hmem, hcore, he⟩ := Element.exists_child_of_descend? he
        exact hwalk.unordered child hmem hcore path e he g hg hordered

/-- In a bundle the places of the chain are not disturbed by those of its first package, which come
between them. -/
theorem groups_eq_ledger_bundle : ∃ o,
    (Compiler.compileAs {} 0 Sample.bundle).result = .ok o ∧ o.isSuccess ∧
      o.intermediate.groups = Sample.bundle.ledger.map (·.2) ∧
      atPath [0, 1] Sample.bundle.ledger = [
        ⟨⟨.packageGroup, "WixChain"⟩, ⟨.package, "Setup"⟩, none⟩,
        ⟨⟨.packageGroup, "WixChain"⟩, ⟨.package, "Safe"⟩, some ⟨.package, "Setup"⟩⟩,
        ⟨⟨.packageGroup, "WixChain"⟩, ⟨.packageGroup, "Tools"⟩, some ⟨.package, "Setup"⟩⟩] := by
  have h : (Compiler.compileAs {} 0 Sample.bundle).result = .ok _ := rfl
  obtain ⟨hgroups, hpaths, -⟩ := Compiler.groups_eq_ledger rfl h (by decide +kernel)
  refine ⟨_, h, by decide +kernel, hgroups, ?_⟩
  rw [hpaths]
  decide +kernel

end Installer
