import Installer.Proofs.Calls
import Installer.Proofs.Openings

/-! # Where sections are open

The plan of a document is put together from parts (`Compile.parts`): the steps for the document element
itself and those for each of its children. The steps for a child (`Compile.Block`) either keep away
from sections, or open one, stay inside of it and close it in the end. Hence the steps of a whole plan
are `Scoped`: they define symbols only where a section is open. -/

namespace Installer

open Compile Planned

/-! ### Children inside of a section -/

/-- Whether a step can be run while no section is open. -/
def Step.isOuter : Step → Bool
  | .report _ | .offer _ _ | .halt .tooDeep => true
  | _ => false

@[simp] theorem Site.element_root (e : Element) : (Site.root e).element = e := rfl

namespace Compile

/-- The steps for some children are inside of their parent, and what the children rely on is
still there after them. -/
def innerTrail : Trail := fun _ content site scope l scope' =>
  content ≠ .document → content.Fits scope →
    (∀ s ∈ l, s.Inside site) ∧ content.Fits scope'

theorem innerTrail_closed (config : Config) : innerTrail.Closed config where
  nil := fun _ hf => ⟨by simp, hf⟩
  append := by
    intro _ _ _ _ _ _ l l' h h' hc hf
    obtain ⟨hl, hf⟩ := h hc hf
    obtain ⟨hl', hf⟩ := h' hc hf
    refine ⟨fun s hs => ?_, hf⟩
    exact (List.mem_append.mp hs).elim (hl s) (hl' s)
  foreign := fun position _ _ hf => ⟨by simp [Offer.subject], hf⟩
  refused := fun _ _ hf => ⟨by simp, hf⟩
  tooDeep := fun _ hf => ⟨by simp, hf⟩
  left := by
    intro unit content site scope position seen child rule ha _ hc hf
    have hg := gives_of_accept ha
    have ht := tame_open (mt hg.isUnit_iff.mp hc) ⟨config, unit⟩ (site.child position child)
      (hf _ hg.provides)
    exact ⟨fun s hs => (ht.log s hs).of_child, hf.like ht.outer⟩
  entered := by
    intro unit content site scope position seen child rule body l inner ha hb ih hc hf
    have hg := gives_of_accept ha
    have ht := tame_open (mt hg.isUnit_iff.mp hc) ⟨config, unit⟩ (site.child position child)
      (hf _ hg.provides)
    obtain ⟨hdoc, hfits, hclose⟩ := ht.body body hb
    obtain ⟨hl, hinner⟩ := ih hdoc hfits
    refine ⟨fun s hs => ?_, hf.like ht.outer⟩
    simp only [List.mem_append] at hs
    rcases hs with hs | hs | hs
    · exact (ht.log s hs).of_child
    · exact (hl s hs).of_child
    · exact (hclose inner hinner s hs).of_child

/-! ### Units -/

/-- Steps that report findings, then open a section and stay inside of it. -/
def Opens (site : Site) (kind : SectionKind) : List Step → Prop
  | .report _ :: l => Opens site kind l
  | .openUnit header :: l => header.kind = kind ∧ ∀ s ∈ l, s.Inside site
  | _ => False

@[simp] theorem opens_openUnit {site : Site} {kind : SectionKind} {header : UnitHeader}
    {l : List Step} : Opens site kind (.openUnit header :: l) ↔
      header.kind = kind ∧ ∀ s ∈ l, s.Inside site :=
  Iff.rfl

@[simp] theorem opens_reports {site : Site} {kind : SectionKind} (ds : List Diagnostic)
    (l : List Step) : Opens site kind (ds.map .report ++ l) ↔ Opens site kind l := by
  induction ds with
  | nil => rfl
  | cons d ds ih => exact ih

theorem Opens.exists_eq {site : Site} {kind : SectionKind} {l : List Step}
    (h : Opens site kind l) : ∃ (ds : List Diagnostic) (header : UnitHeader) (mid : List Step),
      l = ds.map .report ++ .openUnit header :: mid ∧ header.kind = kind ∧
        ∀ s ∈ mid, s.Inside site := by
  induction l with
  | nil => cases h
  | cons s l ih =>
    cases s with
    | report d =>
      obtain ⟨ds, header, mid, rfl, hm⟩ := ih h
      exact ⟨d :: ds, header, mid, rfl, hm⟩
    | openUnit header => exact ⟨[], header, l, rfl, h⟩
    | _ => cases h

/-- An opening of a unit, which closes its section in the end. -/
structure OpensUnit (site : Site) (scope : Scope) (kind : SectionKind) (o : Planned Opening) :
    Prop where
  log : Opens site kind o.log
  outer : o.value.outer = scope
  body : ∃ body, o.value.body = some body ∧ body.content ≠ .document ∧
    body.content.Fits body.scope ∧
      ∀ inner, ∃ close, body.close inner = close ++ [.closeUnit] ∧ ∀ s ∈ close, s.Inside site

section OpensUnit
variable (site : Site) (scope : Scope)

attribute [local simp] Offer.subject Content.fits_iff Content.provides within Planned.report
  offerAttributes

theorem inside_providerSteps (e : Element) (parent : Identifier) :
    ∀ s ∈ providerSteps e parent, s.Inside site := by
  simp only [providerSteps_eq_map, List.forall_mem_map]
  intro a _
  split_ifs <;> simp

theorem opensUnit_bundle : OpensUnit site scope .bundle (within scope (openBundle site)) where
  log := by simpa [openBundle, or_imp, forall_and] using inside_providerSteps site _ _
  outer := rfl
  body := ⟨_, rfl, by simp [openBundle], by simp [openBundle], fun _ => ⟨[_], rfl, by simp⟩⟩

theorem opensUnit_package : OpensUnit site scope .package (within scope (openPackage site)) where
  log := by simpa [openPackage, or_imp, forall_and] using inside_providerSteps site _ _
  outer := rfl
  body := ⟨_, rfl, by simp [openPackage], by simp [openPackage], fun _ =>
    ⟨_, (List.append_assoc _ [_] [_]).symm, by simp [builtInProperty, or_imp, forall_and]⟩⟩

theorem opensUnit_module : OpensUnit site scope .module (within scope (openModule site)) where
  log := by simp [openModule]
  outer := rfl
  body := ⟨_, rfl, by simp [openModule], by simp [openModule], fun _ => ⟨[_], rfl, by simp⟩⟩

theorem opensUnit_patch : OpensUnit site scope .patch (within scope (openPatch site)) where
  log := by simp [openPatch]
  outer := rfl
  body := ⟨_, rfl, by simp [openPatch], by simp [openPatch], fun _ => ⟨[_], rfl, by simp⟩⟩

theorem opensUnit_fragment : OpensUnit site scope .fragment (within scope (openFragment site)) where
  log := by simp [openFragment]
  outer := rfl
  body := ⟨_, rfl, by simp [openFragment], by simp [openFragment], fun _ => ⟨[], rfl, by simp⟩⟩

end OpensUnit

theorem opensUnit_open {rule : Rule} {kind : SectionKind} (hk : rule.sectionKind? = some kind)
    (env : Env) (scope : Scope) (site : Site) :
    OpensUnit site scope kind (rule.open env scope site) := by
  cases rule with
  | bundle => cases hk; exact opensUnit_bundle site scope
  | package => cases hk; exact opensUnit_package site scope
  | module => cases hk; exact opensUnit_module site scope
  | patch => cases hk; exact opensUnit_patch site scope
  | fragment => cases hk; exact opensUnit_fragment site scope
  | _ => cases hk

/-! ### The parts of a plan -/

/-- The steps for one child of the document element. -/
def childSteps (config : Config) (root : Element) (position : Nat) (child : Element) : List Step :=
  (planChildren config none 0 .document (Site.root root) {} position [] [child]).log

/-- The steps for the document element itself. -/
def rootSteps (root : Element) : List Step :=
  if root.qname != QName.core "Wix" then [.report (wrongRoot root)]
  else (report (root.checkAttributes [])).log ++ (offerAttributes (Site.root root) []).log

/-- The children of the document element that are read. -/
def topElements (root : Element) : List Element :=
  if root.qname != QName.core "Wix" then [] else root.children

/-- The rule of a child of the document element. -/
def topRule? (child : Element) : Option Rule :=
  (Content.document.entry? child.name).bind Entry.rule?

/-- Children of the document element may appear in any number. -/
theorem admissionOf_document (seen : List String) (parent child : Element) :
    admissionOf .document seen parent child =
      match topRule? child with
      | none => .refuse (parent.unexpectedElement child)
      | some rule => .accept rule := by
  have h : ∀ p ∈ Content.document.entries, ∃ rule, p.2 = .many rule := by
    simp [Content.entries]
  unfold admissionOf topRule?
  cases he : Content.document.entry? child.name with
  | none => rfl
  | some entry =>
    obtain ⟨l₁, l₂, hl, -⟩ := List.lookup_eq_some_iff.mp he
    obtain ⟨rule, rfl⟩ := h (child.name, entry) (by rw [hl]; simp)
    rfl

/-- Every child of the document element that is read opens a section, whose kind has its name. -/
theorem sectionKind?_of_topRule? {child : Element} {rule : Rule} (h : topRule? child = some rule) :
    ∃ kind, rule.sectionKind? = some kind ∧ kind.name = child.name := by
  have hg : Content.document.Gives child.name rule :=
    @gives_of_accept _ [] child _ _ (by rw [admissionOf_document, h])
  obtain ⟨kind, hk⟩ := Option.isSome_iff_exists.mp (hg.isUnit_iff.mpr rfl)
  exact ⟨kind, hk, hg.sectionKind?_name hk⟩

section childSteps
variable {config : Config} {root child : Element} {position : Nat}

theorem childSteps_of_foreign (h : child.isCore = false) :
    childSteps config root position child =
      [.offer (.ofElement (Site.root root) ((Site.root root).child position child)) []] := by
  simp [childSteps, planChildren, h, Logged.tell]

theorem childSteps_of_refused (h : child.isCore) (hr : topRule? child = none) :
    childSteps config root position child = [.report (root.unexpectedElement child)] := by
  simp [childSteps, planChildren, h, admissionOf_document, hr, report, Logged.tell]

theorem childSteps_of_unit {rule : Rule} (h : child.isCore) (hr : topRule? child = some rule) :
    childSteps config root position child =
      if config.recursionLimit ≤ 0 then [.halt .tooDeep]
      else (planElement config none 1 rule {} position [root] child).log := by
  simp only [childSteps, planChildren, h, admissionOf_document, hr]
  split_ifs <;> simp_all [Site.root]

end childSteps

/-- The steps for a unit are those of its opening, those for its children and those of its close. Its
siblings do not notice it. -/
theorem planElement_of_unit (config : Config) (root child : Element) (position : Nat) {rule : Rule}
    {kind : SectionKind} (hk : rule.sectionKind? = some kind) :
    (planElement config none 1 rule {} position [root] child).value = {} ∧
      ∃ (ds : List Diagnostic) (header : UnitHeader) (mid : List Step),
        (planElement config none 1 rule {} position [root] child).log =
          ds.map .report ++ .openUnit header :: (mid ++ [.closeUnit]) ∧
        header.kind = kind ∧ ∀ s ∈ mid, s.Inside ((Site.root root).child position child) := by
  have h := opensUnit_open hk ⟨config, none⟩ {} ((Site.root root).child position child)
  obtain ⟨body, hb, hdoc, hfits, hclose⟩ := h.body
  obtain ⟨ds, header, mid, hlog, hkind, hmid⟩ := h.log.exists_eq
  -- the children of the unit are inside of its section
  have hinner : ∀ s ∈ (planChildren config (body.unit.or none) 1 body.content
      ⟨child, position, [root]⟩ body.scope 0 [] child.children).log,
      s.Inside ((Site.root root).child position child) :=
    ((innerTrail_closed config).children _ _ _ _ _ _ _ _ hdoc hfits).1
  have hplan : planElement config none 1 rule {} position [root] child = _ := planElement_of_some hb
  rw [hplan]
  generalize planChildren config (body.unit.or none) 1 body.content ⟨child, position, [root]⟩
    body.scope 0 [] child.children = inner at hinner
  obtain ⟨close, hc, hcl⟩ := hclose inner.value
  refine ⟨h.outer, ds, header, mid ++ (inner.log ++ close), ?_, hkind, ?_⟩
  · exact (congrArg₂ (fun l l' => l ++ (inner.log ++ l')) hlog hc).trans (by simp)
  · simp only [List.mem_append]
    rintro s (hs | hs | hs)
    · exact hmid s hs
    · exact hinner s hs
    · exact hcl s hs

/-- The steps for the children of the document element are those for the first one and then those for
the others, unless no nesting at all is allowed. -/
theorem planDocument_cons (config : Config) (root : Element) (position : Nat) (seen : List String)
    (child : Element) (rest : List Element) :
    (∃ seen', (planChildren config none 0 .document (Site.root root) {} position seen
        (child :: rest)).log = childSteps config root position child ++
      (planChildren config none 0 .document (Site.root root) {} (position + 1) seen' rest).log) ∨
    (childSteps config root position child = [.halt .tooDeep] ∧
      (planChildren config none 0 .document (Site.root root) {} position seen
        (child :: rest)).log = [.halt .tooDeep]) := by
  rw [planChildren]
  by_cases hcore : child.isCore
  · simp only [hcore, Bool.not_true, Bool.false_eq_true, ↓reduceIte, admissionOf_document]
    cases hr : topRule? child with
    | none =>
      refine .inl ⟨child.name :: seen, ?_⟩
      rw [childSteps_of_refused hcore hr]
      simp [report, Logged.tell]
    | some rule =>
      rw [childSteps_of_unit hcore hr]
      split_ifs with hlimit
      · exact .inr ⟨rfl, rfl⟩
      · obtain ⟨kind, hk, -⟩ := sectionKind?_of_topRule? hr
        obtain ⟨hv, -⟩ := planElement_of_unit config root child position hk
        refine .inl ⟨child.name :: seen, ?_⟩
        simp only [Site.root, Logged.log_bind, Nat.zero_add, hv]
  · have hcore : child.isCore = false := by simpa using hcore
    simp only [hcore, Bool.not_false, ↓reduceIte]
    exact .inl ⟨seen, by rw [childSteps_of_foreign hcore]; simp⟩

/-! ### Blocks -/

/-- The steps for a child of the document element, with the section that they open: one step outside
of sections, or steps inside of a section that is opened and closed. -/
inductive Block (site : Site) : Option UnitHeader → List Step → Prop
  | outer {s : Step} (hs : s.isOuter) (hi : s.Inside site) : Block site none [s]
  | unit {ds : List Diagnostic} {header : UnitHeader} {mid : List Step}
      (hmid : ∀ s ∈ mid, s.Inside site) :
      Block site (some header) (ds.map .report ++ .openUnit header :: (mid ++ [.closeUnit]))

/-- The first section that steps open. -/
def openedBy (l : List Step) : Option UnitHeader :=
  l.findSome? fun
    | .openUnit header => some header
    | _ => none

theorem Block.openedBy_eq {site : Site} {header : Option UnitHeader} {l : List Step}
    (h : Block site header l) : openedBy l = header := by
  cases h with
  | @outer s hs hi => cases s <;> first | rfl | cases hs
  | @unit ds header mid hmid =>
    induction ds with
    | nil => rfl
    | cons d ds ih => exact ih

/-- The section that a child of the document element opens. -/
def sectionHeader? (config : Config) (root : Element) (position : Nat) (child : Element) :
    Option UnitHeader :=
  openedBy (childSteps config root position child)

theorem block_childSteps (config : Config) (root : Element) (position : Nat) (child : Element) :
    Block ((Site.root root).child position child) (sectionHeader? config root position child)
      (childSteps config root position child) ∧
    ∀ header ∈ sectionHeader? config root position child,
      child.isCore ∧ header.kind.name = child.name := by
  suffices h : ∃ header, Block ((Site.root root).child position child) header
      (childSteps config root position child) ∧
        ∀ u ∈ header, child.isCore ∧ u.kind.name = child.name by
    obtain ⟨header, hb, hn⟩ := h
    rw [sectionHeader?, hb.openedBy_eq]
    exact ⟨hb, hn⟩
  by_cases hcore : child.isCore
  · cases hr : topRule? child with
    | none =>
      rw [childSteps_of_refused hcore hr]
      exact ⟨none, .outer rfl (by simp), by simp⟩
    | some rule =>
      rw [childSteps_of_unit hcore hr]
      split_ifs with hlimit
      · exact ⟨none, .outer rfl (by simp), by simp⟩
      · obtain ⟨kind, hk, hname⟩ := sectionKind?_of_topRule? hr
        obtain ⟨-, ds, header, mid, hlog, rfl, hmid⟩ :=
          planElement_of_unit config root child position hk
        rw [hlog]
        exact ⟨some header, .unit hmid, by simp [hcore, hname]⟩
  · rw [childSteps_of_foreign (by simpa using hcore)]
    exact ⟨none, .outer rfl (by simp [Offer.subject]), by simp⟩

/-- A child of the document element with its steps. -/
structure TopBlock where
  site : Site
  header : Option UnitHeader
  steps : List Step
  block : Block site header steps

/-- The steps for the children of the document element, one by one. -/
def topBlocks (config : Config) (root : Element) : List TopBlock :=
  (topElements root).mapIdx fun i child =>
    ⟨_, _, _, (block_childSteps config root i child).1⟩

/-- A plan in parts: the steps for the document element, then those for each of its children. -/
def parts (config : Config) (root : Element) : List (List Step) :=
  rootSteps root :: (topBlocks config root).map (·.steps)

/-! ### Whole plans -/

theorem alike_childrenSteps (config : Config) (root : Element) (children : List Element) :
    ∀ (position : Nat) (seen : List String), Run.Alike
      (planChildren config none 0 .document (Site.root root) {} position seen children).log
      (children.mapIdx fun i child => childSteps config root (position + i) child).flatten := by
  induction children with
  | nil => intro position seen; rw [planChildren]; exact .refl []
  | cons child rest ih =>
    intro position seen
    rw [List.mapIdx_cons, List.flatten_cons]
    rcases planDocument_cons config root position seen child rest with ⟨seen', h⟩ | ⟨hc, h⟩
    · rw [h]
      simpa [Nat.add_assoc, Nat.add_comm 1] using (ih (position + 1) seen').append
        (childSteps config root position child)
    · rw [h, Nat.add_zero, hc]
      exact .halt _ _ _

theorem map_steps_topBlocks (config : Config) (root : Element) :
    (topBlocks config root).map (·.steps) = (topElements root).mapIdx (childSteps config root) := by
  simp [topBlocks, List.mapIdx_eq_zipIdx_map]

theorem plan_eq (config : Config) (root : Element) : plan config root = rootSteps root ++
    (planChildren config none 0 .document (Site.root root) {} 0 [] (topElements root)).log := by
  unfold plan rootSteps topElements
  split_ifs <;> simp [planChildren]

/-- **A plan is run part by part.** -/
theorem alike_parts (config : Config) (root : Element) :
    Run.Alike (plan config root) (parts config root).flatten := by
  rw [plan_eq, parts, List.flatten_cons, map_steps_topBlocks]
  simpa using (alike_childrenSteps config root (topElements root) 0 []).append (rootSteps root)

/-- The steps for the document element itself keep away from sections. -/
theorem rootSteps_outer (root : Element) :
    ∀ s ∈ rootSteps root, s.isOuter ∧ s.Inside (Site.root root) := by
  unfold rootSteps
  split_ifs
  · simp [Step.isOuter]
  · simp only [List.mem_append]
    rintro s (hs | hs)
    · simp only [report, Logged.log_tell, List.mem_map] at hs
      obtain ⟨d, -, rfl⟩ := hs
      simp [Step.isOuter]
    · simp only [offerAttributes, Logged.log_tell, List.mem_map] at hs
      obtain ⟨a, -, rfl⟩ := hs
      simp [Step.isOuter, Offer.subject]

/-- A step that is in its place if a section is open before it or not, and whether one is open after
it. Symbols are defined only where a section is open. -/
inductive InPlace : Bool → Step → Bool → Prop
  | inner {s : Step} (hs : s.isInner) : InPlace true s true
  | outer {s : Step} (hs : s.isOuter) : InPlace false s false
  | opens (header : UnitHeader) : InPlace false (.openUnit header) true
  | closes : InPlace true .closeUnit false

/-- Steps each of which is in its place. -/
inductive Scoped : Bool → List Step → Bool → Prop
  | nil {b : Bool} : Scoped b [] b
  | cons {a b c : Bool} {s : Step} {l : List Step} (hs : InPlace a s b) (hl : Scoped b l c) :
      Scoped a (s :: l) c

namespace Scoped

theorem append {a b c : Bool} {l l' : List Step} (h : Scoped a l b) (h' : Scoped b l' c) :
    Scoped a (l ++ l') c := by
  induction h with
  | nil => exact h'
  | cons hs _ ih => exact .cons hs (ih h')

theorem of_forall {b : Bool} {l : List Step} (h : ∀ s ∈ l, InPlace b s b) : Scoped b l b := by
  induction l with
  | nil => exact .nil
  | cons s l ih => exact .cons (h s (by simp)) (ih fun s hs => h s (by simp [hs]))

theorem of_block {site : Site} {header : Option UnitHeader} {l : List Step}
    (h : Block site header l) : Scoped false l false := by
  cases h with
  | outer hs _ => exact .cons (.outer hs) .nil
  | @unit ds header mid hmid =>
    have hds : Scoped false (ds.map .report) false :=
      .of_forall (List.forall_mem_map.mpr fun d _ => .outer rfl)
    have hin : Scoped true mid true := .of_forall fun s hs => .inner (hmid s hs).1
    exact hds.append (.cons (.opens header) (hin.append (.cons .closes .nil)))

end Scoped

/-- **The steps of a plan are scoped.** -/
theorem scoped_plan (config : Config) (root : Element) : Scoped false (plan config root) false := by
  have h : ∀ (children : List Element) (position : Nat) (seen : List String), Scoped false
      (planChildren config none 0 .document (Site.root root) {} position seen children).log
        false := by
    intro children
    induction children with
    | nil => intro position seen; rw [planChildren]; exact .nil
    | cons child rest ih =>
      intro position seen
      rcases planDocument_cons config root position seen child rest with ⟨seen', h⟩ | ⟨-, h⟩
      · rw [h]
        exact (Scoped.of_block (block_childSteps config root position child).1).append (ih _ _)
      · rw [h]
        exact .cons (.outer rfl) .nil
  have hroot : Scoped false (rootSteps root) false :=
    .of_forall fun s hs => .outer (rootSteps_outer root s hs).1
  rw [plan_eq]
  exact hroot.append (h _ _ _)

end Compile

end Installer
