import Installer.Proofs.Offers

/-! # Steps by paths

Each step of a plan is taken for one element. `ascribed` is the plan with the path to that element at each
step: a rule takes its steps for the element that it opens and closes, and what is done about a child that
is not read is done for its parent. Without the paths it is the plan (`map_ascribed`). The steps at one
path are those of a `Visit`: the element is opened, its foreign children are offered and it is closed. -/

namespace Installer

open Compile Planned

/-! ### Lists with paths -/

/-- What a list with paths has at one of them. -/
def atPath {α : Type} (path : List Nat) (l : List (List Nat × α)) : List α :=
  (l.filter (·.1 = path)).map (·.2)

section
variable {α : Type}

@[simp] theorem atPath_nil (path : List Nat) : atPath path ([] : List (List Nat × α)) = [] := rfl

@[simp] theorem atPath_append (path : List Nat) (l l' : List (List Nat × α)) :
    atPath path (l ++ l') = atPath path l ++ atPath path l' := by
  simp [atPath]

@[simp] theorem atPath_cons_self (path : List Nat) (a : α) (l : List (List Nat × α)) :
    atPath path ((path, a) :: l) = a :: atPath path l := by
  simp [atPath]

theorem atPath_here (path : List Nat) (l : List α) :
    atPath path (l.map ([], ·)) = if path = [] then l else [] := by
  cases path <;> simp [atPath, List.filter_map, Function.comp_def]

theorem atPath_below (path : List Nat) (position : Nat) (l : List (List Nat × α)) :
    atPath path (l.map fun p => (position :: p.1, p.2)) =
      match path with
      | [] => []
      | i :: path => if i = position then atPath path l else [] := by
  have hfilter : atPath path (l.map fun p => (position :: p.1, p.2)) =
      (l.filter fun p => position :: p.1 = path).map (·.2) := by
    simp [atPath, List.filter_map, Function.comp_def]
  rw [hfilter]
  cases path with
  | nil => simp
  | cons i path =>
    by_cases h : i = position
    · simp [atPath, h]
    · simp [h, Ne.symm h]

theorem mem_atPath {path : List Nat} {a : α} {l : List (List Nat × α)} (h : (path, a) ∈ l) :
    a ∈ atPath path l :=
  List.mem_map_of_mem (f := Prod.snd) (List.mem_filter.mpr ⟨h, by simp⟩)

theorem mem_of_mem_atPath {path : List Nat} {a : α} {l : List (List Nat × α)}
    (h : a ∈ atPath path l) : a ∈ l.map (·.2) := by
  obtain ⟨p, hp, rfl⟩ := List.mem_map.mp h
  exact List.mem_map_of_mem (List.mem_filter.mp hp).1

end

/-- The element at the end of a path. -/
def Site.descend? (s : Site) : List Nat → Option Site
  | [] => some s
  | i :: path => s.element.children[i]?.bind fun child => (s.child i child).descend? path

/-! ### Plans with paths -/

/-- A step with the path to the element that it is taken for. -/
abbrev Ascribed := List Nat × Step

namespace Logged

variable {α β : Type}

/-- Steps that are taken for the element at hand. -/
def here (x : Planned α) : Logged Ascribed α := ⟨x.log.map ([], ·), x.value⟩

/-- Steps that are taken for the child at a position, or for elements below it. -/
def below (position : Nat) (x : Logged Ascribed α) : Logged Ascribed α :=
  ⟨x.log.map fun p => (position :: p.1, p.2), x.value⟩

/-- The steps without the paths. -/
def forget (x : Logged Ascribed α) : Planned α := ⟨x.log.map (·.2), x.value⟩

@[simp] theorem forget_pure (a : α) : (pure a : Logged Ascribed α).forget = pure a := rfl

@[simp] theorem forget_bind (x : Logged Ascribed α) (f : α → Logged Ascribed β) :
    (x >>= f).forget = x.forget >>= fun a => (f a).forget := by
  simp [bind, forget]

@[simp] theorem forget_here (x : Planned α) : (here x).forget = x := by
  simp [here, forget, Function.comp_def]

@[simp] theorem forget_below (position : Nat) (x : Logged Ascribed α) :
    (below position x).forget = x.forget := by
  simp [below, forget]

end Logged

namespace Compile

open Logged

mutual

/-- The steps for an element that is read by a rule, with the paths from it to the elements that they are
taken for. -/
def ascribeElement (config : Config) (unit : Option SectionKind) (depth : Nat) (rule : Rule)
    (scope : Scope) (position : Nat) (ancestors : List Element) :
    Element → Logged Ascribed Scope
  | .node tag children => do
    let site : Site := ⟨.node tag children, position, ancestors⟩
    let opening ← here (rule.open ⟨config, unit⟩ scope site)
    match opening.body with
    | none => pure ()
    | some body =>
      let inner ← ascribeChildren config (body.unit.or unit) depth body.content site body.scope 0 []
        children
      here (tell (body.close inner))
    return opening.outer

/-- The steps for the children of an element, from the given position on, with the paths from the
element. -/
def ascribeChildren (config : Config) (unit : Option SectionKind) (depth : Nat) (content : Content)
    (site : Site) (scope : Scope) (position : Nat) (seen : List String) :
    List Element → Logged Ascribed Scope
  | [] => return scope
  | child :: rest => do
    if !child.isCore then
      here (tell [.offer (.ofElement site (site.child position child)) scope.context])
      ascribeChildren config unit depth content site scope (position + 1) seen rest
    else
      match admissionOf content seen site.element child with
      | .skip =>
        ascribeChildren config unit depth content site scope (position + 1) (child.name :: seen) rest
      | .refuse d =>
        here (report [d])
        ascribeChildren config unit depth content site scope (position + 1) (child.name :: seen) rest
      | .accept rule =>
        if config.recursionLimit ≤ depth then here ⟨[.halt .tooDeep], scope⟩
        else
          let scope ← below position (ascribeElement config unit (depth + 1) rule scope position
            (site.element :: site.ancestors) child)
          ascribeChildren config unit depth content site scope (position + 1) (child.name :: seen) rest

end

/-- The steps for a document, with the paths from the document element. -/
def ascribed (config : Config) (root : Element) : List Ascribed :=
  if root.qname != QName.core "Wix" then [([], .report (wrongRoot root))]
  else
    let site := Site.root root
    (do
      here (report (root.checkAttributes []))
      here (offerAttributes site [])
      ascribeChildren config none 0 .document site {} 0 [] root.children : Logged Ascribed Scope).log

/-! ### Without the paths -/

mutual

theorem forget_ascribeElement (config : Config) (unit : Option SectionKind) (depth : Nat)
    (rule : Rule) (scope : Scope) (position : Nat) (ancestors : List Element) : ∀ e : Element,
    (ascribeElement config unit depth rule scope position ancestors e).forget =
      planElement config unit depth rule scope position ancestors e
  | .node tag children => by
    rw [ascribeElement, planElement]
    simp only [forget_bind, forget_here]
    congr 1
    funext opening
    cases opening.body with
    | none => rfl
    | some body => simp only [forget_bind, forget_here, forget_pure, forget_ascribeChildren]

theorem forget_ascribeChildren (config : Config) (unit : Option SectionKind) (depth : Nat)
    (content : Content) (site : Site) (scope : Scope) (position : Nat) (seen : List String) :
    ∀ children : List Element,
    (ascribeChildren config unit depth content site scope position seen children).forget =
      planChildren config unit depth content site scope position seen children
  | [] => by rw [ascribeChildren, planChildren, forget_pure]
  | child :: rest => by
    rw [ascribeChildren, planChildren]
    by_cases hcore : child.isCore
    · simp only [hcore, Bool.not_true, Bool.false_eq_true, ↓reduceIte]
      cases admissionOf content seen site.element child with
      | skip => exact forget_ascribeChildren ..
      | refuse d => simp only [forget_bind, forget_here, forget_ascribeChildren]
      | accept rule =>
        by_cases hdepth : config.recursionLimit ≤ depth
        · simp only [hdepth, ↓reduceIte, forget_here]
        · simp only [hdepth, ↓reduceIte, forget_bind, forget_below, forget_ascribeElement,
            forget_ascribeChildren]
    · simp only [hcore, Bool.not_false, ↓reduceIte, forget_bind, forget_here, forget_ascribeChildren]

end

/-- **Without the paths the steps are those of the plan.** -/
theorem map_ascribed (config : Config) (root : Element) :
    (ascribed config root).map (·.2) = plan config root := by
  unfold ascribed plan
  split_ifs
  · rfl
  · change (Logged.forget _).log = _
    simp only [forget_bind, forget_here, forget_ascribeChildren]

/-! ### Visits -/

/-- What an element does about its children that are not read: it refuses them, gives up or offers
them. -/
inductive Dispatches (site : Site) (context : Context) : Step → Prop
  | report (d : Diagnostic) : Dispatches site context (.report d)
  | tooDeep : Dispatches site context (.halt .tooDeep)
  | offer (child : Site) : Dispatches site context (.offer (.ofElement site child) context)

/-- The steps that are taken for one element. -/
inductive Visit (config : Config) (site : Site) : List Step → Prop
  | left {rule : Rule} {unit : Option SectionKind} {scope : Scope}
      (hcore : site.element.isCore) (hname : Rule.named? site.element.name = some rule)
      (hbody : (rule.open ⟨config, unit⟩ scope site).value.body = none) :
      Visit config site (rule.open ⟨config, unit⟩ scope site).log
  | entered {rule : Rule} {unit : Option SectionKind} {scope inner : Scope} {body : Body}
      {l : List Step} (hcore : site.element.isCore)
      (hname : Rule.named? site.element.name = some rule)
      (hbody : (rule.open ⟨config, unit⟩ scope site).value.body = some body)
      (hl : ∀ s ∈ l, Dispatches site body.scope.context s) :
      Visit config site ((rule.open ⟨config, unit⟩ scope site).log ++ (l ++ body.close inner))

/-- The steps at a path from a site are none, or those of a visit to the element there. -/
def VisitedAt (config : Config) (site : Site) (path : List Nat) (l : List Step) : Prop :=
  l = [] ∨ ∃ target, site.descend? path = some target ∧ Visit config target l

/-- The steps for the children of a site, from the given position on: the site takes some of them, and
the others are those of visits below the children. -/
structure Attends (config : Config) (site : Site) (context : Context) (position : Nat)
    (children : List Element) (l : List Ascribed) : Prop where
  here : ∀ s ∈ atPath [] l, Dispatches site context s
  below : ∀ i path, atPath (i :: path) l ≠ [] → ∃ j child, i = position + j ∧
    children[j]? = some child ∧ VisitedAt config (site.child i child) path (atPath (i :: path) l)

namespace Attends

variable {config : Config} {site : Site} {context : Context} {position : Nat} {child : Element}
  {rest : List Element} {l : List Ascribed}

/-- A child that is not read. -/
theorem cons_here (h : Attends config site context (position + 1) rest l) {steps : List Step}
    (hs : ∀ s ∈ steps, Dispatches site context s) :
    Attends config site context position (child :: rest) (steps.map ([], ·) ++ l) := by
  refine ⟨?_, fun i path hne => ?_⟩
  · rw [atPath_append, atPath_here, if_pos rfl]
    exact List.forall_mem_append.mpr ⟨hs, h.here⟩
  · rw [atPath_append, atPath_here, if_neg (List.cons_ne_nil _ _), List.nil_append] at hne ⊢
    obtain ⟨j, c, hj, hc, hvisit⟩ := h.below i path hne
    exact ⟨j + 1, c, by omega, hc, hvisit⟩

/-- A child that is read. -/
theorem cons_below (h : Attends config site context (position + 1) rest l) {below : List Ascribed}
    (hb : ∀ path, VisitedAt config (site.child position child) path (atPath path below)) :
    Attends config site context position (child :: rest)
      ((below.map fun p => (position :: p.1, p.2)) ++ l) := by
  refine ⟨?_, fun i path hne => ?_⟩
  · rw [atPath_append, atPath_below, List.nil_append]
    exact h.here
  · rw [atPath_append, atPath_below] at hne ⊢
    dsimp only at hne ⊢
    by_cases hi : i = position
    · -- the later children are not at this position
      have hrest : atPath (i :: path) l = [] := by
        by_contra hrest
        obtain ⟨j, _, hj, _⟩ := h.below i path hrest
        omega
      rw [if_pos hi, hrest, List.append_nil, hi]
      exact ⟨0, child, rfl, rfl, hb path⟩
    · rw [if_neg hi, List.nil_append] at hne ⊢
      obtain ⟨j, c, hj, hc, hvisit⟩ := h.below i path hne
      exact ⟨j + 1, c, by omega, hc, hvisit⟩

/-- All children of the site, seen from the site itself. -/
theorem visitedAt (h : Attends config site context 0 site.element.children l) (i : Nat)
    (path : List Nat) : VisitedAt config site (i :: path) (atPath (i :: path) l) := by
  by_cases hne : atPath (i :: path) l = []
  · exact .inl hne
  · obtain ⟨j, child, rfl, hj, hvisit⟩ := h.below i path hne
    obtain ⟨target, htarget, hvisit⟩ := hvisit.resolve_left hne
    refine .inr ⟨target, ?_, hvisit⟩
    rw [Nat.zero_add] at htarget ⊢
    rw [Site.descend?, hj]
    exact htarget

end Attends

section
variable {config : Config} {unit : Option SectionKind} {depth : Nat} {rule : Rule} {scope : Scope}
  {position : Nat} {ancestors : List Element} {e : Element}

theorem ascribeElement_of_none
    (h : (rule.open ⟨config, unit⟩ scope ⟨e, position, ancestors⟩).value.body = none) :
    (ascribeElement config unit depth rule scope position ancestors e).log =
      (rule.open ⟨config, unit⟩ scope ⟨e, position, ancestors⟩).log.map ([], ·) := by
  obtain ⟨tag, children⟩ := e
  rw [ascribeElement]
  simp only [bind, Logged.here, h]
  simp [pure]

theorem ascribeElement_of_some {body : Body}
    (h : (rule.open ⟨config, unit⟩ scope ⟨e, position, ancestors⟩).value.body = some body) :
    (ascribeElement config unit depth rule scope position ancestors e).log =
      let inner := ascribeChildren config (body.unit.or unit) depth body.content
        ⟨e, position, ancestors⟩ body.scope 0 [] e.children
      (rule.open ⟨config, unit⟩ scope ⟨e, position, ancestors⟩).log.map ([], ·) ++
        (inner.log ++ (body.close inner.value).map ([], ·)) := by
  obtain ⟨tag, children⟩ := e
  rw [ascribeElement]
  simp only [bind, Logged.here, h]
  simp [pure, Logged.tell, Element.children]

/-- An element leaves what is told about its parent as it is. -/
theorem context_ascribeElement :
    (ascribeElement config unit depth rule scope position ancestors e).value.context =
      scope.context := by
  obtain ⟨tag, children⟩ := e
  rw [ascribeElement]
  simp only [Logged.value_bind]
  split <;> exact (informs_open rule _ scope _).outer

end

mutual

theorem visitedAt_ascribeElement (config : Config) (unit : Option SectionKind) (depth : Nat)
    (rule : Rule) (scope : Scope) (position : Nat) (ancestors : List Element) : ∀ e : Element,
    e.isCore → Rule.named? e.name = some rule →
      ∀ path, VisitedAt config ⟨e, position, ancestors⟩ path
        (atPath path (ascribeElement config unit depth rule scope position ancestors e).log)
  | .node tag children, hcore, hname, path => by
    cases hb : (rule.open ⟨config, unit⟩ scope
        ⟨.node tag children, position, ancestors⟩).value.body with
    | none =>
      rw [ascribeElement_of_none hb, atPath_here]
      split_ifs with hpath
      · exact .inr ⟨_, by rw [hpath, Site.descend?], .left hcore hname hb⟩
      · exact .inl rfl
    | some body =>
      have hchildren := attends_ascribeChildren config (body.unit.or unit) depth body.content
        ⟨.node tag children, position, ancestors⟩ body.scope 0 [] children
      rw [ascribeElement_of_some hb]
      simp only [atPath_append, atPath_here, Element.children]
      cases path with
      | nil =>
        simp only [↓reduceIte]
        exact .inr ⟨_, rfl, .entered hcore hname hb hchildren.here⟩
      | cons i path =>
        simp only [reduceCtorEq, ↓reduceIte, List.nil_append, List.append_nil]
        exact hchildren.visitedAt i path

theorem attends_ascribeChildren (config : Config) (unit : Option SectionKind) (depth : Nat)
    (content : Content) (site : Site) (scope : Scope) (position : Nat) (seen : List String) :
    ∀ children : List Element, Attends config site scope.context position children
      (ascribeChildren config unit depth content site scope position seen children).log
  | [] => by
    rw [ascribeChildren]
    exact ⟨by simp, by simp⟩
  | child :: rest => by
    have ih := fun scope position seen =>
      attends_ascribeChildren config unit depth content site scope position seen rest
    rw [ascribeChildren]
    by_cases hcore : child.isCore
    · simp only [hcore, Bool.not_true, Bool.false_eq_true, ↓reduceIte]
      cases hadmission : admissionOf content seen site.element child with
      | skip => exact (ih _ _ _).cons_here (List.forall_mem_nil _)
      | refuse d => exact (ih _ _ _).cons_here (by simp [report, Dispatches.report])
      | accept rule =>
        have hname := Rule.named?_of_gives (gives_of_accept hadmission)
        by_cases hdepth : config.recursionLimit ≤ depth
        · simp only [hdepth, ↓reduceIte]
          exact ⟨by simp [Logged.here, atPath, Dispatches.tooDeep], by simp [Logged.here, atPath]⟩
        · simp only [hdepth, ↓reduceIte]
          have hrest := ih (ascribeElement config unit (depth + 1) rule scope position
            (site.element :: site.ancestors) child).value (position + 1) (child.name :: seen)
          rw [context_ascribeElement] at hrest
          exact hrest.cons_below
            (visitedAt_ascribeElement config unit (depth + 1) rule scope position _ child hcore hname)
    · simp only [hcore, Bool.not_false, ↓reduceIte]
      exact (ih _ _ _).cons_here (by simp [Dispatches.offer])

end

/-- **The steps at a path are those of a visit**, below the document element. -/
theorem visitedAt_ascribed (config : Config) (root : Element) (i : Nat) (path : List Nat) :
    VisitedAt config (Site.root root) (i :: path) (atPath (i :: path) (ascribed config root)) := by
  unfold ascribed
  split_ifs
  · exact .inl rfl
  · have h := attends_ascribeChildren config none 0 .document (Site.root root) {} 0 [] root.children
    simp only [Logged.log_bind, Logged.here, atPath_append, atPath_here, reduceCtorEq, ↓reduceIte,
      List.nil_append]
    exact h.visitedAt i path

/-- The steps that are taken for the document element itself. -/
theorem root_ascribed {root : Element} (h : root.qname = QName.core "Wix") (config : Config) :
    ∃ l, atPath [] (ascribed config root) = (root.checkAttributes []).map .report ++
        ((offerAttributes (Site.root root) []).log ++ l) ∧
      ∀ s ∈ l, Dispatches (Site.root root) [] s := by
  refine ⟨_, ?_, (attends_ascribeChildren config none 0 .document (Site.root root) {} 0 []
    root.children).here⟩
  simp only [ascribed, h, bne_self_eq_false, Bool.false_eq_true, ↓reduceIte, Logged.log_bind,
    Logged.here, atPath_append, atPath_here]
  rfl

/-- **What is defined for an element is defined in a visit to it.** -/
theorem exists_visit_of_emit {config : Config} {root : Element} {path : List Nat} {id : Identifier}
    {data : Symbol.Data} (h : (path, .emit id data) ∈ ascribed config root) :
    ∃ site, (Site.root root).descend? path = some site ∧
      Visit config site (atPath path (ascribed config root)) := by
  have hat := mem_atPath h
  cases path with
  | nil =>
    -- for the document element itself nothing is defined
    by_cases hroot : root.qname = QName.core "Wix"
    · obtain ⟨l, hl, hdispatch⟩ := root_ascribed hroot config
      rw [hl, List.mem_append, List.mem_append] at hat
      rcases hat with hat | hat | hat
      · simp at hat
      · simp [offerAttributes] at hat
      · cases hdispatch _ hat
    · have hplan : ascribed config root = [([], .report (wrongRoot root))] := by
        simp [ascribed, hroot]
      rw [hplan] at h
      simp at h
  | cons i path =>
    exact (visitedAt_ascribed config root i path).resolve_left (List.ne_nil_of_mem hat)

end Compile

end Installer
