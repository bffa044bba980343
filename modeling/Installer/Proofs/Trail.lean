import Installer.Compile.Plan
import Mathlib.Tactic.Common

/-! # Induction over plans

A plan is made by walking down the document, and what is to be shown of it is nearly always a relation
(`Trail`) between the scope before some children, the steps for them and the scope after them. Such a
relation holds of all children (`Trail.Closed.children`) if it is closed under putting steps one after
another and holds of each single child: a foreign one, a refused one, one that is nested too deeply,
and one that is read by a rule, for which it may be assumed of the children in turn. -/

namespace Installer

/-- Induction over documents: the property may be assumed of all children of an element. -/
theorem Element.induct {P : Element → Prop}
    (node : ∀ tag children, (∀ child ∈ children, P child) → P (.node tag children)) (e : Element) :
    P e :=
  @Element.rec P (fun es => ∀ e ∈ es, P e) node (by simp)
    (fun _ _ he hes e h => (List.mem_cons.mp h).elim (· ▸ he) (hes e)) e

/-- The name of a core element. -/
theorem Element.qname_eq_core {e : Element} (h : e.isCore) : e.qname = QName.core e.name := by
  simp only [Element.isCore, beq_iff_eq] at h
  rw [QName.core, ← h]
  rfl

theorem Element.core_of_qname {e : Element} {name : String} (h : e.qname = QName.core name) :
    e.isCore ∧ e.name = name := by
  rw [Element.isCore, Element.name, ← Element.qname, h]
  exact ⟨rfl, rfl⟩

/-! ### What a child is read by -/

/-- The rule of an entry. -/
def Entry.rule? : Entry → Option Rule
  | .many rule | .single rule => some rule
  | .absorbed => none

/-- All contents. -/
def Content.all : List Content :=
  [document, fragment, bundle, payloads, chainItems, packageGroupRefs] ++
    Symbol.PackageKind.all.map package ++ [component, database, patch, sequence, nothing]

theorem Content.mem_all (content : Content) : content ∈ all := by
  cases content with
  | package kind => cases kind <;> decide
  | _ => decide

/-- A content gives a rule to the children of a name. -/
def Content.Gives (content : Content) (name : String) (rule : Rule) : Prop :=
  ∃ entry, (name, entry) ∈ content.entries ∧ entry.rule? = some rule

/-- The one name of the elements that a rule is for, as far as rules are told by names. -/
def Rule.soleName? : Rule → Option String
  | bundle => some "Bundle"
  | bootstrapperApplication => some "BootstrapperApplication"
  | chain => some "Chain"
  | rollbackBoundary => some "RollbackBoundary"
  | chainPackage kind => some kind.elementName
  | variableValue => some "Variable"
  | _ => none

theorem Content.name_of_gives {content : Content} {name sole : String} {rule : Rule}
    (h : content.Gives name rule) (hs : rule.soleName? = some sole) : name = sole := by
  have hall : ∀ content ∈ Content.all, ∀ p ∈ content.entries,
      ∀ sole ∈ p.2.rule?.bind Rule.soleName?, p.1 = sole := by
    decide +kernel
  obtain ⟨entry, hmem, hrule⟩ := h
  exact hall content content.mem_all (name, entry) hmem sole (by simp [hrule, hs])

namespace Compile

/-- A core child is read only by the rule that the content of its parent gives to its name. -/
theorem gives_of_accept {content : Content} {seen : List String} {parent child : Element}
    {rule : Rule} (h : admissionOf content seen parent child = .accept rule) :
    content.Gives child.name rule := by
  have hmem : ∀ entry, content.entry? child.name = some entry →
      (child.name, entry) ∈ content.entries := by
    intro entry he
    obtain ⟨l₁, l₂, hl, -⟩ := List.lookup_eq_some_iff.mp he
    rw [hl]
    simp
  unfold admissionOf at h
  split at h
  · cases h
  · next r he => cases h; exact ⟨_, hmem _ he, rfl⟩
  · next r he =>
    split_ifs at h
    cases h
    exact ⟨_, hmem _ he, rfl⟩
  · split_ifs at h

/-! ### The steps for one element -/

theorem planElement_of_none {config : Config} {unit : Option SectionKind} {depth : Nat} {rule : Rule}
    {scope : Scope} {position : Nat} {ancestors : List Element} {e : Element}
    (h : (rule.open ⟨config, unit⟩ scope ⟨e, position, ancestors⟩).value.body = none) :
    planElement config unit depth rule scope position ancestors e =
      ⟨(rule.open ⟨config, unit⟩ scope ⟨e, position, ancestors⟩).log,
        (rule.open ⟨config, unit⟩ scope ⟨e, position, ancestors⟩).value.outer⟩ := by
  obtain ⟨tag, children⟩ := e
  rw [planElement]
  simp only [bind, h]
  simp [pure]

/-- If the children of an element are read, their steps stand between those of the opening and
those of the close. -/
theorem planElement_of_some {config : Config} {unit : Option SectionKind} {depth : Nat} {rule : Rule}
    {scope : Scope} {position : Nat} {ancestors : List Element} {e : Element} {body : Body}
    (h : (rule.open ⟨config, unit⟩ scope ⟨e, position, ancestors⟩).value.body = some body) :
    planElement config unit depth rule scope position ancestors e =
      let inner := planChildren config (body.unit.or unit) depth body.content
        ⟨e, position, ancestors⟩ body.scope 0 [] e.children
      ⟨(rule.open ⟨config, unit⟩ scope ⟨e, position, ancestors⟩).log ++
          (inner.log ++ body.close inner.value),
        (rule.open ⟨config, unit⟩ scope ⟨e, position, ancestors⟩).value.outer⟩ := by
  obtain ⟨tag, children⟩ := e
  rw [planElement]
  simp only [bind, h]
  simp [pure, Logged.tell, Element.children]

/-! ### Trails -/

/-- A relation between the scope before some children of a site, the steps for them and the scope
after them. The kind of the section around them and the content of the site are given too. -/
abbrev Trail := Option SectionKind → Content → Site → Scope → List Step → Scope → Prop

/-- What a relation needs to hold of the steps for any children. -/
structure Trail.Closed (config : Config) (Q : Trail) : Prop where
  nil : ∀ {unit content site scope}, Q unit content site scope [] scope
  append : ∀ {unit content site scope scope' scope'' l l'}, Q unit content site scope l scope' →
    Q unit content site scope' l' scope'' → Q unit content site scope (l ++ l') scope''
  foreign : ∀ {unit content site scope child} (position : Nat), child.isCore = false →
    Q unit content site scope
      [.offer (.ofElement site (site.child position child)) scope.context] scope
  refused : ∀ {unit content site scope seen child d},
    admissionOf content seen site.element child = .refuse d →
      Q unit content site scope [.report d] scope
  tooDeep : ∀ {unit content site scope}, Q unit content site scope [.halt .tooDeep] scope
  left : ∀ {unit content site scope position seen child rule},
    admissionOf content seen site.element child = .accept rule →
    (rule.open ⟨config, unit⟩ scope (site.child position child)).value.body = none →
      Q unit content site scope (rule.open ⟨config, unit⟩ scope (site.child position child)).log
        (rule.open ⟨config, unit⟩ scope (site.child position child)).value.outer
  entered : ∀ {unit content site scope position seen child rule body l inner},
    admissionOf content seen site.element child = .accept rule →
    (rule.open ⟨config, unit⟩ scope (site.child position child)).value.body = some body →
    Q (body.unit.or unit) body.content (site.child position child) body.scope l inner →
      Q unit content site scope
        ((rule.open ⟨config, unit⟩ scope (site.child position child)).log ++ (l ++ body.close inner))
        (rule.open ⟨config, unit⟩ scope (site.child position child)).value.outer

section Closed
variable {config : Config} {Q : Trail} (hQ : Q.Closed config)
include hQ

/-- The relation holds of the steps for an element that is read by a rule. -/
def Trail.HoldsAt (config : Config) (Q : Trail) (e : Element) : Prop :=
  ∀ unit depth content site scope position seen rule,
    admissionOf content seen site.element e = .accept rule →
      Q unit content site scope
        (planElement config unit depth rule scope position (site.element :: site.ancestors) e).log
        (planElement config unit depth rule scope position (site.element :: site.ancestors) e).value

theorem Trail.Closed.children_of_holdsAt (unit : Option SectionKind) (depth : Nat)
    (content : Content) (site : Site) : ∀ (children : List Element) (scope : Scope) (position : Nat)
    (seen : List String), (∀ child ∈ children, Trail.HoldsAt config Q child) →
      Q unit content site scope
        (planChildren config unit depth content site scope position seen children).log
        (planChildren config unit depth content site scope position seen children).value
  | [], scope, position, seen, _ => by rw [planChildren]; exact hQ.nil
  | child :: rest, scope, position, seen, h => by
    have ih := fun scope position seen => children_of_holdsAt unit depth content site rest scope
      position seen fun c hc => h c (List.mem_cons_of_mem _ hc)
    rw [planChildren]
    by_cases hcore : child.isCore
    · simp only [hcore, Bool.not_true, Bool.false_eq_true, ↓reduceIte]
      split
      · exact ih _ _ _
      · next d hd => exact hQ.append (hQ.refused hd) (ih _ _ _)
      · next rule hr =>
        split_ifs with hdepth
        · exact hQ.tooDeep
        · exact hQ.append (h child (by simp) _ _ _ _ _ _ _ _ hr) (ih _ _ _)
    · simp only [hcore, Bool.not_false, ↓reduceIte]
      exact hQ.append (hQ.foreign position (by simpa using hcore)) (ih _ _ _)

theorem Trail.Closed.holdsAt (e : Element) : Trail.HoldsAt config Q e := by
  induction e using Element.induct with
  | node tag children ih =>
    intro unit depth content site scope position seen rule hr
    cases hbody :
      (rule.open ⟨config, unit⟩ scope (site.child position (.node tag children))).value.body with
    | none =>
      rw [planElement_of_none hbody]
      exact hQ.left hr hbody
    | some body =>
      rw [planElement_of_some hbody]
      exact hQ.entered hr hbody (hQ.children_of_holdsAt _ _ _ _ _ _ _ _ ih)

/-- **Induction over plans.** A closed relation holds of the steps for any children. -/
theorem Trail.Closed.children (unit : Option SectionKind) (depth : Nat) (content : Content)
    (site : Site) (scope : Scope) (position : Nat) (seen : List String) (children : List Element) :
    Q unit content site scope
      (planChildren config unit depth content site scope position seen children).log
      (planChildren config unit depth content site scope position seen children).value :=
  hQ.children_of_holdsAt unit depth content site children scope position seen
    fun child _ => hQ.holdsAt child

end Closed

end Compile

end Installer
