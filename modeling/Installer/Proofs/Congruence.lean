import Installer.Proofs.Packages

/-! # Documents that rules do not tell apart

Two documents of one shape whose elements are related in pairs. If the relation keeps the heads of elements,
and elements so related are opened in the same way by the rule that reads them
(`Compile.Indiscernible`), then without extensions the plans of the two documents are the same
(`Compile.Indiscernible.bare_plan`), and so are the results of the compile
(`Compile.Indiscernible.result_eq`). -/

namespace Installer

open Compile Planned

namespace Compile

/-! ### Openings -/

/-- Sites of related elements with related parents, where a rule reads the element. -/
structure MatchedSite (R : Element → Element → Prop) (rule : Rule) (s s' : Site) : Prop where
  element : s.element.Matched R s'.element
  position : s.position = s'.position
  parent : s.parent.name = s'.parent.name
  given : ∃ content : Content, content.Gives s.element.name rule

/-- Related elements have the same heads, and are opened in the same way by the rule that reads them; a
document element has the same tag. -/
structure Indiscernible (config : Config) (R : Element → Element → Prop) : Prop where
  head {e e' : Element} : R e e' → e.SameHead e'
  root {e e' : Element} : R e e' → e.qname = QName.core "Wix" → e.SameTag e'
  opens {rule : Rule} {s s' : Site} : MatchedSite R rule s s' → ∀ unit scope,
    (rule.open ⟨config, unit⟩ scope s).bare = (rule.open ⟨config, unit⟩ scope s').bare

/-! ### Plans -/

/-- The steps for an element are the same if it is replaced by a related one. -/
def Kept (config : Config) (R : Element → Element → Prop) (e : Element) : Prop :=
  ∀ unit depth rule scope (s s' : Site), s.element = e → MatchedSite R rule s s' →
    (planElement config unit depth rule scope s.position s.ancestors s.element).bare =
      (planElement config unit depth rule scope s'.position s'.ancestors s'.element).bare

/-- What is said about the first child of a name. -/
theorem map_find?_eq {α : Type} {f : Element → α}
    (hf : ∀ {c c' : Element}, c.SameHead c' → f c = f c') {l l' : List Element}
    (h : List.Forall₂ Element.SameHead l l') (q : QName) :
    (l.find? (·.qname == q)).map f = (l'.find? (·.qname == q)).map f := by
  induction h with
  | nil => rfl
  | cons hc _ ih =>
    rw [List.find?_cons, List.find?_cons, hc.qname]
    split
    · exact congrArg some (hf hc)
    · exact ih

theorem admissionOf_eq {parent parent' child child' : Element} (hparent : parent.SameHead parent')
    (hsiblings : List.Forall₂ Element.SameHead parent.children parent'.children)
    (hchild : child.SameHead child') (content : Content) (seen : List String) :
    admissionOf content seen parent child = admissionOf content seen parent' child' := by
  have hunexpected : parent.unexpectedElement child = parent'.unexpectedElement child' := by
    rw [hparent.unexpectedElement_eq]
    simp only [Element.unexpectedElement, hchild.name, hchild.range]
  have htooMany : parent.tooManyChildren child = parent'.tooManyChildren child' := by
    unfold Element.tooManyChildren
    rw [← Option.toList_map, ← Option.toList_map, hchild.qname,
      map_find?_eq (fun hc => by rw [hc.range]) hsiblings, hparent.qualifyChild_eq, hparent.name,
      hchild.name, hchild.range]
  unfold admissionOf
  rw [hunexpected, htooMany, hchild.name]

namespace Indiscernible

variable {config : Config} {R : Element → Element → Prop} (h : Indiscernible config R)
include h

theorem sameHead {e e' : Element} (he : e.Matched R e') : e.SameHead e' := h.head he.here

theorem bare_planChildren (unit : Option SectionKind) (depth : Nat) (content : Content)
    {s s' : Site} (hsite : s.element.Matched R s'.element) {children children' : List Element}
    (hchildren : List.Forall₂ (Element.Matched R) children children') :
    (∀ child ∈ children, Kept config R child) →
      ∀ (scope : Scope) (position : Nat) (seen : List String),
        (planChildren config unit depth content s scope position seen children).bare =
          (planChildren config unit depth content s' scope position seen children').bare := by
  have hparent := h.sameHead hsite
  have hsiblings := hsite.children.imp fun _ _ => h.sameHead
  induction hchildren with
  | nil =>
    intro _ scope position seen
    rw [planChildren, planChildren]
  | @cons child child' rest rest' hc hrest ih =>
    intro hkept scope position seen
    obtain ⟨hchild, hkept⟩ := List.forall_mem_cons.mp hkept
    have ih := ih hkept
    have hhead := h.sameHead hc
    rw [planChildren, planChildren, ← hhead.isCore]
    cases hcore : child.isCore with
    | false =>
      have hunhandled : s.element.unhandledElement child = s'.element.unhandledElement child' := by
        simp only [Element.unhandledElement, hparent.name, hhead.range, hhead.qname]
      simp [ih, Step.bare, Offer.unhandled, Site.child, hunhandled]
    | true =>
      simp only [Bool.not_true, Bool.false_eq_true, ↓reduceIte, ← hhead.name,
        ← admissionOf_eq hparent hsiblings hhead]
      cases ha : admissionOf content seen s.element child with
      | skip => exact ih _ _ _
      | refuse d => simp only [Logged.bare_bind, bare_report, ih]
      | accept rule =>
        have hchildSite : MatchedSite R rule (s.child position child) (s'.child position child') :=
          { element := hc
            position := rfl
            parent := hparent.name
            given := ⟨content, gives_of_accept ha⟩ }
        have hplan := hchild unit (depth + 1) rule scope _ _ rfl hchildSite
        simp only [Site.child] at hplan
        simp only [Logged.bare_ite, Logged.bare_bind, hplan, ih]

theorem kept (e : Element) : Kept config R e := by
  induction e using Element.induct with
  | node tag children ih =>
    rintro unit depth rule scope s s' hs hsite
    obtain ⟨_, position, ancestors⟩ := s
    obtain ⟨⟨tag', children'⟩, position', ancestors'⟩ := s'
    cases hs
    have hopen := h.opens hsite unit scope
    have hlog := congrArg Logged.log hopen
    have hvalue := congrArg Logged.value hopen
    simp only [Logged.bare] at hlog hvalue
    cases hb : (rule.open ⟨config, unit⟩ scope
        ⟨.node tag children, position, ancestors⟩).value.body with
    | none =>
      rw [planElement_of_none hb, planElement_of_none (hvalue ▸ hb)]
      simp only [Logged.bare, hlog, hvalue]
    | some body =>
      have hinner := h.bare_planChildren (body.unit.or unit) depth body.content hsite.element
        hsite.element.children ih body.scope 0 []
      have hinnerLog := congrArg Logged.log hinner
      have hinnerValue := congrArg Logged.value hinner
      simp only [Logged.bare] at hinnerLog hinnerValue
      rw [planElement_of_some hb, planElement_of_some (hvalue ▸ hb)]
      simp only [Logged.bare, List.map_append, hlog, hvalue, hinnerLog, hinnerValue]

/-- **Without extensions the plans of related documents are the same.** -/
theorem bare_plan {root root' : Element} (hroot : root.Matched R root') :
    (plan config root).map Step.bare = (plan config root').map Step.bare := by
  have hhead := h.sameHead hroot
  unfold plan
  rw [← hhead.qname]
  split_ifs with hname
  · simp only [wrongRoot, hhead.range, hhead.qname]
  · have htag : root.SameTag root' := h.root hroot.here (by simpa using hname)
    have hsite : (Site.root root).element.Matched R (Site.root root').element := hroot
    have hchildren := h.bare_planChildren none 0 .document hsite hroot.children
      (fun child _ => h.kept child) {} 0 []
    have hoffer : (offerAttributes (Site.root root) []).bare =
        (offerAttributes (Site.root root') []).bare := bare_offerAttributes_eq htag []
    refine congrArg Logged.log (?_ : Logged.bare _ = Logged.bare _)
    simp only [Logged.bare_bind, bare_report, htag.agrees.checkAttributes_eq,
      hoffer, hchildren]

end Indiscernible

/-- Without extensions related documents compile to the same result. -/
theorem Indiscernible.result_eq {c : Compiler} {R : Element → Element → Prop}
    (h : Indiscernible c.config R) (hc : c.extensions = []) {root root' : Element}
    (hroot : root.Matched R root') (k : UInt32) :
    (c.compileAs k root).result = (c.compileAs k root').result := by
  unfold Compiler.compileAs
  rw [hc, ← Run.steps_bare, ← Run.steps_bare _ (plan _ root'), h.bare_plan hroot]

end Compile

end Installer
