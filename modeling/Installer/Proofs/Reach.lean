import Installer.Proofs.Offers

/-! # The elements that are reached

A plan without errors goes through all elements that are core and below core elements only
(`Element.reached`), and it offers the foreign nodes of each of them. It does not do so element by
element: between two foreign children of an element it may be busy with the core child between them, and
the foreign nodes of the element that authors the payload of a package come before those of the package.
So the nodes that are offered are an interleaving (`Interleaves`): each node of each reached element is
taken once, and those of one element are taken in order. -/

namespace Installer

open Compile Planned

/-! ### Interleavings -/

/-- An interleaving of lists takes the first element that is left of one of them again and again, until
nothing is left. -/
inductive Interleaves {α : Type} : List (List α) → List α → Prop
  | nil {ls : List (List α)} (h : ∀ l ∈ ls, l = []) : Interleaves ls []
  | cons {ls ls' : List (List α)} {x : α} {xs l : List α} (h : Interleaves (ls ++ xs :: ls') l) :
      Interleaves (ls ++ (x :: xs) :: ls') (x :: l)

namespace Interleaves

variable {α : Type} {ls ls' : List (List α)} {xs ys l l' : List α}

/-- The order of the lists does not matter. -/
theorem perm (h : Interleaves ls l) (hp : ls.Perm ls') : Interleaves ls' l := by
  induction h generalizing ls' with
  | nil h => exact .nil fun l hl => h l (hp.mem_iff.mpr hl)
  | @cons ls₁ ls₂ x xs l _ ih =>
    obtain ⟨ls₁', ls₂', rfl⟩ := List.append_of_mem (hp.mem_iff.mp List.mem_append_cons_self)
    have hothers : (ls₁ ++ ls₂).Perm (ls₁' ++ ls₂') :=
      (List.perm_cons _).mp (List.perm_middle.symm.trans (hp.trans List.perm_middle))
    refine .cons (ih ?_)
    exact List.perm_middle.trans ((hothers.cons xs).trans List.perm_middle.symm)

theorem cons_nil (h : Interleaves ls l) : Interleaves ([] :: ls) l := by
  induction h with
  | nil h => exact .nil (List.forall_mem_cons.mpr ⟨rfl, h⟩)
  | @cons ls₁ ls₂ x xs l _ ih => exact @cons _ ([] :: ls₁) ls₂ x xs l ih

/-- One interleaving after another. -/
theorem append (h : Interleaves ls l) (h' : Interleaves ls' l') :
    Interleaves (ls ++ ls') (l ++ l') := by
  induction h with
  | @nil ls h =>
    induction ls with
    | nil => exact h'
    | cons xs ls ih =>
      obtain ⟨rfl, hls⟩ := List.forall_mem_cons.mp h
      exact (ih hls).cons_nil
  | @cons ls₁ ls₂ x xs l _ ih =>
    rw [List.append_assoc, List.cons_append] at ih ⊢
    exact .cons ih

/-- What is taken first may be put in front of one of the lists. -/
theorem push (h : Interleaves (xs :: ls) l) (ys : List α) :
    Interleaves ((ys ++ xs) :: ls) (ys ++ l) := by
  induction ys with
  | nil => exact h
  | cons y ys ih => exact @cons _ [] ls y (ys ++ xs) (ys ++ l) ih

theorem flatten (ls : List (List α)) : Interleaves ls ls.flatten := by
  induction ls with
  | nil => exact .nil (by simp)
  | cons xs ls ih => simpa using ih.cons_nil.push xs

/-- Everything is taken exactly once. -/
theorem flatten_perm (h : Interleaves ls l) : ls.flatten.Perm l := by
  induction h with
  | nil h => rw [List.flatten_eq_nil_iff.mpr h]
  | @cons ls₁ ls₂ x xs l _ ih =>
    rw [List.flatten_append, List.flatten_cons] at ih ⊢
    exact List.perm_middle.trans (ih.cons x)

/-- What is in one of the lists is taken in order. -/
theorem sublist (h : Interleaves ls l) (hxs : xs ∈ ls) : xs.Sublist l := by
  induction h generalizing xs with
  | nil h =>
    obtain rfl := h xs hxs
    exact List.Sublist.refl []
  | @cons ls₁ ls₂ x ys l _ ih =>
    rcases List.mem_append.mp hxs with hxs | hxs
    · exact (ih (List.mem_append_left _ hxs)).cons x
    · rcases List.mem_cons.mp hxs with rfl | hxs
      · exact (ih List.mem_append_cons_self).cons_cons x
      · exact (ih (by simp [hxs])).cons x

end Interleaves

/-! ### Reached elements -/

/-- The element and all elements around it are core. -/
def Site.isReached (s : Site) : Bool := s.lineage.all (·.isCore)

namespace Element

/-- The elements of a document that are reached. -/
def reached (root : Element) : List Site := root.sites.filter (·.isReached)

theorem suffix_lineage_of_mem_sitesAt (e : Element) : ∀ (position : Nat) (ancestors : List Element),
    ∀ s ∈ e.sitesAt position ancestors, (e :: ancestors).IsSuffix s.lineage := by
  induction e using Element.induct with
  | node tag children ih =>
    intro position ancestors
    have hlist : ∀ (es : List Element) (i : Nat), (∀ e ∈ es, e ∈ children) →
        ∀ s ∈ sitesOfList i (node tag children :: ancestors) es,
          (node tag children :: ancestors).IsSuffix s.lineage := by
      intro es
      induction es with
      | nil => intro i _ s hs; rw [sitesOfList] at hs; cases hs
      | cons e es ihes =>
        intro i hes s hs
        rw [sitesOfList, List.mem_append] at hs
        rcases hs with hs | hs
        · exact (List.suffix_cons _ _).trans (ih e (hes e (by simp)) i _ s hs)
        · exact ihes (i + 1) (fun e he => hes e (by simp [he])) s hs
    rw [sitesAt, List.forall_mem_cons]
    exact ⟨List.suffix_refl _, hlist children 0 fun _ h => h⟩

theorem filter_sitesAt_of_foreign {e : Element} (h : e.isCore = false) (position : Nat)
    (ancestors : List Element) : (e.sitesAt position ancestors).filter (·.isReached) = [] := by
  refine List.filter_eq_nil_iff.mpr fun s hs hreached => ?_
  have hmem := (e.suffix_lineage_of_mem_sitesAt position ancestors s hs).mem List.mem_cons_self
  rw [List.all_eq_true.mp hreached e hmem] at h
  cases h

end Element

namespace Site

variable {s : Site} {content : Content} {child : Element} {position : Nat}

theorem isReached_child (hs : s.isReached) (hcore : child.isCore) :
    (s.child position child).isReached := by
  simp only [isReached, lineage_child, List.all_cons, hcore, Bool.true_and]
  exact hs

/-- The elements that are reached below a site, from the given list of children. -/
def reachedBelow (s : Site) (position : Nat) (children : List Element) : List Site :=
  (Element.sitesOfList position s.lineage children).filter (·.isReached)

@[simp] theorem reachedBelow_nil (s : Site) (position : Nat) : s.reachedBelow position [] = [] := by
  simp [reachedBelow, Element.sitesOfList]

theorem reachedBelow_of_foreign (h : child.isCore = false) (rest : List Element) :
    s.reachedBelow position (child :: rest) = s.reachedBelow (position + 1) rest := by
  rw [reachedBelow, Element.sitesOfList, List.filter_append,
    Element.filter_sitesAt_of_foreign h, List.nil_append]
  rfl

theorem reachedBelow_of_core (hs : s.isReached) (h : child.isCore) (rest : List Element) :
    s.reachedBelow position (child :: rest) = s.child position child ::
      (s.child position child).reachedBelow 0 child.children ++
        s.reachedBelow (position + 1) rest := by
  obtain ⟨tag, children⟩ := child
  have hreached : (s.child position (.node tag children)).isReached := isReached_child hs h
  have hsite : (⟨.node tag children, position, s.lineage⟩ : Site) =
    s.child position (.node tag children) := rfl
  rw [reachedBelow, Element.sitesOfList, Element.sitesAt, hsite, List.cons_append,
    List.filter_cons_of_pos hreached, List.filter_append]
  rfl

/-- Nothing is reached below foreign children. -/
theorem reachedBelow_eq_nil (s : Site) {children : List Element}
    (h : ∀ c ∈ children, c.isCore = false) (position : Nat) :
    s.reachedBelow position children = [] := by
  induction children generalizing position with
  | nil => exact s.reachedBelow_nil position
  | cons c children ih =>
    obtain ⟨hc, hchildren⟩ := List.forall_mem_cons.mp h
    rw [reachedBelow_of_foreign hc, ih hchildren]

theorem foreignChildren_of_foreign (h : child.isCore = false) (rest : List Element) :
    s.foreignChildren position (child :: rest) =
      .ofElement s (s.child position child) :: s.foreignChildren (position + 1) rest := by
  simp [foreignChildren, List.zipIdx_cons, h]

theorem foreignChildren_of_core (h : child.isCore) (rest : List Element) :
    s.foreignChildren position (child :: rest) = s.foreignChildren (position + 1) rest := by
  simp [foreignChildren, List.zipIdx_cons, h]

/-- The child that is read together with an element of the given content, unless its name was seen
before. -/
def absorbed? (s : Site) (content : Content) (position : Nat) (seen : List String)
    (children : List Element) : Option Site :=
  (content.absorbed?.bind fun name =>
    if name ∈ seen then none
    else (children.zipIdx position).find? fun c => c.1.isCore && c.1.name == name).map
    fun c => s.child c.2 c.1

/-- A child of another name is not the one. -/
theorem absorbed?_cons_of_ne (h : child.isCore → content.absorbed? ≠ some child.name)
    (seen : List String) (rest : List Element) :
    s.absorbed? content position seen (child :: rest) =
      s.absorbed? content (position + 1) (if child.isCore then child.name :: seen else seen) rest := by
  unfold absorbed?
  cases hname : content.absorbed? with
  | none => rfl
  | some name =>
    have hne : child.isCore → name ≠ child.name := by
      intro hcore heq
      exact h hcore (by rw [hname, heq])
    rw [Option.bind_some, Option.bind_some, List.zipIdx_cons, List.find?_cons_of_neg]
    · by_cases hcore : child.isCore <;> simp [hcore, hne]
    · by_cases hcore : child.isCore
      · simp [hcore, (hne hcore).symm]
      · simp [hcore]

theorem absorbed?_cons_self (s : Site) (position : Nat) (hcore : child.isCore)
    (hname : content.absorbed? = some child.name) {seen : List String} (hseen : child.name ∉ seen)
    (rest : List Element) :
    s.absorbed? content position seen (child :: rest) = some (s.child position child) ∧
      s.absorbed? content (position + 1) (child.name :: seen) rest = none := by
  simp [absorbed?, hname, hseen, hcore, List.zipIdx_cons]

end Site

theorem Site.isReached_root {root : Element} (h : root.isCore) : (Site.root root).isReached := by
  simpa [isReached, lineage, Site.root] using h

/-- The document element is reached first. -/
theorem Element.reached_eq {root : Element} (h : root.isCore) :
    root.reached = Site.root root :: (Site.root root).reachedBelow 0 root.children := by
  obtain ⟨tag, children⟩ := root
  have hsite : (⟨.node tag children, 0, []⟩ : Site) = Site.root (.node tag children) := rfl
  rw [reached, sites, sitesAt, hsite, List.filter_cons_of_pos (Site.isReached_root h)]
  rfl

namespace Compile

/-- The child that a rule reads together with its element is the one that the content of the element
absorbs. -/
theorem absorbed?_eq_payload? {rule : Rule} {env : Env} {scope : Scope} {site : Site} {body : Body}
    (hb : (rule.open env scope site).value.body = some body) :
    site.absorbed? body.content 0 [] site.element.children = rule.payload? site := by
  rw [Site.absorbed?, absorbed?_open hb]
  cases rule with
  | chainPackage kind => rfl
  | _ => rfl

/-- An element offers the foreign nodes of its payload first, and then its own attributes, before what is
offered between its children. -/
theorem interleaves_of_entered {rule : Rule} {env : Env} {scope : Scope} {site : Site} {body : Body}
    (hb : (rule.open env scope site).value.body = some body) (inner : Scope) {l : List Step}
    {ls : List (List Offer)}
    (h : Interleaves (site.foreignChildren 0 site.element.children :: ls)
      (l.filterMap Step.offer?)) :
    Interleaves ((rule.payload? site).toList.map Site.foreignNodes ++ site.foreignNodes :: ls)
      (((rule.open env scope site).log ++ (l ++ body.close inner)).filterMap Step.offer?) := by
  have hoffers := offers_open rule env scope site
  have hopened := hoffers.entered body hb
  have hclosed := List.filterMap_eq_nil_iff.mpr (hoffers.close body hb inner)
  rw [Logged.collect, List.flatMap_def] at hopened
  rw [List.filterMap_append, List.filterMap_append, hopened, hclosed, List.append_nil,
    List.append_assoc]
  exact (Interleaves.flatten _).append (h.push site.foreignAttributes)

/-- **A walk offers the foreign nodes of all elements on its way**, but for those of the child that is
read together with the element. -/
theorem Walk.interleaves {config : Config} {unit : Option SectionKind} {content : Content}
    {site : Site} {scope after : Scope} {position : Nat} {seen : List String}
    {children : List Element} {l : List Step}
    (h : Walk config unit content site scope position seen children l after)
    (hs : site.isReached) : ∃ ls,
      Interleaves (site.foreignChildren position children :: ls) (l.filterMap Step.offer?) ∧
        ((site.absorbed? content position seen children).toList.map Site.foreignNodes ++ ls).Perm
          ((site.reachedBelow position children).map Site.foreignNodes) := by
  induction h with
  | @nil unit content site scope position seen =>
    refine ⟨[], .nil (by simp [Site.foreignChildren]), ?_⟩
    have hnone : site.absorbed? content position seen [] = none := by
      cases hname : content.absorbed? <;> simp [Site.absorbed?, hname]
    simp [hnone]
  | @foreign unit content site scope after position seen child rest l hcore hrest ih =>
    obtain ⟨ls, hl, hperm⟩ := ih hs
    refine ⟨ls, ?_, ?_⟩
    · rw [Site.foreignChildren_of_foreign hcore]
      exact hl.push [_]
    · rw [Site.absorbed?_cons_of_ne (by simp [hcore]), Site.reachedBelow_of_foreign hcore]
      simpa [hcore] using hperm
  | @absorbed unit content site scope after position seen child rest l hcore hname hseen hleaf
      hrest ih =>
    obtain ⟨ls, hl, hperm⟩ := ih hs
    obtain ⟨hfirst, hlater⟩ := site.absorbed?_cons_self position hcore hname hseen rest
    refine ⟨ls, ?_, ?_⟩
    · rw [Site.foreignChildren_of_core hcore]
      exact hl
    · rw [hlater] at hperm
      rw [hfirst, Site.reachedBelow_of_core hs hcore, Site.reachedBelow_eq_nil _ hleaf,
        List.map_append, List.map_cons, List.map_nil]
      exact hperm.cons _
  | @entered unit content site scope inner after position seen child rest rule o body l l' hcore
      hgives hneed hopen hsmooth hbody hchildren hclose hrest ihchildren ihrest =>
    subst hopen
    obtain ⟨ls, hl, hperm⟩ := ihchildren (Site.isReached_child hs hcore)
    obtain ⟨ls', hl', hperm'⟩ := ihrest hs
    have habsorbed : (site.child position child).absorbed? body.content 0 [] child.children =
      rule.payload? (site.child position child) := absorbed?_eq_payload? hbody
    rw [habsorbed] at hperm
    have hne := Content.absorbed?_ne_of_gives hgives
    have hchild := interleaves_of_entered hbody inner hl
    refine ⟨(rule.payload? (site.child position child)).toList.map Site.foreignNodes ++
      (site.child position child).foreignNodes :: ls ++ ls', ?_, ?_⟩
    · rw [Site.foreignChildren_of_core hcore, List.filterMap_append]
      exact (hchild.append hl').perm List.perm_middle
    · rw [Site.absorbed?_cons_of_ne fun _ => hne, if_pos hcore, Site.reachedBelow_of_core hs hcore,
        List.map_append, List.map_cons]
      refine (List.perm_append_comm_assoc _ _ _).trans ?_
      exact (List.perm_middle.trans (hperm.cons _)).append hperm'

/-- **A plan without errors offers the foreign nodes of all reached elements.** -/
theorem interleaves_offers {config : Config} {root : Element}
    (h : ∀ s ∈ plan config root, s.Smooth) :
    Interleaves (root.reached.map Site.foreignNodes)
      ((plan config root).filterMap Step.offer?) := by
  obtain ⟨hroot, l, after, hwalk, hplan⟩ := exists_walk h
  obtain ⟨hcore, -⟩ := Element.core_of_qname hroot
  obtain ⟨ls, hl, hperm⟩ := hwalk.interleaves (Site.isReached_root hcore)
  have hsites : root.reached.map Site.foreignNodes =
      (Site.root root).foreignNodes ::
        ((Site.root root).reachedBelow 0 root.children).map Site.foreignNodes := by
    rw [Element.reached_eq hcore, List.map_cons]
  have hreports : ((root.checkAttributes []).map Step.report).filterMap Step.offer? = [] := by
    rw [List.filterMap_map]
    exact List.filterMap_eq_nil_iff.mpr fun _ _ => rfl
  have hattributes : (offerAttributes (Site.root root) []).log.filterMap Step.offer? =
      (Site.root root).foreignAttributes := by
    have hcollect := collect_offerAttributes Step.offer? (Site.root root) []
    rw [Logged.collect] at hcollect
    simpa [Step.offer?] using hcollect
  rw [hsites, hplan, List.filterMap_append, List.filterMap_append, hreports, hattributes,
    List.nil_append]
  exact (hl.push (Site.root root).foreignAttributes).perm (hperm.cons _)

end Compile

end Installer
