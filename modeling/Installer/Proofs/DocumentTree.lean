import Installer.Proofs.AttributeKeys

/-! # The tree of a document

The events of a document are grouped by their tags: `Builds n es elements text m` says which elements
the events `es` build side by side, which text they leave between them, and that the elements are
numbered from `n` up to `m`. Each part of what an assembly holds is built by the events of that part
(`Assembly.Holds`); a step keeps this (`Assembly.Holds.step`), hence so does a run. In the other
direction what is built is what a run gives (`Builds.foldlM`). -/

namespace Installer

open Markup Text

/-! ### Grouping -/

/-- The events build the given elements, numbered from the first number up to the last, with the given
text directly between them. An element that is opened and closed has as its children and its text
what is built between its tags. -/
inductive Builds : Nat → List Markup.Event → List Element → List Char → Nat → Prop
  | nil {n : Nat} : Builds n [] [] [] n
  | text {n m : Nat} {cs text : List Char} {es : List Markup.Event} {elements : List Element}
      (others : Builds n es elements text m) : Builds n (.text cs :: es) elements (cs ++ text) m
  | reference {n m stop : Nat} {c : Char} {name text : List Char} {es : List Markup.Event}
      {elements : List Element} (resolved : Entity.inContent name = .ok c)
      (others : Builds n es elements text m) :
      Builds n (.reference name stop :: es) elements (c :: text) m
  | aside {n m : Nat} {text : List Char} {es : List Markup.Event} {elements : List Element}
      (others : Builds n es elements text m) : Builds n (.aside :: es) elements text m
  | empty {n m : Nat} {t : StartTag} {tag : Tag} {text : List Char} {es : List Markup.Event}
      {elements : List Element} (read : Tag.ofStart n t = .ok tag)
      (others : Builds (n + 1) es elements text m) :
      Builds n (.empty t :: es) (.node tag [] :: elements) text m
  | element {n k m : Nat} {t : StartTag} {tag : Tag} {inner text : List Char}
      {es es' : List Markup.Event} {children elements : List Element}
      (read : Tag.ofStart n t = .ok tag)
      (content : Builds (n + 1) es children inner k) (others : Builds k es' elements text m) :
      Builds n (.opened t :: (es ++ .closed :: es'))
        (.node { tag with text := String.ofList inner } children :: elements) text m

namespace Builds

variable {n k m : Nat} {es es' : List Markup.Event} {elements elements' : List Element}
  {text text' : List Char}

/-- What two parts build, one after the other. -/
theorem append (h : Builds n es elements text k) (h' : Builds k es' elements' text' m) :
    Builds n (es ++ es') (elements ++ elements') (text ++ text') m := by
  induction h with
  | nil => exact h'
  | text _ ih =>
    rw [List.append_assoc]
    exact (ih h').text
  | reference resolved _ ih => exact (ih h').reference resolved
  | aside _ ih => exact (ih h').aside
  | empty read _ ih => exact .empty read (ih h')
  | element read content _ _ ih =>
    simp only [List.cons_append, List.append_assoc]
    exact .element read content (ih h')

/-- The elements have the numbers between the two, in the order of their start tags. -/
theorem numbers (h : Builds n es elements text m) : ∀ (position : Nat) (ancestors : List Element),
    m = n + (Element.sitesOfList position ancestors elements).length ∧
    (Element.sitesOfList position ancestors elements).map (·.element.tag.number) =
      List.range' n (Element.sitesOfList position ancestors elements).length := by
  induction h with
  | nil => simp [Element.sitesOfList]
  | text _ ih | reference _ _ ih | aside _ ih => exact ih
  | @empty n m t tag text es elements read _ ih =>
    intro position ancestors
    obtain ⟨hm, hnumbers⟩ := ih (position + 1) ancestors
    have htag : tag.number = n := (Tag.gives_of_ofStart read).2.1
    simp only [Element.sitesOfList, Element.sitesAt, List.cons_append, List.nil_append,
      List.length_cons, List.map_cons, List.range'_succ, hnumbers]
    exact ⟨by omega, by rw [Element.tag, htag]⟩
  | @element n k m t tag inner text es es' children elements read _ _ ihc ih =>
    intro position ancestors
    obtain ⟨hk, hchildren⟩ :=
      ihc 0 (.node { tag with text := String.ofList inner } children :: ancestors)
    obtain ⟨hm, hnumbers⟩ := ih (position + 1) ancestors
    have htag : tag.number = n := (Tag.gives_of_ofStart read).2.1
    simp only [Element.sitesOfList, Element.sitesAt, List.cons_append, List.length_cons,
      List.length_append, List.map_cons, List.map_append, List.range'_succ, hchildren, hnumbers]
    refine ⟨by omega, List.cons_eq_cons.mpr ⟨htag, ?_⟩⟩
    rw [← List.range'_append_1, ← hk]

/-- Nothing is built just if no number is used. -/
theorem eq_nil_iff (h : Builds n es elements text m) : elements = [] ↔ n = m := by
  have hm := (h.numbers 0 []).1
  constructor
  · rintro rfl
    simpa [Element.sitesOfList] using hm.symm
  · rintro rfl
    cases elements with
    | nil => rfl
    | cons e es =>
      cases e
      simp [Element.sitesOfList, Element.sitesAt] at hm

end Builds

/-- The start tag of an event. -/
def Markup.Event.startTag? : Markup.Event → Option StartTag
  | .opened t | .empty t => some t
  | _ => none

/-- The start tags of events. -/
def startTags (es : List Markup.Event) : List StartTag := es.filterMap Markup.Event.startTag?

/-- Each element comes from its start tag. -/
theorem Builds.gives {n m : Nat} {es : List Markup.Event} {elements : List Element} {text : List Char}
    (h : Builds n es elements text m) : ∀ (position : Nat) (ancestors : List Element),
    List.Forall₂ (fun t s => t.Gives s.element.tag) (startTags es)
      (Element.sitesOfList position ancestors elements) := by
  induction h with
  | nil => exact fun _ _ => .nil
  | text _ ih | reference _ _ ih | aside _ ih => exact ih
  | empty read _ ih =>
    intro position ancestors
    exact .cons (Tag.gives_of_ofStart read).1 (ih (position + 1) ancestors)
  | @element n k m t tag inner text es es' children elements read _ _ ihc ih =>
    intro position ancestors
    have htag : t.Gives { tag with text := String.ofList inner } :=
      have := (Tag.gives_of_ofStart read).1
      ⟨this.qname, this.range, this.attributes⟩
    have hes : startTags (.opened t :: (es ++ .closed :: es')) =
        t :: (startTags es ++ startTags es') := by
      simp [startTags, Markup.Event.startTag?, List.filterMap_cons]
    rw [hes]
    exact .cons htag (List.rel_append (ihc _ _) (ih _ _))

/-! ### What an assembly holds -/

theorem map_eq_ok_iff {ε α β : Type} {f : α → β} {x : Except ε α} {b : β} :
    x.map f = .ok b ↔ ∃ a, x = .ok a ∧ f a = b := by
  cases x <;> simp [Except.map]

theorem toOption_eq_some_iff {ε α : Type} {x : Except ε α} {a : α} :
    x.toOption = some a ↔ x = .ok a := by
  cases x <;> simp [Except.toOption]

theorem Tag.with_text_of_ofStart {number : Nat} {t : StartTag} {tag : Tag}
    (h : Tag.ofStart number t = .ok tag) : { tag with text := String.ofList [] } = tag := by
  have htext : tag.text = "" := (Tag.gives_of_ofStart h).2.2
  cases tag
  simpa using htext.symm

theorem Assembly.addText_nil (a : Assembly) : a.addText [] = a := by
  obtain ⟨_ | ⟨top, stack⟩, root, n⟩ := a
  · rfl
  · simp [Assembly.addText]

theorem Assembly.newTag_eq_ok_iff {a : Assembly} {t : StartTag} {tag : Tag} :
    a.newTag t = .ok tag ↔ (a.stack = [] → a.count = 0) ∧ Tag.ofStart a.count t = .ok tag := by
  rw [Assembly.newTag]
  split_ifs with hplace
  · simp only [Bool.and_eq_true, List.isEmpty_iff, decide_eq_true_eq] at hplace
    simp [hplace.1, hplace.2.ne']
  · have : a.stack = [] → a.count = 0 := by simpa using hplace
    split <;> simp_all

section Step

variable {a : Assembly} {t : StartTag} {tag : Tag}

theorem Assembly.step_opened (hplace : a.stack = [] → a.count = 0)
    (hread : Tag.ofStart a.count t = .ok tag) :
    a.step (.opened t) = .ok ⟨⟨tag, []⟩ :: a.stack, a.root, a.count + 1⟩ :=
  map_eq_ok_iff.mpr ⟨tag, newTag_eq_ok_iff.mpr ⟨hplace, hread⟩, rfl⟩

theorem Assembly.step_empty (hplace : a.stack = [] → a.count = 0)
    (hread : Tag.ofStart a.count t = .ok tag) :
    a.step (.empty t) = .ok ({ a with count := a.count + 1 }.attach (.node tag [])) :=
  map_eq_ok_iff.mpr ⟨tag, newTag_eq_ok_iff.mpr ⟨hplace, hread⟩, rfl⟩

theorem Assembly.step_closed (top : OpenElement) (stack : List OpenElement) (root : Option Element)
    (n : Nat) : Assembly.step ⟨top :: stack, root, n⟩ .closed =
      .ok (Assembly.attach ⟨stack, root, n⟩ (.node top.tag top.children)) := rfl

theorem Assembly.step_reference {name : List Char} {c : Char} (h : Entity.inContent name = .ok c)
    (stop : Nat) : a.step (.reference name stop) = .ok (a.addText [c]) := by
  rw [Assembly.step, h]

end Step

/-- The assembly holds what the events have built: behind the elements outside of all tags come the
open elements, the innermost last, each with what has been built inside of it. -/
inductive Assembly.Holds : List Markup.Event → Assembly → Prop
  | top {n : Nat} {es : List Markup.Event} {root : Option Element} {text : List Char}
      (built : Builds 0 es root.toList text n) : Holds es ⟨[], root, n⟩
  | inside {n m : Nat} {es es' : List Markup.Event} {stack : List OpenElement} {root : Option Element}
      {t : StartTag} {tag : Tag} {children : List Element} {text : List Char}
      (outer : Holds es ⟨stack, root, n⟩) (place : stack = [] → n = 0)
      (read : Tag.ofStart n t = .ok tag) (built : Builds (n + 1) es' children text m) :
      Holds (es ++ .opened t :: es')
        ⟨⟨{ tag with text := String.ofList text }, children⟩ :: stack, root, m⟩

theorem Assembly.holds_nil : Holds [] {} :=
  .top (show Builds 0 [] (Option.toList none) [] 0 from .nil)

namespace Assembly.Holds

variable {a b : Assembly} {es es' : List Markup.Event} {e : Markup.Event}

theorem exists_builds {root : Option Element} {n : Nat} (h : Holds es ⟨[], root, n⟩) :
    ∃ text, Builds 0 es root.toList text n := by
  cases h with
  | top built => exact ⟨_, built⟩

theorem addText (h : Holds es a) {cs : List Char} (built : Builds a.count es' [] cs a.count) :
    Holds (es ++ es') (a.addText cs) := by
  cases h with
  | top outer =>
    have := outer.append built
    rw [List.append_nil] at this
    exact .top this
  | inside outer place read content =>
    have := content.append built
    rw [List.append_nil] at this
    simp only [Assembly.addText, ← String.ofList_append, List.append_assoc, List.cons_append]
    exact .inside outer place read this

theorem attach (h : Holds es a) {m : Nat} {element : Element}
    (place : a.stack = [] → a.count = 0) (built : Builds a.count es' [element] [] m) :
    Holds (es ++ es') ({ a with count := m }.attach element) := by
  cases h with
  | @top n es root text outer =>
    obtain rfl : n = 0 := place rfl
    have hroot : root.toList = [] := outer.eq_nil_iff.mpr rfl
    have := outer.append built
    rw [hroot, List.append_nil] at this
    exact .top this
  | inside outer place' read content =>
    have := content.append built
    rw [List.append_nil] at this
    simp only [Assembly.attach, List.append_assoc, List.cons_append]
    exact .inside outer place' read this

/-- **A step** adds what its event builds. -/
theorem step (h : Holds es a) (hstep : a.step e = .ok b) (hclosed : e = .closed → a.stack ≠ []) :
    Holds (es ++ [e]) b := by
  cases e with
  | opened t =>
    obtain ⟨tag, htag, rfl⟩ := map_eq_ok_iff.mp hstep
    obtain ⟨hplace, hread⟩ := newTag_eq_ok_iff.mp htag
    have := h.inside hplace hread .nil
    rwa [Tag.with_text_of_ofStart hread] at this
  | empty t =>
    obtain ⟨tag, htag, rfl⟩ := map_eq_ok_iff.mp hstep
    obtain ⟨hplace, hread⟩ := newTag_eq_ok_iff.mp htag
    exact h.attach hplace (.empty hread .nil)
  | closed =>
    cases h with
    | top => exact absurd rfl (hclosed rfl)
    | @inside n m es es' stack root t tag children text outer place read built =>
      simp only [Assembly.step, Except.ok.injEq] at hstep
      subst hstep
      rw [List.append_assoc, List.cons_append]
      exact outer.attach place (.element read built .nil)
  | text cs =>
    simp only [Assembly.step, Except.ok.injEq] at hstep
    subst hstep
    have : Builds a.count [.text cs] [] (cs ++ []) a.count := Builds.nil.text
    rw [List.append_nil] at this
    exact h.addText this
  | reference name stop =>
    simp only [Assembly.step] at hstep
    split at hstep
    · cases hstep
    · next c hc =>
      cases hstep
      exact h.addText (.reference hc .nil)
  | aside =>
    cases hstep
    have := h.addText (.aside .nil)
    rwa [addText_nil] at this

end Assembly.Holds

/-! ### Nesting -/

/-- The number of elements that are open after the events, if there are `d` before them; there is none
if an end tag has no start tag. -/
def depthAfter? : Nat → List Markup.Event → Option Nat
  | d, [] => some d
  | d, .opened _ :: es => depthAfter? (d + 1) es
  | 0, .closed :: _ => none
  | d + 1, .closed :: es => depthAfter? d es
  | d, .empty _ :: es | d, .text _ :: es | d, .reference _ _ :: es | d, .aside :: es =>
    depthAfter? d es

/-- The number of start tags outside of all elements, if `d` elements are open before the events. -/
def topTags : Nat → List Markup.Event → Nat
  | _, [] => 0
  | d, .opened _ :: es => (if d = 0 then 1 else 0) + topTags (d + 1) es
  | d, .closed :: es => topTags (d - 1) es
  | d, .empty _ :: es => (if d = 0 then 1 else 0) + topTags d es
  | d, .text _ :: es | d, .reference _ _ :: es | d, .aside :: es => topTags d es

/-- The attributes of a start tag can be read. -/
def Markup.StartTag.Sound (t : StartTag) : Prop :=
  (rawAttributes t.content).2 = none ∧
    ∀ a ∈ (rawAttributes t.content).1, bindsWord a.key = false → ∃ value, unescape a.value = .ok value

/-- The parts of an event can be read: the attributes of a start tag, the name of a reference. -/
def Markup.Event.Sound : Markup.Event → Prop
  | .opened t | .empty t => t.Sound
  | .reference name _ => ∃ c, Entity.inContent name = .ok c
  | _ => True

/-- Attributes are read just if their values can be. -/
theorem exists_readAttributes_iff (start : Nat) (bindings : Bindings) (position : Nat)
    (rest : List Char) (as : List RawAttribute) :
    (∃ xs, readAttributes start bindings position rest as = .ok xs) ↔
      ∀ a ∈ as, bindsWord a.key = false → ∃ value, unescape a.value = .ok value := by
  induction as generalizing position rest with
  | nil => simp [readAttributes]
  | cons a as ih =>
    rw [readAttributes, List.forall_mem_cons]
    split_ifs with hbinds
    · simp [ih, hbinds]
    · cases hvalue : unescape a.value with
      | error fault => simp [hbinds]
      | ok value =>
        dsimp only
        split
        · next hread =>
          refine ⟨by rintro ⟨_, ⟨⟩⟩, fun hall => ?_⟩
          cases hread.symm.trans ((ih _ _).mpr hall.2).choose_spec
        · next hread =>
          exact ⟨fun _ => ⟨fun _ => ⟨value, rfl⟩, (ih _ _).mp ⟨_, hread⟩⟩, fun _ => ⟨_, rfl⟩⟩

theorem Markup.StartTag.sound_iff (t : StartTag) (number : Nat) :
    t.Sound ↔ ∃ tag, Tag.ofStart number t = .ok tag := by
  simp only [Tag.ofStart_eq_ok_iff, StartTag.Sound,
    ← exists_readAttributes_iff t.start t.bindings (byteLength (tagName t.content))
      (t.content.drop (tagName t.content).length)]
  constructor
  · rintro ⟨hfault, xs, hxs⟩
    exact ⟨_, hfault, xs, hxs, rfl⟩
  · rintro ⟨_, hfault, xs, hxs, -⟩
    exact ⟨hfault, xs, hxs⟩

@[simp] theorem Assembly.length_stack_attach (a : Assembly) (e : Element) :
    (a.attach e).stack.length = a.stack.length := by
  obtain ⟨_ | ⟨top, stack⟩, root, n⟩ := a <;> rfl

@[simp] theorem Assembly.length_stack_addText (a : Assembly) (cs : List Char) :
    (a.addText cs).stack.length = a.stack.length := by
  obtain ⟨_ | ⟨top, stack⟩, root, n⟩ := a <;> rfl

@[simp] theorem Assembly.count_attach (a : Assembly) (e : Element) : (a.attach e).count = a.count := by
  obtain ⟨_ | ⟨top, stack⟩, root, n⟩ := a <;> rfl

@[simp] theorem Assembly.count_addText (a : Assembly) (cs : List Char) :
    (a.addText cs).count = a.count := by
  obtain ⟨_ | ⟨top, stack⟩, root, n⟩ := a <;> rfl

/-- A step follows the nesting of the events. -/
theorem Assembly.depthAfter?_step {a b : Assembly} {e : Markup.Event} (h : a.step e = .ok b)
    (hclosed : e = .closed → a.stack ≠ []) (es : List Markup.Event) :
    depthAfter? a.stack.length (e :: es) = depthAfter? b.stack.length es := by
  cases e with
  | opened t =>
    obtain ⟨tag, -, rfl⟩ := map_eq_ok_iff.mp h
    rfl
  | empty t =>
    obtain ⟨tag, -, rfl⟩ := map_eq_ok_iff.mp h
    simp [depthAfter?]
  | closed =>
    obtain ⟨_ | ⟨top, stack⟩, root, n⟩ := a
    · exact absurd rfl (hclosed rfl)
    · cases h
      simp [depthAfter?]
  | text cs =>
    cases h
    simp [depthAfter?]
  | reference name stop =>
    simp only [Assembly.step] at h
    split at h <;> cases h
    simp [depthAfter?]
  | aside =>
    cases h
    rfl

theorem Assembly.foldlM_cons {a b : Assembly} {e : Markup.Event} (h : a.step e = .ok b)
    (es : List Markup.Event) :
    (e :: es).foldlM Assembly.step a = es.foldlM Assembly.step b := by
  rw [List.foldlM_cons, h]
  rfl

/-- **A run** adds what its events build. -/
theorem Assembly.Holds.foldlM {a b : Assembly} {es es' : List Markup.Event} (h : Holds es a)
    (hnested : (depthAfter? a.stack.length es').isSome) (hrun : es'.foldlM Assembly.step a = .ok b) :
    Holds (es ++ es') b ∧ depthAfter? a.stack.length es' = some b.stack.length := by
  -- An end tag outside of all elements would be passed over by a step; nested events have none.
  induction es' generalizing a es with
  | nil =>
    cases hrun
    simpa [depthAfter?] using h
  | cons e es' ih =>
    have hclosed : e = .closed → a.stack ≠ [] := by
      rintro rfl hstack
      simp [hstack, depthAfter?] at hnested
    rw [List.foldlM_cons] at hrun
    cases hstep : a.step e with
    | error e => simp [hstep, bind, Except.bind] at hrun
    | ok c =>
      rw [hstep] at hrun
      have hdepth := depthAfter?_step hstep hclosed es'
      rw [hdepth] at hnested ⊢
      have := ih (h.step hstep hclosed) hnested hrun
      rwa [List.append_assoc] at this

namespace Builds

variable {n m : Nat} {es : List Markup.Event} {elements : List Element} {text : List Char}

/-- What builds elements opens and closes them all. -/
theorem depthAfter?_append (h : Builds n es elements text m) (d : Nat) (rest : List Markup.Event) :
    depthAfter? d (es ++ rest) = depthAfter? d rest := by
  induction h generalizing d rest with
  | nil => rfl
  | text _ ih | reference _ _ ih | aside _ ih | empty _ _ ih => exact ih d rest
  | element _ _ _ ihc ih =>
    rw [List.cons_append, List.append_assoc, depthAfter?, ihc]
    exact ih d rest

theorem topTags_append (h : Builds n es elements text m) (d : Nat) (rest : List Markup.Event) :
    topTags d (es ++ rest) = (if d = 0 then elements.length else 0) + topTags d rest := by
  induction h generalizing d rest with
  | nil => simp
  | text _ ih | reference _ _ ih | aside _ ih => exact ih d rest
  | empty _ _ ih =>
    rw [List.cons_append, topTags, ih, List.length_cons]
    split_ifs <;> omega
  | element _ _ _ ihc ih =>
    rw [List.cons_append, List.append_assoc, topTags, ihc, if_neg d.succ_ne_zero, List.cons_append,
      topTags, Nat.add_sub_cancel, ih, List.length_cons]
    split_ifs <;> omega

theorem sound (h : Builds n es elements text m) : ∀ e ∈ es, e.Sound := by
  induction h with
  | nil => simp
  | text _ ih | aside _ ih => exact List.forall_mem_cons.mpr ⟨trivial, ih⟩
  | reference resolved _ ih => exact List.forall_mem_cons.mpr ⟨⟨_, resolved⟩, ih⟩
  | empty read _ ih => exact List.forall_mem_cons.mpr ⟨(StartTag.sound_iff _ _).mpr ⟨_, read⟩, ih⟩
  | element read _ _ ihc ih =>
    refine List.forall_mem_cons.mpr ⟨(StartTag.sound_iff _ _).mpr ⟨_, read⟩, ?_⟩
    exact List.forall_mem_append.mpr ⟨ihc, List.forall_mem_cons.mpr ⟨trivial, ih⟩⟩

/-- **Inside of an element** a run adds what its events build to the element. -/
theorem foldlM (h : Builds n es elements text m) (top : OpenElement) (stack : List OpenElement)
    (root : Option Element) :
    es.foldlM Assembly.step ⟨top :: stack, root, n⟩ =
      .ok ⟨⟨{ top.tag with text := top.tag.text ++ String.ofList text }, top.children ++ elements⟩ ::
        stack, root, m⟩ := by
  induction h generalizing top stack with
  | nil => simp [pure, Except.pure]
  | text _ ih =>
    rw [Assembly.foldlM_cons rfl, Assembly.addText, ih]
    simp only [String.ofList_append, String.append_assoc]
  | reference resolved _ ih =>
    rw [Assembly.foldlM_cons (Assembly.step_reference resolved _), Assembly.addText, ih]
    simp only [String.append_assoc, ← String.ofList_append, List.singleton_append]
  | aside _ ih => rw [Assembly.foldlM_cons rfl, ih]
  | empty read _ ih =>
    have hstep := Assembly.step_empty (a := ⟨top :: stack, root, _⟩) nofun read
    rw [Assembly.foldlM_cons hstep, Assembly.attach, ih]
    simp only [List.append_assoc, List.singleton_append]
  | element read _ _ ihc ih =>
    have htext := (Tag.gives_of_ofStart read).2.2
    have hstep := Assembly.step_opened (a := ⟨top :: stack, root, _⟩) nofun read
    rw [Assembly.foldlM_cons hstep, List.foldlM_append, ihc]
    refine (Assembly.foldlM_cons (Assembly.step_closed ..) _).trans ?_
    rw [Assembly.attach, ih]
    simp [htext]

/-- **Outside of all elements** a run makes the element that its events build the root. -/
theorem foldlM_top (h : Builds n es elements text m) (hfirst : elements ≠ [] → n = 0)
    (hone : elements.length ≤ 1) (root : Option Element) :
    es.foldlM Assembly.step ⟨[], root, n⟩ = .ok ⟨[], elements.head?.or root, m⟩ := by
  induction h generalizing root with
  | nil => rfl
  | text _ ih => rw [Assembly.foldlM_cons rfl, Assembly.addText, ih hfirst hone]
  | reference resolved _ ih =>
    rw [Assembly.foldlM_cons (Assembly.step_reference resolved _), Assembly.addText, ih hfirst hone]
  | aside _ ih => rw [Assembly.foldlM_cons rfl, ih hfirst hone]
  | @empty n m t tag text es elements read _ ih =>
    obtain rfl : n = 0 := hfirst (by simp)
    obtain rfl : elements = [] := by simpa using hone
    have hstep := Assembly.step_empty (a := ⟨[], root, _⟩) (fun _ => rfl) read
    rw [Assembly.foldlM_cons hstep, Assembly.attach, ih (by simp) (by simp)]
    rfl
  | @element n k m t tag inner text es es' children elements read content _ _ ih =>
    obtain rfl : n = 0 := hfirst (by simp)
    obtain rfl : elements = [] := by simpa using hone
    have htext := (Tag.gives_of_ofStart read).2.2
    have hstep := Assembly.step_opened (a := ⟨[], root, _⟩) (fun _ => rfl) read
    rw [Assembly.foldlM_cons hstep, List.foldlM_append, content.foldlM]
    refine (Assembly.foldlM_cons (Assembly.step_closed ..) _).trans ?_
    rw [Assembly.attach, ih (by simp) (by simp)]
    simp [htext]

end Builds

/-- **Progress.** A step is possible if its event is sound and no second root is opened. -/
theorem Assembly.exists_step {a : Assembly} {e : Markup.Event} {es : List Markup.Event}
    (hsound : e.Sound) (hopen : a.stack ≠ [] → 0 < a.count)
    (hroom : (if a.count = 0 then 0 else 1) + topTags a.stack.length (e :: es) ≤ 1) :
    ∃ b, a.step e = .ok b ∧ (b.stack ≠ [] → 0 < b.count) ∧
      (if b.count = 0 then 0 else 1) + topTags b.stack.length es ≤ 1 := by
  have hlength : a.stack = [] ↔ a.stack.length = 0 := List.length_eq_zero_iff.symm
  cases e with
  | opened t =>
    obtain ⟨tag, htag⟩ := (t.sound_iff a.count).mp hsound
    simp only [topTags] at hroom
    have hplace : a.stack = [] → a.count = 0 := by
      intro hstack
      simp only [hstack, List.length_nil] at hroom
      by_contra hcount
      simp [hcount] at hroom
    refine ⟨_, step_opened hplace htag, by simp, ?_⟩
    simp only [List.length_cons]
    split_ifs at hroom ⊢ <;> grind
  | empty t =>
    obtain ⟨tag, htag⟩ := (t.sound_iff a.count).mp hsound
    simp only [topTags] at hroom
    have hplace : a.stack = [] → a.count = 0 := by
      intro hstack
      simp only [hstack, List.length_nil] at hroom
      by_contra hcount
      simp [hcount] at hroom
    refine ⟨_, step_empty hplace htag, by simp, ?_⟩
    simp only [length_stack_attach, count_attach]
    split_ifs at hroom ⊢ <;> grind
  | closed =>
    obtain ⟨_ | ⟨top, stack⟩, root, n⟩ := a
    · exact ⟨_, rfl, hopen, hroom⟩
    · refine ⟨_, rfl, fun _ => ?_, ?_⟩
      · simpa using hopen
      · simpa [topTags] using hroom
  | text cs =>
    refine ⟨_, rfl, ?_, ?_⟩
    · simpa [← List.length_pos_iff] using hopen
    · simpa [topTags] using hroom
  | reference name stop =>
    obtain ⟨c, hc⟩ := hsound
    refine ⟨_, step_reference hc stop, ?_, ?_⟩
    · simpa [← List.length_pos_iff] using hopen
    · simpa [topTags] using hroom
  | aside => exact ⟨_, rfl, hopen, hroom⟩

theorem Assembly.exists_foldlM {a : Assembly} {es : List Markup.Event} (hsound : ∀ e ∈ es, e.Sound)
    (hopen : a.stack ≠ [] → 0 < a.count)
    (hroom : (if a.count = 0 then 0 else 1) + topTags a.stack.length es ≤ 1) :
    ∃ b, es.foldlM Assembly.step a = .ok b := by
  induction es generalizing a with
  | nil => exact ⟨a, rfl⟩
  | cons e es ih =>
    obtain ⟨he, hes⟩ := List.forall_mem_cons.mp hsound
    obtain ⟨b, hstep, hopen', hroom'⟩ := exists_step he hopen hroom
    rw [foldlM_cons hstep]
    exact ih hes hopen' hroom'

/-! ### Documents -/

section Documents

variable {size : Nat} {r : Reading Markup.Event} {root : Element}

theorem Element.ofEvents_eq_ok_iff : ofEvents size r = .ok root ↔
    r.error = none ∧ ∃ n, r.items.foldlM Assembly.step {} = .ok ⟨[], some root, n⟩ := by
  rw [ofEvents]
  split
  · next h => simp [h]
  · next a h =>
    obtain ⟨stack, root', n⟩ := a
    cases r.error with
    | some e => simp
    | none =>
      cases stack with
      | cons top stack => simp [h]
      | nil => cases root' <;> simp [h]

variable (hnested : (depthAfter? 0 r.items).isSome)

include hnested

/-- **The tree of a document** is the one that its events build. -/
theorem Element.ofEvents_eq_ok_iff_builds : ofEvents size r = .ok root ↔
    r.error = none ∧ ∃ text n, Builds 0 r.items [root] text n := by
  rw [ofEvents_eq_ok_iff, and_congr_right_iff]
  intro _
  constructor
  · rintro ⟨n, hrun⟩
    obtain ⟨hholds, -⟩ := Assembly.holds_nil.foldlM hnested hrun
    obtain ⟨text, built⟩ := hholds.exists_builds
    exact ⟨text, n, built⟩
  · rintro ⟨text, n, built⟩
    exact ⟨n, built.foldlM_top (fun _ => rfl) le_rfl none⟩

/-- **A document can be read** just if all of its events are sound, all elements are closed and one of
them is outside of all others. -/
theorem Element.exists_ofEvents_iff : (∃ root, ofEvents size r = .ok root) ↔
    r.error = none ∧ depthAfter? 0 r.items = some 0 ∧ topTags 0 r.items = 1 ∧
      ∀ e ∈ r.items, e.Sound := by
  constructor
  · rintro ⟨root, hroot⟩
    obtain ⟨herror, text, n, built⟩ := (ofEvents_eq_ok_iff_builds hnested).mp hroot
    have hdepth := built.depthAfter?_append 0 []
    have htags := built.topTags_append 0 []
    rw [List.append_nil] at hdepth htags
    exact ⟨herror, hdepth, htags, built.sound⟩
  · rintro ⟨herror, hdepth, htags, hsound⟩
    obtain ⟨⟨stack, root, n⟩, hrun⟩ :=
      Assembly.exists_foldlM (a := {}) hsound (by simp) (by simp [htags])
    obtain ⟨hholds, hstack⟩ := Assembly.holds_nil.foldlM hnested hrun
    obtain rfl : stack = [] := by simpa [hdepth] using hstack.symm
    obtain ⟨text, built⟩ := hholds.exists_builds
    have hlength := built.topTags_append 0 []
    rw [List.nil_append, List.append_nil, htags] at hlength
    cases root with
    | none => simp [topTags] at hlength
    | some root => exact ⟨root, (ofEvents_eq_ok_iff_builds hnested).mpr ⟨herror, text, n, built⟩⟩

/-- The elements of a document are numbered in the order of their start tags, from which they come. -/
theorem Element.sites_of_ofEvents (h : ofEvents size r = .ok root) :
    root.sites.map (·.element.tag.number) = List.range root.sites.length ∧
      List.Forall₂ (fun t s => t.Gives s.element.tag) (startTags r.items) root.sites := by
  obtain ⟨-, text, n, built⟩ := (ofEvents_eq_ok_iff_builds hnested).mp h
  have hnumbers := (built.numbers 0 []).2
  have hgives := built.gives 0 []
  have hsites : sitesOfList 0 [] [root] = root.sites := by simp [sitesOfList, sites]
  rw [hsites] at hnumbers hgives
  exact ⟨by rw [hnumbers, List.range_eq_range'], hgives⟩

end Documents

/-- The event of a token follows the nesting of the tags. -/
theorem Markup.depthAfter?_eventOf {stack stack' : List OpenTag} {t : PlacedToken}
    {event : Markup.Event} (h : eventOf stack t = .ok (event, stack')) (es : List Markup.Event) :
    depthAfter? stack.length (event :: es) = depthAfter? stack'.length es := by
  rw [eventOf] at h
  split at h
  · cases h
    rfl
  · cases h
    rfl
  · cases h
    rfl
  · cases h
    rfl
  · split at h
    · cases h
    · dsimp only at h
      split_ifs at h <;> (cases h; rfl)
  · split at h
    · cases h
    · split_ifs at h
      cases h
      rfl

/-- **The events of a text are nested:** each end tag has its start tag. -/
theorem Markup.isSome_depthAfter?_events (cs : List Char) :
    (depthAfter? 0 (events cs).items).isSome := by
  have hfrom : ∀ (ts : List PlacedToken) (stack : List OpenTag) (error : Option ReadError),
      (depthAfter? stack.length (eventsFrom stack error ts).items).isSome := by
    intro ts
    induction ts with
    | nil => intros; rfl
    | cons t ts ih =>
      intro stack error
      rw [eventsFrom]
      split
      · rfl
      · next event stack' hevent =>
        rw [Reading.cons, depthAfter?_eventOf hevent]
        exact ih stack' error
  exact hfrom _ [] _

end Installer
