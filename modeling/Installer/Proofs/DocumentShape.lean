import Installer.Proofs.AttributeOrder
import Installer.Proofs.DocumentTree

/-! # The shape of a document

The places of tags in their text have no part in what is read but for the ranges, and an empty tag is
read as a start tag with its end tag: an event can be replaced by the events that it stands for
(`Markup.Event.spelled`), and the tree is the same up to its ranges (`Element.unplaced_ofEvents`). This
goes through each step (`Assembly.unplaced_step`). **What reading makes of events** is put together in
`Element.ofEvents_groups`. -/

namespace Installer

open Markup

/-! ### Without ranges -/

/-- The tag without its ranges. -/
def Tag.unplaced (t : Tag) : Tag :=
  { t with range := TextRange.none, attributes := t.attributes.map Attribute.unplaced }

mutual

/-- The element without the ranges of its tags. -/
def Element.unplaced : Element → Element
  | node tag children => node tag.unplaced (unplacedList children)

/-- The elements without the ranges of their tags. -/
def Element.unplacedList : List Element → List Element
  | [] => []
  | e :: es => e.unplaced :: unplacedList es

end

theorem Element.unplacedList_append (es es' : List Element) :
    unplacedList (es ++ es') = unplacedList es ++ unplacedList es' := by
  induction es with
  | nil => rfl
  | cons e es ih => rw [List.cons_append, unplacedList, unplacedList, ih, List.cons_append]

def OpenElement.unplaced (o : OpenElement) : OpenElement :=
  ⟨o.tag.unplaced, Element.unplacedList o.children⟩

def Assembly.unplaced (a : Assembly) : Assembly :=
  ⟨a.stack.map OpenElement.unplaced, a.root.map Element.unplaced, a.count⟩

theorem Assembly.unplaced_attach (a : Assembly) (e : Element) :
    (a.attach e).unplaced = a.unplaced.attach e.unplaced := by
  obtain ⟨_ | ⟨top, stack⟩, root, n⟩ := a
  · rfl
  · simp [attach, unplaced, OpenElement.unplaced, Element.unplacedList_append, Element.unplacedList]

theorem Assembly.unplaced_addText (a : Assembly) (cs : List Char) :
    (a.addText cs).unplaced = a.unplaced.addText cs := by
  obtain ⟨_ | ⟨top, stack⟩, root, n⟩ := a <;> rfl

/-- The start tag at no place, and not told to be empty, since that is seen in its place only. -/
def Markup.StartTag.unplaced (t : StartTag) : StartTag := { t with isEmpty := false, stop := 0 }

@[simp] theorem Markup.StartTag.start_unplaced (t : StartTag) : t.unplaced.start = 0 :=
  Nat.zero_sub _

/-- The event at no place. -/
def Markup.Event.unplaced : Markup.Event → Markup.Event
  | .opened t => .opened t.unplaced
  | .empty t => .empty t.unplaced
  | .reference name _ => .reference name 0
  | e => e

/-- The events that an event stands for, at no place: an empty tag stands for a start tag and its end
tag. -/
def Markup.Event.spelled : Markup.Event → List Markup.Event
  | .empty t => [.opened t.unplaced, .closed]
  | e => [e.unplaced]

/-! ### Steps -/

/-- The place of a tag is seen in the ranges of its attributes only. -/
theorem map_unplaced_readAttributes (start start' : Nat) (bindings : Bindings) (position : Nat)
    (rest : List Char) (as : List RawAttribute) :
    (readAttributes start bindings position rest as).map (List.map Attribute.unplaced) =
      (readAttributes start' bindings position rest as).map (List.map Attribute.unplaced) := by
  induction as generalizing position rest with
  | nil => rfl
  | cons a as ih =>
    rw [readAttributes, readAttributes]
    split_ifs
    · exact ih position rest
    · split
      · rfl
      · dsimp only
        have := ih (((locateKey a.key position rest).getD (position, rest.drop a.key.length)).1 +
          Text.byteLength a.key)
          ((locateKey a.key position rest).getD (position, rest.drop a.key.length)).2
        split <;> split <;> simp_all [Except.map, Attribute.unplaced]

theorem Tag.map_unplaced_ofStart (number : Nat) (t : StartTag) :
    (Tag.ofStart number t).map Tag.unplaced = (Tag.ofStart number t.unplaced).map Tag.unplaced := by
  have hread := map_unplaced_readAttributes t.start 0 t.bindings (Text.byteLength (tagName t.content))
    (t.content.drop (tagName t.content).length) (rawAttributes t.content).1
  simp only [Tag.ofStart, StartTag.start_unplaced]
  simp only [StartTag.unplaced]
  revert hread
  cases readAttributes t.start t.bindings (Text.byteLength (tagName t.content))
    (t.content.drop (tagName t.content).length) (rawAttributes t.content).1 <;>
  cases readAttributes 0 t.bindings (Text.byteLength (tagName t.content))
    (t.content.drop (tagName t.content).length) (rawAttributes t.content).1 <;>
  cases (rawAttributes t.content).2 <;> simp [Except.map, Tag.unplaced]

/-- The place of a tag is seen in the ranges only. -/
theorem Assembly.unplaced_newTag {a b : Assembly} (h : a.unplaced = b.unplaced) (t : StartTag) :
    (a.newTag t).toOption.map Tag.unplaced = (b.newTag t.unplaced).toOption.map Tag.unplaced := by
  have hcount : a.count = b.count := congrArg (·.count) h
  have hstack : a.stack.isEmpty = b.stack.isEmpty := by
    simpa [Assembly.unplaced] using congrArg (·.stack.isEmpty) h
  have htag := Tag.map_unplaced_ofStart b.count t
  rw [Assembly.newTag, Assembly.newTag, hcount, hstack]
  split_ifs
  · rfl
  · revert htag
    cases Tag.ofStart b.count t <;> cases Tag.ofStart b.count t.unplaced <;>
      simp [Except.map, Except.toOption]

/-- **A step at another place** gives the same up to ranges. -/
theorem Assembly.unplaced_step {a b : Assembly} (h : a.unplaced = b.unplaced) (e : Markup.Event) :
    (a.step e).toOption.map unplaced = (b.step e.unplaced).toOption.map unplaced := by
  cases e with
  | opened t =>
    have hopened : ∀ (c : Assembly) (t : StartTag), (c.step (.opened t)).toOption.map unplaced =
        ((c.newTag t).toOption.map Tag.unplaced).map fun tag =>
          ⟨⟨tag, []⟩ :: c.unplaced.stack, c.unplaced.root, c.unplaced.count + 1⟩ := by
      intro c t
      rw [Assembly.step]
      cases c.newTag t <;> rfl
    rw [Markup.Event.unplaced, hopened, hopened, unplaced_newTag h, h]
  | empty t =>
    have hempty : ∀ (c : Assembly) (t : StartTag), (c.step (.empty t)).toOption.map unplaced =
        ((c.newTag t).toOption.map Tag.unplaced).map fun tag =>
          Assembly.attach ⟨c.unplaced.stack, c.unplaced.root, c.unplaced.count + 1⟩ (.node tag []) := by
      intro c t
      rw [Assembly.step]
      cases c.newTag t with
      | error e => rfl
      | ok tag => exact congrArg some (unplaced_attach _ _)
    rw [Markup.Event.unplaced, hempty, hempty, unplaced_newTag h, h]
  | closed =>
    have hclosed : ∀ c : Assembly, (c.step .closed).toOption.map unplaced =
        (c.unplaced.step .closed).toOption := by
      rintro ⟨_ | ⟨top, stack⟩, root, n⟩
      · rfl
      · exact congrArg some (unplaced_attach _ _)
    change _ = (b.step .closed).toOption.map unplaced
    rw [hclosed, hclosed, h]
  | text cs =>
    have : (a.addText cs).unplaced = (b.addText cs).unplaced := by
      rw [unplaced_addText, unplaced_addText, h]
    exact congrArg some this
  | reference name stop =>
    rw [Markup.Event.unplaced, Assembly.step, Assembly.step]
    cases Entity.inContent name with
    | error fault => rfl
    | ok c =>
      have : (a.addText [c]).unplaced = (b.addText [c]).unplaced := by
        rw [unplaced_addText, unplaced_addText, h]
      exact congrArg some this
  | aside => exact congrArg some h

/-- An empty tag is a start tag with its end tag. -/
theorem Assembly.foldlM_spelled (a : Assembly) (e : Markup.Event) :
    e.spelled.foldlM Assembly.step a = a.step e.unplaced := by
  cases e with
  | empty t =>
    simp only [Markup.Event.spelled, Markup.Event.unplaced, List.foldlM_cons, Assembly.step]
    cases a.newTag t.unplaced <;> rfl
  | _ => simp [Markup.Event.spelled]

/-- **A run** of what the events stand for gives the same up to ranges. -/
theorem Assembly.unplaced_foldlM {a b : Assembly} (h : a.unplaced = b.unplaced)
    (es : List Markup.Event) :
    (es.foldlM Assembly.step a).toOption.map unplaced =
      ((es.flatMap Markup.Event.spelled).foldlM Assembly.step b).toOption.map unplaced := by
  induction es generalizing a b with
  | nil => exact congrArg some h
  | cons e es ih =>
    have hstep := unplaced_step h e
    rw [List.foldlM_cons, List.flatMap_cons, List.foldlM_append, foldlM_spelled]
    cases ha : a.step e <;> cases hb : b.step e.unplaced <;> rw [ha, hb] at hstep
    · rfl
    · cases hstep
    · cases hstep
    · exact ih (Option.some.inj hstep)

/-- **The tree of a document up to ranges** is that of the events for which its events stand. -/
theorem Element.unplaced_ofEvents (size size' : Nat) (r : Reading Markup.Event) :
    (ofEvents size r).toOption.map unplaced =
      (ofEvents size' ⟨r.items.flatMap Markup.Event.spelled, r.error⟩).toOption.map unplaced := by
  have hdone : ∀ (size : Nat) (r : Reading Markup.Event), (ofEvents size r).toOption.map unplaced =
      if r.error.isSome then none
      else ((r.items.foldlM Assembly.step {}).toOption.map Assembly.unplaced).bind fun a =>
        if a.stack.isEmpty then a.root else none := by
    intro size r
    obtain ⟨items, error⟩ := r
    rw [ofEvents]
    cases items.foldlM Assembly.step {} with
    | error e => cases error <;> rfl
    | ok a =>
      cases error with
      | some e => rfl
      | none => obtain ⟨_ | ⟨top, stack⟩, _ | root, n⟩ := a <;> rfl
  rw [hdone, hdone, Assembly.unplaced_foldlM rfl]

/-! ### Reading events -/

/-- **Reading groups events.** The events of every text are nested. Nested events can be read just if
no error ends them, all elements are closed, one start tag is outside of all elements, and all events
are sound. The tree is the one that the events build: the elements are numbered in the order of their
start tags, each comes from its start tag, and an empty tag gives the same as a start tag with its end
tag, up to ranges. The text of an element is what stands directly inside of it, without blanks at the
ends. -/
theorem Element.ofEvents_groups :
    (∀ source : String, parse source = ofEvents source.utf8ByteSize (events source.toList) ∧
      (depthAfter? 0 (events source.toList).items).isSome) ∧
    (∀ (tag : Tag) (inner : List Char) (children : List Element),
      (node { tag with text := String.ofList inner } children).text =
        String.ofList (Text.trim inner)) ∧
    ∀ (size : Nat) (r : Reading Markup.Event), (depthAfter? 0 r.items).isSome →
      ((∃ root, ofEvents size r = .ok root) ↔
        r.error = none ∧ depthAfter? 0 r.items = some 0 ∧ topTags 0 r.items = 1 ∧
          ∀ e ∈ r.items, e.Sound) ∧
      (∀ root, ofEvents size r = .ok root ↔
        r.error = none ∧ ∃ text n, Builds 0 r.items [root] text n) ∧
      (∀ root, ofEvents size r = .ok root →
        root.sites.map (·.element.tag.number) = List.range root.sites.length ∧
        List.Forall₂ (fun t s => t.Gives s.element.tag) (startTags r.items) root.sites) ∧
      (ofEvents size r).toOption.map unplaced =
        (ofEvents size ⟨r.items.flatMap Markup.Event.spelled, r.error⟩).toOption.map unplaced := by
  refine ⟨fun source => ⟨rfl, isSome_depthAfter?_events _⟩, fun tag inner children => ?_,
    fun size r hnested => ⟨exists_ofEvents_iff hnested, fun _ => ofEvents_eq_ok_iff_builds hnested,
      fun _ => sites_of_ofEvents hnested, unplaced_ofEvents size size r⟩⟩
  simp [Element.text, Element.tag, Text.trimmed]

/-- A root with text in four pieces, a comment and three elements inside. -/
theorem Element.ofEvents_groups_mixed :
    let source := "<r xmlns='u' a='1'> x<e/>y<!--c-->&amp;<![CDATA[z ]]><f><g>in</g></f> </r>"
    let r := events source.toList
    (depthAfter? 0 r.items).isSome ∧
      ∃ root, ofEvents source.utf8ByteSize r = .ok root ∧ root.text = "xy&z" ∧
        root.attributes.map (·.name) = ["a"] ∧ (∃ text n, Builds 0 r.items [root] text n) ∧
        topTags 0 r.items = 1 ∧ root.sites.map (·.element.tag.number) = [0, 1, 2, 3] := by
  intro source r
  obtain ⟨htext, hnested⟩ := ofEvents_groups.1 source
  obtain ⟨hcan, hbuilds, htree, -⟩ := ofEvents_groups.2.2 source.utf8ByteSize r hnested
  have hread : (parse source).toOption.map
      (fun e => (e.text, e.attributes.map (·.name), e.sites.length)) = some ("xy&z", ["a"], 4) := by
    decide +kernel
  obtain ⟨root, hroot, heval⟩ := Option.map_eq_some_iff.mp hread
  rw [toOption_eq_some_iff, htext] at hroot
  simp only [Prod.mk.injEq] at heval
  obtain ⟨-, -, htop, -⟩ := hcan.mp ⟨root, hroot⟩
  obtain ⟨hnumbers, -⟩ := htree root hroot
  rw [heval.2.2] at hnumbers
  exact ⟨hnested, root, hroot, heval.1, heval.2.1, ((hbuilds root).mp hroot).2, htop, hnumbers⟩

end Installer
