import Installer.Proofs.Packages

/-! # Documents without foreign markup

Pruning a document deletes the foreign attributes of core elements and all elements that are not core,
with everything below them, and leaves all else as it is (`Element.pruned`). What rules read of an
element is still there: a pruned element agrees with the element (`Element.agrees_pruned`), so that
findings and all values that are made from attributes are the same for it. -/

namespace Installer

open Compile

/-- A tag without foreign attributes, if it is that of a core element. -/
def Tag.pruned (tag : Tag) : Tag :=
  if tag.qname.space = some coreNamespace then
    { tag with attributes := tag.attributes.filter (·.isCore) }
  else tag

namespace Element

mutual

/-- The element without the foreign markup in it. -/
def pruned : Element → Element
  | node tag children => node tag.pruned (prunedOfList children)

/-- The core elements of a list of siblings, without the foreign markup in them. -/
def prunedOfList : List Element → List Element
  | [] => []
  | e :: es => if e.isCore then e.pruned :: prunedOfList es else prunedOfList es

end

theorem prunedOfList_eq (es : List Element) :
    prunedOfList es = (es.filter (·.isCore)).map pruned := by
  induction es with
  | nil => rw [prunedOfList]; rfl
  | cons e es ih =>
    rw [prunedOfList, ih]
    by_cases h : e.isCore <;> simp [h]

theorem tag_pruned (e : Element) : e.pruned.tag = e.tag.pruned := by
  obtain ⟨tag, children⟩ := e
  rw [pruned]
  rfl

theorem children_pruned (e : Element) : e.pruned.children = prunedOfList e.children := by
  obtain ⟨tag, children⟩ := e
  rw [pruned]
  rfl

variable (e : Element)

@[simp] theorem qname_pruned : e.pruned.qname = e.qname := by
  rw [qname, tag_pruned, Tag.pruned]
  split_ifs <;> rfl

@[simp] theorem name_pruned : e.pruned.name = e.name := congrArg QName.name e.qname_pruned

@[simp] theorem isCore_pruned : e.pruned.isCore = e.isCore :=
  congrArg (fun q : QName => q.space == some coreNamespace) e.qname_pruned

@[simp] theorem range_pruned : e.pruned.range = e.range := by
  rw [range, tag_pruned, Tag.pruned]
  split_ifs <;> rfl

@[simp] theorem text_pruned : e.pruned.text = e.text := by
  rw [text, tag_pruned, Tag.pruned]
  split_ifs <;> rfl

@[simp] theorem coreAttributes_pruned : e.pruned.coreAttributes = e.coreAttributes := by
  rw [coreAttributes, attributes, tag_pruned, Tag.pruned]
  split_ifs
  · simp [coreAttributes, attributes]
  · rfl

@[simp] theorem attribute?_pruned (name : String) : e.pruned.attribute? name = e.attribute? name := by
  simp [attribute?]

@[simp] theorem has_pruned (name : String) : e.pruned.has name = e.has name := by
  simp [has]

@[simp] theorem last?_pruned (names : List String) : e.pruned.last? names = e.last? names := by
  simp [last?]

theorem agrees_pruned : e.pruned.Agrees e := ⟨e.qname_pruned, e.range_pruned, e.text_pruned, by simp⟩

/-! ### Findings -/

@[simp] theorem qualify_pruned (name : String) : e.pruned.qualify name = e.qualify name := by
  simp [qualify]

@[simp] theorem qualifyChild_pruned (child : String) :
    e.pruned.qualifyChild child = e.qualifyChild child := by
  simp [qualifyChild]

@[simp] theorem missingAttribute_pruned : e.pruned.missingAttribute = e.missingAttribute :=
  e.agrees_pruned.missingAttribute_eq

@[simp] theorem missingAttributes_pruned : e.pruned.missingAttributes = e.missingAttributes := by
  funext names
  exact e.agrees_pruned.missingAttributes_eq fun _ _ => rfl

@[simp] theorem unexpectedAttribute_pruned :
    e.pruned.unexpectedAttribute = e.unexpectedAttribute := by
  funext a
  simp [unexpectedAttribute]

@[simp] theorem unexpectedElement_pruned (child : Element) :
    e.pruned.unexpectedElement child = e.unexpectedElement child := by
  rw [e.agrees_pruned.unexpectedElement_eq]

@[simp] theorem unexpectedElement_pruned_right (child : Element) :
    e.unexpectedElement child.pruned = e.unexpectedElement child := by
  simp [unexpectedElement]

@[simp] theorem mutuallyExclusive_pruned : e.pruned.mutuallyExclusive = e.mutuallyExclusive :=
  e.agrees_pruned.mutuallyExclusive

@[simp] theorem illegalValueBecause_pruned :
    e.pruned.illegalValueBecause = e.illegalValueBecause :=
  e.agrees_pruned.illegalValueBecause_eq

@[simp] theorem illegalEmpty_pruned : e.pruned.illegalEmpty = e.illegalEmpty :=
  e.agrees_pruned.illegalEmpty_eq

@[simp] theorem expectedAttributes_pruned : e.pruned.expectedAttributes = e.expectedAttributes :=
  e.agrees_pruned.expectedAttributes_eq

@[simp] theorem expectedAttributeOrElement_pruned :
    e.pruned.expectedAttributeOrElement = e.expectedAttributeOrElement :=
  e.agrees_pruned.expectedAttributeOrElement_eq

@[simp] theorem elementWithAttribute_pruned (child : Element) :
    e.pruned.elementWithAttribute child.pruned = e.elementWithAttribute child := by
  funext name
  simp [elementWithAttribute]

/-- What is found among core children is found among the pruned ones. -/
theorem find?_children_pruned {p : Element → Bool} (hpruned : ∀ c, p c.pruned = p c)
    (hcore : ∀ c, p c → c.isCore) :
    e.pruned.children.find? p = (e.children.find? p).map pruned := by
  have hp : ∀ c : Element, c.isCore = true ∧ p c.pruned = true ↔ p c = true := by
    intro c
    rw [hpruned, and_iff_right_iff_imp]
    exact hcore c
  rw [children_pruned, prunedOfList_eq, List.find?_map, List.find?_filter]
  simp only [Function.comp_apply, hp, Bool.decide_eq_true]

/-- A core child that is there twice is pointed out in the same way. -/
theorem tooManyChildren_pruned {child : Element} (h : child.isCore) :
    e.pruned.tooManyChildren child.pruned = e.tooManyChildren child := by
  have hcore : ∀ c : Element, c.qname == child.qname → c.isCore := by
    intro c hc
    rw [← h]
    exact congrArg (fun q : QName => q.space == some coreNamespace) (beq_iff_eq.mp hc)
  have hfind := e.find?_children_pruned (p := (·.qname == child.qname)) (by simp) hcore
  cases hc : e.children.find? (·.qname == child.qname) <;> simp [tooManyChildren, hfind, hc]

/-! ### Values -/

@[simp] theorem value?_pruned {α : Type} (f : Field α) [Reader.Local f.read] :
    e.pruned.value? f = e.value? f :=
  e.agrees_pruned.value?_eq f rfl

@[simp] theorem identifier?_pruned (f : Field Identifier) [Reader.Local f.read] :
    e.pruned.identifier? f = e.identifier? f :=
  e.agrees_pruned.identifier?_eq f rfl

@[simp] theorem checkAttribute_pruned (checks : List (String × Check)) [Check.AllLocal checks] :
    e.pruned.checkAttribute checks = e.checkAttribute checks :=
  e.agrees_pruned.checkAttribute_eq checks

@[simp] theorem checkAttributes_pruned (checks : List (String × Check)) [Check.AllLocal checks] :
    e.pruned.checkAttributes checks = e.checkAttributes checks :=
  e.agrees_pruned.checkAttributes_eq checks

end Element

/-! ### What rules make of attributes -/

namespace Compile

variable (e : Element)

@[simp] theorem payloadFields_pruned (form : PayloadForm) :
    e.pruned.payloadFields form = e.payloadFields form :=
  e.agrees_pruned.payloadFields_eq form fun _ _ => rfl

@[simp] theorem resolve_pruned (fields : PayloadFields) :
    fields.resolve e.pruned = fields.resolve e :=
  resolve_eq e.agrees_pruned fields

@[simp] theorem requiredId_pruned : requiredId e.pruned = requiredId e :=
  requiredId_eq e.agrees_pruned

@[simp] theorem containerId_pruned : containerId e.pruned = containerId e :=
  containerId_eq e.agrees_pruned

@[simp] theorem providerSteps_pruned : providerSteps e.pruned = providerSteps e :=
  providerSteps_eq e.agrees_pruned

@[simp] theorem patchId_pruned : patchId e.pruned = patchId e := by
  simp [patchId]

@[simp] theorem variableFindings_pruned : variableFindings e.pruned = variableFindings e :=
  variableFindings_eq e.agrees_pruned

@[simp] theorem argumentsOf_pruned : argumentsOf e.pruned = argumentsOf e := by
  simp [argumentsOf]

@[simp] theorem closePackage_pruned (kind : Symbol.PackageKind) :
    closePackage kind e.pruned = closePackage kind e :=
  closePackage_eq e.agrees_pruned (fun _ _ => rfl) (argumentsOf_pruned e) kind

@[simp] theorem componentDirectory_pruned (env : Env) :
    componentDirectory env e.pruned = componentDirectory env e := by
  simp [componentDirectory]

@[simp] theorem enter_pruned (place : RegistryPlace) : place.enter e.pruned = place.enter e := by
  simp [RegistryPlace.enter]

@[simp] theorem registryValueFindings_pruned :
    registryValueFindings e.pruned = registryValueFindings e :=
  registryValueFindings_eq e.agrees_pruned

@[simp] theorem customActionFindings_pruned (source target : Option String)
    (attributes : List Attribute) : customActionFindings e.pruned source target attributes =
      customActionFindings e source target attributes :=
  customActionFindings_eq e.agrees_pruned source target attributes

@[simp] theorem codeOf_pruned : codeOf e.pruned = codeOf e :=
  codeOf_eq_of_agrees e.agrees_pruned

@[simp] theorem actionName_pruned (kind : ActionKind) :
    actionName kind e.pruned = actionName kind e := by
  simp [actionName]

@[simp] theorem scheduleFindings_pruned (kind : ActionKind) :
    scheduleFindings kind e.pruned = scheduleFindings kind e :=
  scheduleFindings_eq e.agrees_pruned kind

@[simp] theorem actionSteps_pruned (kind : ActionKind) :
    actionSteps kind e.pruned = actionSteps kind e :=
  actionSteps_eq_of_agrees e.agrees_pruned kind

end Compile

end Installer
