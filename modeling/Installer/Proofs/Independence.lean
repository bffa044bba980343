import Installer.Proofs.Append
import Installer.Proofs.Surroundings

/-! # Children of the document element are independent

Without extensions, compiling a document does the same as compiling each child of its document element
in a document of its own and putting the outputs together. The steps for a child are run after those
before it as they are run from the start, up to the indices of sections (`Run.After`). -/

namespace Installer

open Compile

/-- A section whose index is moved up. -/
def ActiveUnit.moveUp (offset : Nat) (unit : ActiveUnit) : ActiveUnit :=
  { unit with index := unit.index + offset }

namespace Run

/-- A state that is reached from `base` as `fresh` is reached from the start. If there is an error
before, then only the sections are alike. -/
structure After (base fresh r : Run) : Prop where
  compilation : r.compilation = fresh.compilation
  diagnostics : r.diagnostics = base.diagnostics ++ fresh.diagnostics
  units : r.units = fresh.units.map (.moveUp base.intermediate.sections.length)
  halted : r.halted = fresh.halted
  sections : r.intermediate.sections = base.intermediate.sections ++ fresh.intermediate.sections
  intermediate : r.hasErrors = false → r.intermediate = base.intermediate.append fresh.intermediate

namespace After

variable {base fresh r : Run}

theorem start (hr : base.Ready false) : After base { compilation := base.compilation } base where
  compilation := rfl
  diagnostics := by simp
  units := by simpa using hr.units
  halted := hr.halted
  sections := by simp
  intermediate := by simp

theorem active (h : After base fresh r) :
    r.active = fresh.active.map (.moveUp base.intermediate.sections.length) := by
  rw [Run.active, Run.active, h.units, List.head?_map]

theorem fresh_not_hasErrors (h : After base fresh r) (he : r.hasErrors = false) :
    fresh.hasErrors = false := by
  simp only [hasErrors, Diagnostic.hasErrors, h.diagnostics, List.any_append,
    Bool.or_eq_false_iff] at he
  exact he.2

theorem grounded (h : After base fresh r) (hg : fresh.Grounded) : r.Grounded := by
  intro unit hu
  rw [h.active] at hu
  obtain ⟨unit', hu', rfl⟩ := Option.map_eq_some_iff.mp hu
  have := hg unit' hu'
  rw [h.sections, List.length_append]
  simp only [ActiveUnit.moveUp]
  omega

theorem report (h : After base fresh r) (d : Diagnostic) :
    After base (fresh.report d) (r.report d) where
  compilation := h.compilation
  diagnostics := by simp [Run.report, h.diagnostics]
  units := h.units
  halted := h.halted
  sections := h.sections
  intermediate he := h.intermediate (not_hasErrors_of_later (List.prefix_append _ _) he)

/-- Both states are added to, or only the one from the start. -/
theorem add (h : After base fresh r) {f g : Intermediate → Intermediate}
    (hf : ∀ x, (f x).sections = x.sections) (hg : ∀ x, (g x).sections = x.sections)
    (hfg : ∀ x, base.intermediate.append (f x) = g (base.intermediate.append x)) :
    After base (fresh.add f) (r.add g) := by
  refine ⟨by simp [h.compilation], by simp [h.diagnostics], by simp [h.units], by simp [h.halted],
    ?_, fun he => ?_⟩
  · rw [sections_add r hg, sections_add fresh hf, h.sections]
  · have he : r.hasErrors = false := by simpa [hasErrors] using he
    rw [add_of_not_hasErrors g he, add_of_not_hasErrors f (h.fresh_not_hasErrors he)]
    simp only [h.intermediate he, hfg]

theorem refer (h : After base fresh r) (s : SymbolReference) :
    After base (fresh.add (·.addReference s)) (r.add (·.addReference s)) :=
  h.add (fun _ => rfl) (fun _ => rfl) fun x => Intermediate.append_addReference _ x s

theorem group (h : After base fresh r) (g : GroupReference) :
    After base (fresh.add (·.addGroup g)) (r.add (·.addGroup g)) :=
  h.add (fun _ => rfl) (fun _ => rfl) fun x => Intermediate.append_addGroup _ x g

theorem emit (h : After base fresh r) (hg : fresh.Grounded) (hu : fresh.active.isSome)
    (id : Identifier) (data : Symbol.Data) : After base (fresh.emit id data) (r.emit id data) := by
  obtain ⟨unit, hu⟩ := Option.isSome_iff_exists.mp hu
  have hu' : r.active = some (unit.moveUp base.intermediate.sections.length) := by
    simp [h.active, hu]
  rw [emit_of_active hg hu, emit_of_active (h.grounded hg) hu']
  refine h.add (fun _ => rfl) (fun _ => rfl) fun x => ?_
  simp [Intermediate.append, Intermediate.moveUp, ActiveUnit.moveUp]

theorem openUnit (h : After base fresh r) (header : UnitHeader) :
    After base (fresh.openUnit header) (r.openUnit header) where
  compilation := h.compilation
  diagnostics := h.diagnostics
  units := by simp [Run.openUnit, h.units, h.sections, ActiveUnit.moveUp, Nat.add_comm]
  halted := h.halted
  sections := by simp [Run.openUnit, Intermediate.addSection, h.sections, h.compilation]
  intermediate he := by
    simp [Run.openUnit, h.intermediate he, h.compilation, Intermediate.append_addSection]

theorem step (h : After base fresh r) {a b : Bool} {s : Step} (hr : fresh.Ready a)
    (hs : InPlace a s b) : After base (fresh.step [] s) (r.step [] s) := by
  cases s with
  | report d => exact h.report d
  | openUnit header => exact h.openUnit header
  | closeUnit =>
    exact ⟨h.compilation, h.diagnostics, by simp [Run.step, Run.closeUnit, h.units], h.halted,
      h.sections, h.intermediate⟩
  | emit id data =>
    cases hs with
    | inner _ => exact h.emit hr.grounded hr.active id data
    | outer hs => cases hs
  | refer s => exact h.refer s
  | group g => exact h.group g
  | offer node context =>
    rw [← step_bare fresh, ← step_bare r]
    exact h.report _
  | halt reason => exact ⟨h.compilation, h.diagnostics, h.units, rfl, h.sections, h.intermediate⟩

theorem steps {a b : Bool} {l : List Step} (hl : Scoped a l b) (hr : fresh.Ready a)
    (h : After base fresh r) : After base (fresh.steps [] l) (r.steps [] l) := by
  induction hl generalizing fresh r with
  | nil => exact h
  | @cons a b c s l hs _ ih =>
    have h' := h.step hr hs
    rw [steps_cons, steps_cons, h'.halted]
    rcases hr.step [] hs with hh | hh
    · simpa [hh] using h'
    · simp only [hh.halted, Option.isSome_none, Bool.false_eq_true, ↓reduceIte]
      exact ih hh h'

end After

/-- Parts that are scoped on their own do the same together as one by one. -/
theorem steps_flatten {base : Run} (hr : base.Ready false) {parts : List (List Step)}
    (hp : ∀ l ∈ parts, Scoped false l false) :
    ((base.steps [] parts.flatten).halted.isSome ↔
      ∃ l ∈ parts, (Run.steps [] { compilation := base.compilation } l).halted.isSome) ∧
    ((base.steps [] parts.flatten).halted = none →
      (base.steps [] parts.flatten).diagnostics = base.diagnostics ++
        parts.flatMap fun l => (Run.steps [] { compilation := base.compilation } l).diagnostics) ∧
    ((base.steps [] parts.flatten).halted = none →
      (base.steps [] parts.flatten).hasErrors = false →
      (base.steps [] parts.flatten).intermediate = (parts.map fun l =>
        (Run.steps [] { compilation := base.compilation } l).intermediate).foldl
          Intermediate.append base.intermediate) := by
  induction parts generalizing base with
  | nil => simp [steps, hr.halted]
  | cons l rest ih =>
    have hl := hp l (by simp)
    have h := After.steps hl (ready_start base.compilation) (.start hr)
    rw [List.flatten_cons, steps_append hr.halted]
    rcases hr.steps [] hl with hh | hh
    · have hhead : (Run.steps [] { compilation := base.compilation } l).halted.isSome := by
        rw [← h.halted, hh]; rfl
      simp [hh, hhead]
    · have hhead : (Run.steps [] { compilation := base.compilation } l).halted = none := by
        rw [← h.halted, hh.halted]
      have hcomp := hr.compilation_steps [] hl
      obtain ⟨ih1, ih2, ih3⟩ := ih hh fun l hl => hp l (by simp [hl])
      rw [hcomp] at ih1 ih2 ih3
      simp only [hh.halted, Option.isSome_none, Bool.false_eq_true, ↓reduceIte, List.flatMap_cons,
        List.map_cons, List.foldl_cons]
      refine ⟨by simp [ih1, hhead], fun hn => ?_, fun hn he => ?_⟩
      · rw [ih2 hn, h.diagnostics, List.append_assoc]
      · have he' : (base.steps [] l).hasErrors = false :=
          not_hasErrors_of_later ⟨_, (ih2 hn).symm⟩ he
        rw [ih3 hn he, h.intermediate he']

end Run

/-! ### Documents without attributes of the document element -/

namespace Compile

/-- The steps for a child of the document element in a document of its own. -/
def soloSteps (config : Config) (tag : Tag) (child : Element) : List Step :=
  childSteps config (.node tag [child]) 0 child

theorem scoped_soloSteps (config : Config) (tag : Tag) (children : List Element) :
    ∀ l ∈ children.map (soloSteps config tag), Scoped false l false :=
  List.forall_mem_map.mpr fun child _ =>
    .of_block (block_childSteps config (.node tag [child]) 0 child).1

/-- The document element is the right one and has no attributes. -/
structure Plain (tag : Tag) : Prop where
  qname : tag.qname = QName.core "Wix"
  attributes : tag.attributes = []

/-- Without extensions, a document is run like the documents of its children one after another. -/
theorem steps_plan_of_plain (config : Config) {tag : Tag} (ht : Plain tag) (children : List Element)
    {r : Run} (hr : r.halted = none) : r.steps [] (plan config (.node tag children)) =
      r.steps [] (children.map (soloSteps config tag)).flatten := by
  have hq : (Element.node tag children).qname = QName.core "Wix" := ht.qname
  have ha : (Element.node tag children).attributes = [] := ht.attributes
  have hroot : rootSteps (.node tag children) = [] := by
    simp [rootSteps, hq, Planned.report, Planned.offerAttributes, Element.checkAttributes,
      Element.coreAttributes, Element.foreignAttributes, ha]
  have htop : topElements (.node tag children) = children := by simp [topElements, hq, Element.children]
  have hbare : (children.mapIdx (childSteps config (.node tag children))).map (List.map Step.bare) =
      (children.map (soloSteps config tag)).map (List.map Step.bare) := by
    refine List.ext_getElem? fun i => ?_
    simp only [List.getElem?_map, List.getElem?_mapIdx, Option.map_map]
    congr 1
    funext child
    have htag : (Element.node tag children).tag = (Element.node tag [child]).tag := rfl
    exact bare_childSteps config htag i 0 child
  rw [(alike_parts config _).steps [] r hr, parts, hroot, map_steps_topBlocks, htop,
    List.flatten_cons, List.nil_append, ← Run.steps_bare, List.map_flatten, hbare,
    ← List.map_flatten, Run.steps_bare]

end Compile

namespace Compiler

variable {c : Compiler} (hc : c.extensions = []) {tag : Tag} (ht : Plain tag)
include hc ht

theorem compileAs_of_plain (k : UInt32) (children : List Element) :
    c.compileAs k (.node tag children) =
      (Run.steps [] { compilation := k } (children.map (soloSteps c.config tag)).flatten).outcome := by
  rw [compileAs, hc, steps_plan_of_plain c.config ht children rfl]

theorem compileAs_alone (k : UInt32) (child : Element) : c.compileAs k (.node tag [child]) =
    (Run.steps [] { compilation := k } (soloSteps c.config tag child)).outcome := by
  rw [compileAs_of_plain hc ht]
  simp

/-- A document cannot be compiled if one of its children cannot. -/
theorem error_iff_of_plain (k : UInt32) (children : List Element) :
    (∃ h, (c.compileAs k (.node tag children)).result = .error h) ↔
      ∃ child ∈ children, ∃ h, (c.compileAs k (.node tag [child])).result = .error h := by
  have hflat :=
    (Run.steps_flatten (Run.ready_start k) (scoped_soloSteps c.config tag children)).1
  simp only [compileAs_of_plain hc ht k children, compileAs_alone hc ht, Run.result_eq_error_iff,
    ← Option.isSome_iff_exists, hflat]
  simp

/-- The output of a document that can be compiled, from those of its children. -/
theorem ok_of_plain (k : UInt32) (children : List Element) {o : Output}
    (ho : (c.compileAs k (.node tag children)).result = .ok o) :
    ∃ os : List Output,
      children.map (fun child => (c.compileAs k (.node tag [child])).result) = os.map .ok ∧
      o.diagnostics = os.flatMap (·.diagnostics) ∧
      ((∀ p ∈ os, p.isSuccess) →
        o.intermediate = (os.map (·.intermediate)).foldl Intermediate.append {}) := by
  have hnone : ∀ child ∈ children,
      (Run.steps [] { compilation := k } (soloSteps c.config tag child)).halted = none := by
    intro child hmem
    by_contra hne
    obtain ⟨h, hh⟩ := Option.ne_none_iff_exists'.mp hne
    obtain ⟨h', hh'⟩ := (error_iff_of_plain hc ht k children).mpr
      ⟨child, hmem, h, by rw [compileAs_alone hc ht, Run.result_eq_error_iff, hh]⟩
    rw [ho] at hh'
    cases hh'
  rw [compileAs_of_plain hc ht] at ho
  obtain ⟨hh, rfl⟩ := Run.result_eq_ok_iff.mp ho
  obtain ⟨-, hdiag, hint⟩ :=
    Run.steps_flatten (Run.ready_start k) (scoped_soloSteps c.config tag children)
  refine ⟨children.map fun child => Output.settle
    ⟨(Run.steps [] { compilation := k } (soloSteps c.config tag child)).intermediate,
      (Run.steps [] { compilation := k } (soloSteps c.config tag child)).diagnostics⟩, ?_, ?_, ?_⟩
  · rw [List.map_map]
    refine List.map_congr_left fun child hmem => ?_
    rw [compileAs_alone hc ht]
    exact Run.result_eq_ok_iff.mpr ⟨hnone child hmem, rfl⟩
  · rw [Output.diagnostics_settle, hdiag hh]
    simp [List.flatMap_map]
  · intro hs
    have he : ∀ child ∈ children,
        (Run.steps [] { compilation := k } (soloSteps c.config tag child)).hasErrors = false := by
      simpa [Output.isSuccess, Run.hasErrors] using hs
    have hall : (Run.steps [] { compilation := k }
        (children.map (soloSteps c.config tag)).flatten).hasErrors = false := by
      simpa [Run.hasErrors, Diagnostic.hasErrors, hdiag hh] using he
    rw [Run.settle_of_not_hasErrors hall, hint hh hall, List.map_map, List.map_map]
    refine congrArg (List.foldl Intermediate.append {}) (List.map_congr_left fun child hmem => ?_)
    simp only [Function.comp_apply]
    rw [Run.settle_of_not_hasErrors (he child hmem)]

end Compiler

/-! ### Documents that are compiled together -/

/-- Outputs put together, or the first failure. -/
def gather : List (Except Halt Output) → Except Halt Output
  | [] => .ok {}
  | .error h :: _ => .error h
  | .ok o :: rest => (gather rest).map o.append

theorem gather_of_ok (os : List Output) : gather (os.map .ok) = .ok (os.foldr .append {}) := by
  induction os with
  | nil => rfl
  | cons o os ih => rw [List.map_cons, gather, ih]; rfl

theorem gather_of_error {results : List (Except Halt Output)}
    (h : ∃ x ∈ results, ∃ e, x = .error e) :
    ∃ e, gather results = .error e ∧ .error e ∈ results := by
  induction results with
  | nil => simp at h
  | cons x results ih =>
    cases x with
    | error e => exact ⟨e, rfl, by simp⟩
    | ok o =>
      obtain ⟨e, he, hmem⟩ := ih (by simpa using h)
      exact ⟨e, by rw [gather, he]; rfl, by simp [hmem]⟩

namespace Compiler

/-- Up to the numbers of compiles, documents that are compiled one after another give what each of
them gives. -/
theorem compileEach_renumber (c : Compiler) (roots : List Element) :
    (c.compileEach roots).1.result.map (Output.renumber fun _ => 0) =
      gather (roots.map fun root => (c.compileAs 0 root).result) := by
  induction roots generalizing c with
  | nil => rfl
  | cons root roots ih =>
    have hfirst := congrArg Outcome.result (c.compileAs_renumber (fun _ => 0) c.next root)
    have hrest := ih { c with next := c.next + 1 }
    simp only [Outcome.renumber] at hfirst
    rw [List.map_cons, hfirst, compileEach]
    simp only [Compiler.compile]
    cases hr : (c.compileAs c.next root).result with
    | error h => rfl
    | ok o =>
      have hgather : gather (roots.map fun root => (c.compileAs 0 root).result) =
          ({ c with next := c.next + 1 }.compileEach roots).1.result.map
            (Output.renumber fun _ => 0) := hrest.symm
      simp only [Except.map, gather, hgather]
      cases ({ c with next := c.next + 1 }.compileEach roots).1.result with
      | error h => rfl
      | ok rest => exact congrArg Except.ok (Output.renumber_append _ o rest)

theorem deliveries_compileAs {c : Compiler} (hc : c.extensions = []) (k : UInt32) (root : Element) :
    (c.compileAs k root).deliveries = [] := by
  rw [compileAs, hc]
  exact Run.deliveries_steps _ _

theorem deliveries_compileEach {c : Compiler} (hc : c.extensions = []) (roots : List Element) :
    (c.compileEach roots).1.deliveries = [] := by
  induction roots generalizing c with
  | nil => rfl
  | cons root roots ih =>
    have hfirst := deliveries_compileAs hc c.next root
    simp only [compileEach, Compiler.compile]
    split
    · exact hfirst
    · simpa [hfirst] using ih (c := { c with next := c.next + 1 }) hc

section Plain
variable {c : Compiler} (hc : c.extensions = []) {tag : Tag} (ht : Plain tag)
include hc ht

/-- A document and the documents of its children together give the same output. -/
theorem result_eq_gather_of_plain (k : UInt32) (children : List Element) :
    (c.compileAs k (.node tag children)).result =
      (gather (children.map fun child => (c.compileAs k (.node tag [child])).result)).map
        (·.settle) := by
  rcases c.result_ok_or_tooDeep k (.node tag children) with ⟨o, ho⟩ | he
  · obtain ⟨os, hos, hdiag, hint⟩ := ok_of_plain hc ht k children ho
    obtain ⟨-, hsettle⟩ := Run.result_eq_ok_iff.mp ho
    have hself : o.settle = o := by rw [← hsettle, Output.settle_settle]
    have hall : Diagnostic.hasErrors o.diagnostics = false → ∀ p ∈ os, p.isSuccess := by
      simp [hdiag, Diagnostic.hasErrors, Output.isSuccess]
    rw [ho, hos, gather_of_ok, Output.foldr_append, ← hdiag]
    refine congrArg Except.ok (hself.symm.trans ?_)
    exact Output.settle_congr rfl fun he => hint (hall he)
  · obtain ⟨child, hmem, h, hh⟩ := (error_iff_of_plain hc ht k children).mp ⟨_, he⟩
    have hsome : ∃ x ∈ children.map fun child => (c.compileAs k (.node tag [child])).result,
        ∃ e, x = .error e := ⟨_, List.mem_map_of_mem hmem, h, hh⟩
    obtain ⟨e, hgather, hin⟩ := gather_of_error hsome
    obtain ⟨child', -, hchild'⟩ := List.mem_map.mp hin
    have htoo : e = .tooDeep := by
      rcases c.result_ok_or_tooDeep k (.node tag [child']) with ⟨o, ho⟩ | ho
      · rw [ho] at hchild'; cases hchild'
      · rw [ho] at hchild'; cases hchild'; rfl
    rw [he, hgather, htoo]
    rfl

/-- A document and the documents of its children, compiled together, agree up to the numbers of
compiles. -/
theorem compile_renumber_of_plain (children : List Element) :
    (c.compile (.node tag children)).1.renumber (fun _ => 0) =
      (c.compileAll (children.map fun child => .node tag [child])).1.renumber (fun _ => 0) := by
  have hwhole : (c.compile (.node tag children)).1.renumber (fun _ => 0) =
      c.compileAs 0 (.node tag children) :=
    (c.compileAs_renumber (fun _ => 0) c.next _).symm
  have heach := c.compileEach_renumber (children.map fun child => .node tag [child])
  have hsettle (x : Except Halt Output) : (x.map (·.settle)).map (Output.renumber fun _ => 0) =
      (x.map (Output.renumber fun _ => 0)).map (·.settle) := by
    cases x with
    | error h => rfl
    | ok o => exact congrArg Except.ok (Output.settle_renumber _ o).symm
  have hresult : (c.compileAs 0 (.node tag children)).result = _ :=
    result_eq_gather_of_plain hc ht 0 children
  rw [List.map_map] at heach
  rw [hwhole]
  simp only [compileAll, Outcome.renumber, hsettle, heach, deliveries_compileEach hc]
  rw [← deliveries_compileAs hc 0 (.node tag children), Function.comp_def, ← hresult]

end Plain

/-- **Children of the document element are independent.** A document whose document element has no
attributes is compiled, without extensions, as its children are in documents of their own: it cannot be
compiled if one of them cannot, its diagnostics are theirs one after another, and if there is no
error its intermediate is put together from theirs. So it agrees with these documents compiled
together, up to the numbers of compiles. -/
theorem compileAs_eq_children_together (c : Compiler) (hc : c.extensions = []) {tag : Tag}
    (ht : Plain tag) (children : List Element) (k : UInt32) :
    ((∃ h, (c.compileAs k (.node tag children)).result = .error h) ↔
      ∃ child ∈ children, ∃ h, (c.compileAs k (.node tag [child])).result = .error h) ∧
    (∀ o, (c.compileAs k (.node tag children)).result = .ok o → ∃ os : List Output,
      children.map (fun child => (c.compileAs k (.node tag [child])).result) = os.map .ok ∧
      o.diagnostics = os.flatMap (·.diagnostics) ∧
      ((∀ p ∈ os, p.isSuccess) →
        o.intermediate = (os.map (·.intermediate)).foldl Intermediate.append {})) ∧
    (c.compile (.node tag children)).1.renumber (fun _ => 0) =
      (c.compileAll (children.map fun child => .node tag [child])).1.renumber (fun _ => 0) :=
  ⟨error_iff_of_plain hc ht k children, fun _ ho => ok_of_plain hc ht k children ho,
    compile_renumber_of_plain hc ht children⟩

end Compiler

/-- Fragments with one property each, and a foreign note between them. -/
def Sample.fragments : List Element := [
  element "Fragment" [] [element "Property" [("Id", "P"), ("Value", "v")] []],
  .node (tag "notes" "Note" []) [],
  element "Fragment" [] [element "Property" [("Id", "Q"), ("Value", "v")] []]]

/-- The second property is in the second section, and the note is unhandled. -/
theorem compileAs_eq_children_together_fragments :
    ∃ o, (Compiler.compileAs {} 7 (Sample.element "Wix" [] Sample.fragments)).result = .ok o ∧
      o.intermediate.symbols.map (·.sectionIndex) = [0, 1] ∧ o.diagnostics.length = 1 ∧
      ∃ os : List Output, Sample.fragments.map (fun child =>
          (Compiler.compileAs {} 7 (Sample.element "Wix" [] [child])).result) = os.map .ok ∧
        o.diagnostics = os.flatMap (·.diagnostics) ∧
        ((∀ p ∈ os, p.isSuccess) →
          o.intermediate = (os.map (·.intermediate)).foldl Intermediate.append {}) :=
  ⟨_, rfl, by decide +kernel, by decide +kernel,
    (Compiler.compileAs_eq_children_together {} rfl ⟨rfl, rfl⟩ Sample.fragments 7).2.1 _ rfl⟩

end Installer
