import Installer.Proofs.Runs

/-! # The open section

Whatever is called for while a child of the document element is compiled is called for in the section
that this child opens, and in none if it opens none. The calls of a run are listed part by part
(`Run.eventsIn`), and for each child it is known beforehand which section will be open
(`Compile.activeUnit?`). -/

namespace Installer

open Compile

/-- A call that is made for something inside of an element while the given section is open. There is
one if it is a call for a symbol. -/
structure Event.Belongs (e : Event) (site : Site) (unit : Option ActiveUnit) : Prop where
  active : e.active = unit
  node : ∀ node, e.call = .hook node → site.lineage <:+ node.subject.lineage
  symbol : ∀ id data, e.call = .symbol id data → unit.isSome

/-- The section that is opened with a header. -/
def UnitHeader.toSection (compilation : UInt32) (u : UnitHeader) : Section :=
  ⟨u.id, u.kind, compilation⟩

namespace Run

variable (extensions : List Extension) {r : Run} {b : Bool}

/-! ### Calls while no section is opened or closed -/

theorem belongs_of_mem_hookEvents (node : Offer) (hook : Hook) (hg : r.Grounded) (site : Site)
    {e : Event} (he : e ∈ r.hookEvents node hook) : e.Belongs site r.active := by
  induction hook generalizing r with
  | done handled => simp [hookEvents] at he
  | report d next ih => exact ih (r := r.report d) hg he
  | emit id definition fields next ih =>
    rw [hookEvents] at he
    split at he
    · exact ih (r := r.report _) hg he
    · next unit hu =>
      have hs : r.active.isSome := by simp [hu]
      have h := Extends.emit hg hs id (.extensionData definition fields)
      rcases List.mem_cons.mp he with rfl | he
      · exact ⟨rfl, by simp, fun _ _ _ => hs⟩
      · exact h.active ▸ ih (h.grounded hg) he
  | refer s next ih =>
    have h := Extends.refer r s
    rcases List.mem_cons.mp he with rfl | he
    · exact ⟨rfl, by simp, by simp⟩
    · exact h.active ▸ ih (h.grounded hg) he
  | group g next ih =>
    have h := Extends.group r g
    rcases List.mem_cons.mp he with rfl | he
    · exact ⟨rfl, by simp, by simp⟩
    · exact h.active ▸ ih (h.grounded hg) he
  | observe next ih => exact ih _ hg he

/-- The calls of a step inside of an element are made for something inside of it. -/
theorem belongs_of_mem_stepEvents {site : Site} {s : Step} (hr : r.Ready b) (hs : InPlace b s b)
    (hin : s.Inside site) {e : Event} (he : e ∈ r.stepEvents extensions s) :
    e.Belongs site r.active := by
  cases s with
  | offer node context =>
    simp only [stepEvents] at he
    split at he
    · simp at he
    · rcases List.mem_cons.mp he with rfl | he
      · exact ⟨rfl, fun node' hc => by cases hc; exact hin.2 node context rfl, by simp⟩
      · exact belongs_of_mem_hookEvents node _ hr.grounded site he
  | emit id data =>
    cases List.mem_singleton.mp he
    cases hs with
    | inner _ => exact ⟨rfl, by simp, fun _ _ _ => hr.active⟩
    | outer hs => cases hs
  | refer s => cases List.mem_singleton.mp he; exact ⟨rfl, by simp, by simp⟩
  | group g => cases List.mem_singleton.mp he; exact ⟨rfl, by simp, by simp⟩
  | _ => simp [stepEvents] at he

/-- Steps that neither open nor close a section. -/
theorem steps_of_inPlace {site : Site} {l : List Step}
    (hl : ∀ s ∈ l, InPlace b s b ∧ s.Inside site) (hr : r.Ready b) :
    r.Extends (r.steps extensions l) ∧
      ∀ e ∈ r.events extensions l, e.Belongs site r.active := by
  induction l generalizing r with
  | nil => exact ⟨.refl r, by simp [events]⟩
  | cons s l ih =>
    obtain ⟨hs, hin⟩ := hl s (by simp)
    have h := hr.extends extensions hs
    rw [steps_cons, events]
    split_ifs with hh
    · refine ⟨h, fun e he => ?_⟩
      rw [List.append_nil] at he
      exact belongs_of_mem_stepEvents extensions hr hs hin he
    · obtain ⟨h', he'⟩ := ih (fun s hs => hl s (by simp [hs])) (hr.of_extends h (by simpa using hh))
      refine ⟨h.trans h', fun e he => ?_⟩
      rcases List.mem_append.mp he with he | he
      · exact belongs_of_mem_stepEvents extensions hr hs hin he
      · exact h.active ▸ he' e he

/-! ### Calls part by part -/

theorem steps_closeUnit (r : Run) : r.steps extensions [.closeUnit] = r.closeUnit :=
  (steps_cons r .closeUnit []).trans (ite_self _)

/-- A section is opened, and all that is called for until it is closed is called for in it. -/
theorem steps_of_unit {site : Site} {header : UnitHeader} {mid : List Step}
    (hmid : ∀ s ∈ mid, s.Inside site) (hr : r.Ready false) :
    (r.steps extensions (.openUnit header :: (mid ++ [.closeUnit]))).compilation = r.compilation ∧
    (r.steps extensions (.openUnit header :: (mid ++ [.closeUnit]))).intermediate.sections =
      r.intermediate.sections ++ [header.toSection r.compilation] ∧
    ∀ e ∈ r.events extensions (.openUnit header :: (mid ++ [.closeUnit])),
      e.Belongs site (some ⟨r.intermediate.sections.length, header⟩) := by
  have hr' := hr.openUnit header
  obtain ⟨h, he⟩ := steps_of_inPlace extensions
    (fun s hs => ⟨.inner (hmid s hs).1, hmid s hs⟩) hr'
  have hstop : (r.openUnit header).halted.isSome = false := by rw [hr'.halted]; rfl
  rw [steps_cons, events]
  simp only [step, hstop, stepEvents, Bool.false_eq_true, ↓reduceIte, List.nil_append]
  rw [steps_append hr'.halted, events_append hr'.halted, steps_closeUnit]
  refine ⟨?_, ?_, fun e hm => he e ?_⟩
  · split_ifs
    · exact h.compilation
    · exact h.compilation
  · split_ifs
    · exact h.sections
    · exact h.sections
  · simpa [events, stepEvents] using hm

/-- What the steps for a child of the document element do: they add the section that they open, and
all their calls are made in it. -/
theorem steps_of_block {site : Site} {header : Option UnitHeader} {l : List Step}
    (hb : Block site header l) (hr : r.Ready false) :
    (r.steps extensions l).compilation = r.compilation ∧
    (r.steps extensions l).intermediate.sections =
      r.intermediate.sections ++ header.toList.map (UnitHeader.toSection r.compilation) ∧
    ∀ e ∈ r.events extensions l,
      e.Belongs site (header.map (⟨r.intermediate.sections.length, ·⟩)) := by
  cases hb with
  | @outer s hs hi =>
    have hl : ∀ s' ∈ [s], InPlace false s' false ∧ s'.Inside site := by simpa using ⟨.outer hs, hi⟩
    obtain ⟨h, he⟩ := steps_of_inPlace extensions hl hr
    have ha : r.active = none := by simpa using hr.active
    rw [ha] at he
    exact ⟨h.compilation, by simp [h.sections], he⟩
  | @unit ds header mid hmid =>
    rw [steps_reports hr.halted, events_reports hr.halted]
    exact steps_of_unit extensions hmid ⟨hr.halted, hr.grounded, hr.units⟩

/-- The calls of steps that are run part by part. -/
def eventsIn (r : Run) : List (List Step) → List (List Event)
  | [] => []
  | l :: rest =>
    r.events extensions l ::
      if (r.steps extensions l).halted.isSome then []
      else (r.steps extensions l).eventsIn rest

theorem events_flatten (hr : r.halted = none) (parts : List (List Step)) :
    r.events extensions parts.flatten = (r.eventsIn extensions parts).flatten := by
  induction parts generalizing r with
  | nil => rfl
  | cons l rest ih =>
    rw [List.flatten_cons, events_append hr, eventsIn, List.flatten_cons]
    split_ifs with h
    · rfl
    · rw [ih (by simpa using h)]

theorem length_eventsIn_le (r : Run) (parts : List (List Step)) :
    (r.eventsIn extensions parts).length ≤ parts.length := by
  induction parts generalizing r with
  | nil => exact Nat.le_refl _
  | cons l rest ih =>
    rw [eventsIn]
    split_ifs
    · simp
    · simpa using ih _

/-- The calls for each child of the document element are made in its section, which comes after the
sections of the children before. -/
theorem belongs_of_mem_eventsIn {blocks : List TopBlock} (hr : r.Ready false) {i : Nat}
    {block : TopBlock} {es : List Event} (hb : blocks[i]? = some block)
    (hes : (r.eventsIn extensions (blocks.map (·.steps)))[i]? = some es) :
    ∀ e ∈ es, e.Belongs block.site (block.header.map
      (⟨r.intermediate.sections.length + ((blocks.take i).filterMap (·.header)).length, ·⟩)) := by
  induction blocks generalizing r i with
  | nil => simp at hb
  | cons first rest ih =>
    obtain ⟨-, hsections, hevents⟩ := steps_of_block extensions first.block hr
    rw [List.map_cons, eventsIn] at hes
    cases i with
    | zero =>
      obtain rfl : first = block := by simpa using hb
      obtain rfl : r.events extensions first.steps = es := by simpa using hes
      simpa using hevents
    | succ i =>
      rw [List.getElem?_cons_succ] at hb hes
      split_ifs at hes with hh
      · simp at hes
      · have hr' := (hr.steps extensions (.of_block first.block)).resolve_left
          (by rw [Option.not_isSome_iff_eq_none.mp hh]; simp)
        have h := ih hr' hb hes
        have hlen : (r.steps extensions first.steps).intermediate.sections.length +
            ((rest.take i).filterMap (·.header)).length = r.intermediate.sections.length +
            (((first :: rest).take (i + 1)).filterMap (·.header)).length := by
          rw [hsections, List.take_succ_cons]
          cases hh : first.header <;> simp [hh, Nat.add_assoc, Nat.add_comm 1]
        rwa [hlen] at h

/-- The sections that are there in the end. -/
theorem sections_of_blocks {blocks : List TopBlock} (hr : r.Ready false)
    (hh : (r.steps extensions (blocks.map (·.steps)).flatten).halted = none) :
    (r.steps extensions (blocks.map (·.steps)).flatten).intermediate.sections =
      r.intermediate.sections ++
        (blocks.filterMap (·.header)).map (UnitHeader.toSection r.compilation) := by
  induction blocks generalizing r with
  | nil => simp [steps]
  | cons first rest ih =>
    obtain ⟨hcomp, hsections, -⟩ := steps_of_block extensions first.block hr
    rw [List.map_cons, List.flatten_cons, steps_append hr.halted] at hh ⊢
    split_ifs at hh ⊢ with hs
    · rw [hh] at hs; cases hs
    · have hr' := (hr.steps extensions (.of_block first.block)).resolve_left
        (by rw [Option.not_isSome_iff_eq_none.mp hs]; simp)
      rw [ih hr' hh, hsections, hcomp]
      cases hh : first.header <;> simp [hh]

end Run

namespace Compile

/-- The place of an entry in a list from which others are left out. -/
theorem getElem?_filterMap_take {α β : Type} {f : α → Option β} {l : List α} {i : Nat} {a : α}
    {b : β} (hi : l[i]? = some a) (hf : f a = some b) :
    (l.filterMap f)[((l.take i).filterMap f).length]? = some b := by
  induction l generalizing i with
  | nil => simp at hi
  | cons x l ih =>
    cases i with
    | zero =>
      obtain rfl : x = a := by simpa using hi
      simp [hf]
    | succ i =>
      have h := ih (by simpa using hi)
      cases hx : f x <;> simpa [hx] using h

/-- The sections that the children of the document element open. -/
def sectionHeaders (config : Config) (root : Element) : List (Option UnitHeader) :=
  (topElements root).mapIdx (sectionHeader? config root)

/-- The section that is open while the child of the document element at the given position is
compiled. Its index is the number of sections that the children before open. -/
def activeUnit? (config : Config) (root : Element) (i : Nat) : Option ActiveUnit :=
  (sectionHeaders config root)[i]?.join.map
    (⟨(((sectionHeaders config root).take i).filterMap id).length, ·⟩)

theorem map_header_topBlocks (config : Config) (root : Element) :
    (topBlocks config root).map (·.header) = sectionHeaders config root := by
  simp [topBlocks, sectionHeaders, List.mapIdx_eq_zipIdx_map]

theorem getElem?_topBlocks (config : Config) {root child : Element} {i : Nat}
    (h : (topElements root)[i]? = some child) :
    ∃ block, (topBlocks config root)[i]? = some block ∧
      block.site = (Site.root root).child i child ∧
      block.header = sectionHeader? config root i child := by
  refine ⟨⟨_, _, _, (block_childSteps config root i child).1⟩, ?_, rfl, rfl⟩
  simp [topBlocks, List.getElem?_mapIdx, h]

theorem activeUnit?_of_child {config : Config} {root child : Element} {i : Nat}
    (h : (topElements root)[i]? = some child) : activeUnit? config root i =
      (sectionHeader? config root i child).map
        (⟨(((topBlocks config root).take i).filterMap (·.header)).length, ·⟩) := by
  have hmap : ((sectionHeaders config root).take i).filterMap id =
      ((topBlocks config root).take i).filterMap (·.header) := by
    rw [← map_header_topBlocks, ← List.map_take, List.filterMap_map]
    rfl
  rw [activeUnit?, hmap]
  simp [sectionHeaders, List.getElem?_mapIdx, h]

/-- A section is opened by a core child, for which it is named. -/
theorem exists_child_of_activeUnit? {config : Config} {root : Element} {i : Nat}
    {unit : ActiveUnit} (h : activeUnit? config root i = some unit) :
    ∃ child, (topElements root)[i]? = some child ∧ child.isCore ∧
      unit.header.kind.name = child.name := by
  cases hc : (topElements root)[i]? with
  | none => simp [activeUnit?, sectionHeaders, List.getElem?_mapIdx, hc] at h
  | some child =>
    rw [activeUnit?_of_child hc] at h
    obtain ⟨header, hh, rfl⟩ := Option.map_eq_some_iff.mp h
    exact ⟨child, rfl, (block_childSteps config root i child).2 header hh⟩

end Compile

/-! ### Calls of a compile -/

namespace Compiler

/-- The calls on the way of a compile, for the document element itself and then for each child. -/
def callsIn (c : Compiler) (root : Element) : List (List Event) :=
  Run.eventsIn c.extensions { compilation := c.next } (parts c.config root)

/-- The calls of a compile are made where they belong. -/
structure Placed (c : Compiler) (root : Element) : Prop where
  /-- All calls are made for the document element itself or for one of its children. -/
  calls : c.calls root = (c.callsIn root).flatten
  /-- Hooks are called as listed, and see the section that is open. -/
  deliveries : (c.compile root).1.deliveries.map Delivery.hooked =
    (c.calls root).filterMap Event.hook?
  /-- No section is open for the document element itself. -/
  ofRoot : ∀ es, (c.callsIn root)[0]? = some es → ∀ e ∈ es, e.Belongs (Site.root root) none
  /-- For a child of the document element, the section is open that this child opens. -/
  ofChild : ∀ i child es, (topElements root)[i]? = some child → (c.callsIn root)[i + 1]? = some es →
    ∀ e ∈ es, e.Belongs ((Site.root root).child i child) (activeUnit? c.config root i)
  /-- This section has the kind that the child is named for, and is in its place in the output. -/
  opened : ∀ i unit, activeUnit? c.config root i = some unit →
    ∃ child, (topElements root)[i]? = some child ∧ child.isCore ∧
      unit.header.kind.name = child.name ∧
      ∀ o, (c.compile root).1.result = .ok o → Diagnostic.hasErrors o.diagnostics = false →
        o.intermediate.sections[unit.index]? = some (unit.header.toSection c.next)
  /-- No section is open for attributes of the document element and for its foreign children, also
  after other children. -/
  absent : ∀ e ∈ c.calls root, ∀ node, e.call = .hook node →
    (node.subject = Site.root root ∨
      node.subject.ancestors = [root] ∧ node.subject.element.isCore = false) → e.active = none

section Placed
variable (c : Compiler) (root : Element)

theorem calls_eq_flatten : c.calls root = (c.callsIn root).flatten := by
  rw [calls, callsIn, (alike_parts c.config root).events _ _ rfl, Run.events_flatten _ rfl]

theorem steps_rootSteps :
    Run.Extends { compilation := c.next }
      (Run.steps c.extensions { compilation := c.next } (rootSteps root)) ∧
    ∀ e ∈ Run.events c.extensions { compilation := c.next } (rootSteps root),
      e.Belongs (Site.root root) none :=
  Run.steps_of_inPlace c.extensions
    (fun s hs => ⟨.outer (rootSteps_outer root s hs).1, (rootSteps_outer root s hs).2⟩)
    (Run.ready_start c.next)

theorem belongs_of_ofChild {i : Nat} {child : Element} {es : List Event}
    (hc : (topElements root)[i]? = some child) (hes : (c.callsIn root)[i + 1]? = some es) :
    ∀ e ∈ es, e.Belongs ((Site.root root).child i child) (activeUnit? c.config root i) := by
  obtain ⟨hroot, -⟩ := steps_rootSteps c root
  obtain ⟨block, hb, hsite, hheader⟩ := getElem?_topBlocks c.config hc
  rw [callsIn, parts, Run.eventsIn, List.getElem?_cons_succ] at hes
  split_ifs at hes with hh
  · simp at hes
  · have h := Run.belongs_of_mem_eventsIn c.extensions
      ((Run.ready_start c.next).of_extends hroot (by simpa using hh)) hb hes
    rw [activeUnit?_of_child hc, ← hheader, ← hsite]
    simpa [hroot.sections] using h

theorem sections_of_success {o : Output} (ho : (c.compile root).1.result = .ok o)
    (he : Diagnostic.hasErrors o.diagnostics = false) : o.intermediate.sections =
      ((topBlocks c.config root).filterMap (·.header)).map (UnitHeader.toSection c.next) := by
  obtain ⟨hroot, -⟩ := steps_rootSteps c root
  obtain ⟨hh, rfl⟩ := Run.result_eq_ok_iff.mp ho
  have hrun : (Run.steps c.extensions { compilation := c.next } (plan c.config root)) =
      Run.steps c.extensions { compilation := c.next } (parts c.config root).flatten :=
    (alike_parts c.config root).steps _ _ rfl
  rw [hrun] at hh he ⊢
  rw [Output.diagnostics_settle] at he
  rw [Run.settle_of_not_hasErrors he]
  rw [parts, List.flatten_cons, Run.steps_append rfl] at hh ⊢
  split_ifs at hh ⊢ with hs
  · rw [hh] at hs; cases hs
  · have hr := (Run.ready_start c.next).of_extends hroot (by simpa using hs)
    simpa [hroot.sections, hroot.compilation] using Run.sections_of_blocks c.extensions hr hh

theorem getElem?_sections {o : Output} (ho : (c.compile root).1.result = .ok o)
    (he : Diagnostic.hasErrors o.diagnostics = false) {i : Nat} {unit : ActiveUnit}
    (hu : activeUnit? c.config root i = some unit) :
    o.intermediate.sections[unit.index]? = some (unit.header.toSection c.next) := by
  obtain ⟨child, hc, -⟩ := exists_child_of_activeUnit? hu
  obtain ⟨block, hb, -, hheader⟩ := getElem?_topBlocks c.config hc
  rw [activeUnit?_of_child hc, ← hheader] at hu
  obtain ⟨header, hh, rfl⟩ := Option.map_eq_some_iff.mp hu
  rw [sections_of_success c root ho he, List.getElem?_map, getElem?_filterMap_take hb hh]
  rfl

/-- What is called for is called for on behalf of the document element or of one of its children. -/
theorem belongs_of_mem_calls {e : Event} (he : e ∈ c.calls root) :
    e.Belongs (Site.root root) none ∨ ∃ i child, (topElements root)[i]? = some child ∧
      e.Belongs ((Site.root root).child i child) (activeUnit? c.config root i) := by
  rw [calls_eq_flatten] at he
  obtain ⟨es, hes, he⟩ := List.mem_flatten.mp he
  obtain ⟨j, hj⟩ := List.mem_iff_getElem?.mp hes
  cases j with
  | zero =>
    obtain rfl : Run.events c.extensions { compilation := c.next } (rootSteps root) = es := by
      simpa [callsIn, parts, Run.eventsIn] using hj
    exact .inl ((steps_rootSteps c root).2 e he)
  | succ i =>
    have hlen : i < (topElements root).length := by
      have hle := Run.length_eventsIn_le c.extensions { compilation := c.next } (parts c.config root)
      have hlt := (List.getElem?_eq_some_iff.mp hj).1
      simp only [parts, map_steps_topBlocks, List.length_cons, List.length_mapIdx] at hle
      unfold callsIn at hlt
      simp only [parts, map_steps_topBlocks] at hlt
      omega
    have hc := List.getElem?_eq_getElem hlen
    exact .inr ⟨i, _, hc, belongs_of_ofChild c root hc hj e he⟩

theorem active_eq_none_of_outside {e : Event} (he : e ∈ c.calls root) {node : Offer}
    (hn : e.call = .hook node) (ho : node.subject = Site.root root ∨
      node.subject.ancestors = [root] ∧ node.subject.element.isCore = false) : e.active = none := by
  rcases belongs_of_mem_calls c root he with h | ⟨i, child, hc, h⟩
  · exact h.active
  · have hsuffix : [child, root] <:+ node.subject.lineage := h.node node hn
    rw [h.active]
    rcases ho with ho | ⟨hanc, hforeign⟩
    · -- an attribute of the document element is not inside of a child
      rw [ho] at hsuffix
      exact absurd hsuffix.length_le (by simp [Site.lineage, Site.root])
    · -- the node is the child itself, which opens no section since it is foreign
      have heq : [child, root] = node.subject.lineage :=
        hsuffix.eq_of_length (by simp [Site.lineage, hanc])
      rw [Site.lineage, hanc, List.cons.injEq] at heq
      cases hu : activeUnit? c.config root i with
      | none => rfl
      | some unit =>
        obtain ⟨child', hc', hcore, -⟩ := exists_child_of_activeUnit? hu
        obtain rfl : child = child' := Option.some.inj (hc.symm.trans hc')
        rw [heq.1, hforeign] at hcore
        cases hcore

theorem placed : c.Placed root where
  calls := calls_eq_flatten c root
  deliveries := (Run.steps_records c.extensions (scoped_plan c.config root)
    (Run.ready_start c.next)).deliveries
  ofRoot es hes := by
    obtain rfl : Run.events c.extensions { compilation := c.next } (rootSteps root) = es := by
      simpa [callsIn, parts, Run.eventsIn] using hes
    exact (steps_rootSteps c root).2
  ofChild _ _ _ hc hes := belongs_of_ofChild c root hc hes
  opened i unit hu := by
    obtain ⟨child, hc, hcore, hname⟩ := exists_child_of_activeUnit? hu
    exact ⟨child, hc, hcore, hname, fun o ho he => getElem?_sections c root ho he hu⟩
  absent e he node hn ho := active_eq_none_of_outside c root he hn ho

end Placed

/-- **Everything a rule relies on is there.** A compile gives an output or ends because of nesting, so
that no rule misses a section, a group, a package, a component or a field; there is a field for each
attribute that describes a payload; and all that is called for is called for in the section of the
child of the document element around it. -/
theorem compile_safe_and_placed (c : Compiler) (root : Element) :
    ((∃ o, (c.compile root).1.result = .ok o) ∨
      (c.compile root).1.result = .error .tooDeep) ∧
    (∀ (form : PayloadForm) (e : Element) (fields : PayloadFields) (a : Attribute),
      a.name ∈ form.names → (fields.take e a).isSome) ∧
    c.Placed root :=
  ⟨result_ok_or_tooDeep c c.next root,
    fun form _ _ _ ha => PayloadFields.isSome_take (form.names_subset ha), placed c root⟩

end Compiler

/-- The property and the note are compiled in the section of their fragment. -/
theorem compile_safe_and_placed_note :
    activeUnit? {} Sample.note 0 = some ⟨0, { kind := .fragment, id := some "F" }⟩ ∧
      (Sample.notingCompiler.callsIn Sample.note).map List.length = [0, 4] ∧
      Sample.notingCompiler.Placed Sample.note :=
  ⟨by decide +kernel, by decide +kernel, (Compiler.compile_safe_and_placed _ _).2.2⟩

end Installer
