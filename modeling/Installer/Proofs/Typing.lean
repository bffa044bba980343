import Installer.Proofs.OpenSection
import Installer.Proofs.UnitSteps

/-! # Sections are well typed

Symbols are listed section by section. A section that is no fragment ends with the one symbol of its unit,
whose identifier is that of the section, and it holds only what suits it (`Section.WellTyped`). The steps
for the unit see to that, and the hooks that are called in between define extension data only
(`Run.filter_definitions`). The calls of a run come in batches, one for each section (`Run.batches`). -/

namespace Installer

open Compile

/-! ### Well-typed sections -/

/-- **A well-typed section**, with its symbols in order. -/
structure Section.WellTyped (s : Section) (symbols : List Symbol) : Prop where
  /-- The symbol of the unit is the last one, and no other one is of such a kind. -/
  unit : ∀ kind, s.kind.unitKind? = some kind → ∃ before last, symbols = before ++ [last] ∧
    last.kind = kind ∧ s.id = some last.id.id ∧ ∀ x ∈ before, x.kind ∉ SectionKind.unitKinds
  fragment : s.kind.unitKind? = none → ∀ x ∈ symbols, x.kind ∉ SectionKind.unitKinds
  kinds : ∀ x ∈ symbols, x.kind = .extensionData ∨ x.kind ∈ s.kind.kinds
  sole : s.kind = .bundle → ∀ kind ∈ SymbolKind.sole, symbols.countP (·.kind = kind) ≤ 1
  suits : ∀ x ∈ symbols, x.data.Suits s.kind

namespace Intermediate

/-- The symbols of the section with the given index. -/
def symbolsIn (x : Intermediate) (i : Nat) : List Symbol := x.symbols.filter (·.sectionIndex == i)

/-- **A well-typed intermediate**: symbols are listed section by section, and all sections are well
typed. -/
structure WellTyped (x : Intermediate) : Prop where
  ordered : x.symbols.Pairwise (·.sectionIndex ≤ ·.sectionIndex)
  indexed : ∀ s ∈ x.symbols, s.sectionIndex < x.sections.length
  sections : ∀ (i : Nat) (s : Section), x.sections[i]? = some s → s.WellTyped (x.symbolsIn i)

end Intermediate

/-! ### What is called for -/

namespace Run

variable {extensions : List Extension} {r : Run} {l : List Step}

/-- The symbols that are called for while steps are run. -/
def definitions (extensions : List Extension) (r : Run) (l : List Step) : List Definition :=
  ((r.events extensions l).filterMap Event.symbol?).map (·.2)

theorem not_halted_of_append {l' : List Step} (hr : r.halted = none)
    (h : (r.steps extensions (l ++ l')).halted = none) : (r.steps extensions l).halted = none := by
  rw [steps_append hr] at h
  split_ifs at h with hl
  · exact h
  · simpa using hl

theorem definitions_append {l' : List Step} (hr : r.halted = none)
    (h : (r.steps extensions l).halted = none) : r.definitions extensions (l ++ l') =
      r.definitions extensions l ++ (r.steps extensions l).definitions extensions l' := by
  simp [definitions, events_append hr, h]

/-- A hook defines extension data only. -/
theorem kind_of_mem_hookEvents (node : Offer) (hook : Hook) {e : Event}
    (he : e ∈ r.hookEvents node hook) : ∀ x ∈ e.symbol?, x.2.2.kind = .extensionData := by
  induction hook generalizing r with
  | done handled => cases he
  | report d next ih => exact ih he
  | emit id definition fields next ih =>
    rw [hookEvents] at he
    split at he
    · exact ih he
    · rcases List.mem_cons.mp he with rfl | he
      · rintro _ ⟨⟩
        rfl
      · exact ih he
  | refer s next ih =>
    rcases List.mem_cons.mp he with rfl | he
    · rintro _ ⟨⟩
    · exact ih he
  | group g next ih =>
    rcases List.mem_cons.mp he with rfl | he
    · rintro _ ⟨⟩
    · exact ih he
  | observe next ih => exact ih _ he

end Run

/-- Whether a symbol is defined by a rule, and not by a hook. -/
def Definition.isOwn (d : Definition) : Bool := d.2.kind != .extensionData

namespace Run

variable {extensions : List Extension} {r : Run} {l : List Step}

theorem filter_stepEvents (r : Run) (s : Step) :
    (((r.stepEvents extensions s).filterMap Event.symbol?).map (·.2)).filter Definition.isOwn =
      s.symbol?.toList.filter Definition.isOwn := by
  cases s with
  | offer node context =>
    simp only [stepEvents]
    split
    · rfl
    · rw [List.filterMap_cons_none rfl]
      simp only [Step.symbol?, Option.toList_none, List.filter_nil, List.filter_eq_nil_iff,
        List.forall_mem_map, List.mem_filterMap, forall_exists_index, and_imp]
      intro x e he hx
      simp [Definition.isOwn, kind_of_mem_hookEvents node _ he x hx]
  | _ => rfl

/-- **Beside extension data, what is called for is what the steps define.** -/
theorem filter_definitions (h : (r.steps extensions l).halted = none) :
    (r.definitions extensions l).filter Definition.isOwn =
      (l.filterMap Step.symbol?).filter Definition.isOwn := by
  induction l generalizing r with
  | nil => rfl
  | cons s l ih =>
    obtain ⟨hs, heq⟩ := steps_cons_of_not_halted h
    rw [heq] at h
    have hcons : (s :: l).filterMap Step.symbol? = s.symbol?.toList ++ l.filterMap Step.symbol? := by
      cases hs : s.symbol? <;> simp [hs]
    have hevents : r.definitions extensions (s :: l) =
        ((r.stepEvents extensions s).filterMap Event.symbol?).map (·.2) ++
          (r.step extensions s).definitions extensions l := by
      simp [definitions, events, hs]
    rw [hevents, hcons, List.filter_append, List.filter_append, filter_stepEvents, ih h]

theorem kind_or_mem_of_mem_definitions (h : (r.steps extensions l).halted = none) {d : Definition}
    (hd : d ∈ r.definitions extensions l) :
    d.2.kind = .extensionData ∨ d ∈ l.filterMap Step.symbol? := by
  by_cases hk : d.2.kind = .extensionData
  · exact .inl hk
  · have hmem : d ∈ (r.definitions extensions l).filter Definition.isOwn :=
      List.mem_filter.mpr ⟨hd, by simpa [Definition.isOwn] using hk⟩
    rw [filter_definitions h] at hmem
    exact .inr (List.mem_filter.mp hmem).1

theorem countKind_definitions (h : (r.steps extensions l).halted = none) {kind : SymbolKind}
    (hk : kind ≠ .extensionData) : countKind kind (r.definitions extensions l) =
      countKind kind (l.filterMap Step.symbol?) := by
  have hfilter : ∀ ds : List Definition, countKind kind (ds.filter Definition.isOwn) =
      countKind kind ds := by
    intro ds
    simp only [countKind, List.countP_filter]
    refine List.countP_congr fun d _ => ?_
    simp only [Definition.isOwn, Bool.and_eq_true, decide_eq_true_eq, bne_iff_ne, and_iff_left_iff_imp]
    rintro rfl
    exact hk
  rw [← hfilter, filter_definitions h, hfilter]

end Run

/-! ### Section by section -/

/-- A symbol in the section with the given index. -/
def Definition.inSection (i : Nat) (d : Definition) : Symbol := ⟨d.1, i, d.2⟩

/-- The symbols of some sections, the first of which has the given index. -/
def Symbol.spread (n : Nat) : List (List Definition) → List Symbol
  | [] => []
  | ds :: batches => ds.map (·.inSection n) ++ spread (n + 1) batches

namespace Symbol

theorem index_of_mem_spread {batches : List (List Definition)} {n : Nat} {s : Symbol}
    (h : s ∈ spread n batches) : n ≤ s.sectionIndex ∧ s.sectionIndex < n + batches.length := by
  induction batches generalizing n with
  | nil => cases h
  | cons ds batches ih =>
    rw [List.length_cons]
    rcases List.mem_append.mp h with h | h
    · obtain ⟨d, -, rfl⟩ := List.mem_map.mp h
      simp only [Definition.inSection]
      omega
    · have := ih h
      omega

theorem pairwise_spread (batches : List (List Definition)) (n : Nat) :
    (spread n batches).Pairwise (·.sectionIndex ≤ ·.sectionIndex) := by
  induction batches generalizing n with
  | nil => exact .nil
  | cons ds batches ih =>
    rw [spread, List.pairwise_append]
    refine ⟨?_, ih (n + 1), ?_⟩
    · rw [List.pairwise_map]
      exact List.pairwise_of_forall fun _ _ => Nat.le_refl n
    · intro s hs s' hs'
      obtain ⟨d, -, rfl⟩ := List.mem_map.mp hs
      have := (index_of_mem_spread hs').1
      simp only [Definition.inSection]
      omega

theorem filter_spread (batches : List (List Definition)) (n i : Nat) :
    (spread n batches).filter (·.sectionIndex == n + i) =
      (batches[i]?.getD []).map (·.inSection (n + i)) := by
  induction batches generalizing n i with
  | nil => simp [spread]
  | cons ds batches ih =>
    rw [spread, List.filter_append]
    cases i with
    | zero =>
      have hrest : (spread (n + 1) batches).filter (·.sectionIndex == n + 0) = [] := by
        rw [List.filter_eq_nil_iff]
        intro s hs
        have := (index_of_mem_spread hs).1
        simp only [beq_iff_eq]
        omega
      rw [hrest, List.append_nil, List.filter_eq_self.mpr]
      · simp
      · exact List.forall_mem_map.mpr fun d _ => by simp [Definition.inSection]
    | succ i =>
      have hfirst : (ds.map (·.inSection n)).filter (·.sectionIndex == n + (i + 1)) = [] := by
        rw [List.filter_eq_nil_iff]
        exact List.forall_mem_map.mpr fun d _ => by simp [Definition.inSection]
      rw [hfirst, List.nil_append, show n + (i + 1) = n + 1 + i by omega, ih]
      rfl

theorem spread_append (n : Nat) (batches batches' : List (List Definition)) :
    spread n (batches ++ batches') =
      spread n batches ++ spread (n + batches.length) batches' := by
  induction batches generalizing n with
  | nil => rfl
  | cons ds batches ih =>
    rw [List.cons_append, spread, spread, ih, List.append_assoc, List.length_cons,
      show n + 1 + batches.length = n + (batches.length + 1) by omega]

/-- Symbols are those that are spread over sections if they are asked for like that. -/
theorem eq_spread {symbols : List Symbol} {batches : List (List Definition)} {n : Nat}
    (h : symbols.map asked = (spread n batches).map asked) : symbols = spread n batches := by
  refine List.map_injective_iff.mpr ?_ h
  rintro ⟨id, i, data⟩ ⟨id', i', data'⟩ heq
  simpa [asked, and_left_comm] using heq

end Symbol

namespace Run

variable (extensions : List Extension) {r : Run}

/-- The symbols that are called for while each of the sections is open, with the headers of these. -/
def batches (r : Run) : List TopBlock → List (UnitHeader × List Definition)
  | [] => []
  | block :: blocks =>
    block.header.toList.map (·, r.definitions extensions block.steps) ++
      (r.steps extensions block.steps).batches blocks

theorem map_header_batches (r : Run) (blocks : List TopBlock) :
    (r.batches extensions blocks).map (·.1) = blocks.filterMap (·.header) := by
  induction blocks generalizing r with
  | nil => rfl
  | cons block blocks ih =>
    rw [batches, List.map_append, ih]
    cases h : block.header <;> simp [h]

/-- The symbols that calls ask for in an open section. -/
theorem symbol_of_belongs {site : Site} {header : Option UnitHeader} {n : Nat} {es : List Event}
    (h : ∀ e ∈ es, e.Belongs site (header.map (⟨n, ·⟩))) : es.filterMap Event.symbol? =
      (Symbol.spread n
        (header.toList.map fun _ => (es.filterMap Event.symbol?).map (·.2))).map Symbol.asked := by
  cases header with
  | none =>
    simp only [Option.toList_none, List.map_nil, Symbol.spread, List.filterMap_eq_nil_iff]
    rintro ⟨active, call⟩ he
    cases call with
    | symbol id data => exact absurd ((h _ he).symbol id data rfl) (by simp)
    | _ => rfl
  | some header =>
    simp only [Option.toList_some, List.map_cons, List.map_nil, Symbol.spread, List.append_nil,
      List.map_map]
    have hindex : ∀ x ∈ es.filterMap Event.symbol?, x = (some n, x.2) := by
      intro x hx
      obtain ⟨⟨active, call⟩, he, hcall⟩ := List.mem_filterMap.mp hx
      have hactive := (h _ he).active
      cases call with
      | symbol id data =>
        cases hcall
        simp only at hactive
        simp [hactive]
      | _ => cases hcall
    conv_lhs => rw [← List.map_id (es.filterMap Event.symbol?)]
    exact List.map_congr_left hindex

/-- **The calls of a run come in batches**, one for each section that is opened. -/
theorem symbol_events_blocks {blocks : List TopBlock} (hr : r.Ready false)
    (hh : (r.steps extensions (blocks.map (·.steps)).flatten).halted = none) :
    (r.events extensions (blocks.map (·.steps)).flatten).filterMap Event.symbol? =
      (Symbol.spread r.intermediate.sections.length
        ((r.batches extensions blocks).map (·.2))).map Symbol.asked := by
  induction blocks generalizing r with
  | nil => rfl
  | cons block blocks ih =>
    obtain ⟨-, hsections, hevents⟩ := steps_of_block extensions block.block hr
    rw [List.map_cons, List.flatten_cons] at hh ⊢
    have hfirst := not_halted_of_append hr.halted hh
    have hr' := (hr.steps extensions (.of_block block.block)).resolve_left (by simp [hfirst])
    rw [steps_append hr.halted] at hh
    simp only [hfirst, Option.isSome_none, Bool.false_eq_true, ↓reduceIte] at hh
    rw [events_append hr.halted, List.filterMap_append, symbol_of_belongs hevents]
    simp only [hfirst, Option.isSome_none, Bool.false_eq_true, ↓reduceIte]
    rw [ih hr' hh, hsections, batches, List.map_append, Symbol.spread_append, List.map_append]
    simp [definitions, Function.comp_def]

/-- Each batch is what the steps of a block call for, in some state on the way. -/
theorem exists_block_of_mem_batches {blocks : List TopBlock} (hr : r.Ready false)
    (hh : (r.steps extensions (blocks.map (·.steps)).flatten).halted = none) {header : UnitHeader}
    {ds : List Definition} (h : (header, ds) ∈ r.batches extensions blocks) :
    ∃ block ∈ blocks, ∃ r' : Run, block.header = some header ∧ r'.halted = none ∧
      (r'.steps extensions block.steps).halted = none ∧
      ds = r'.definitions extensions block.steps := by
  induction blocks generalizing r with
  | nil => cases h
  | cons block blocks ih =>
    rw [List.map_cons, List.flatten_cons] at hh
    have hfirst := not_halted_of_append hr.halted hh
    have hr' := (hr.steps extensions (.of_block block.block)).resolve_left (by simp [hfirst])
    rw [steps_append hr.halted] at hh
    simp only [hfirst, Option.isSome_none, Bool.false_eq_true, ↓reduceIte] at hh
    rcases List.mem_append.mp h with h | h
    · obtain ⟨header', hheader, heq⟩ := List.mem_map.mp h
      cases heq
      exact ⟨block, List.mem_cons_self, r, by simpa using hheader, hr.halted, hfirst, rfl⟩
    · obtain ⟨block', hmem, hrest⟩ := ih hr' hh h
      exact ⟨block', List.mem_cons_of_mem _ hmem, hrest⟩

/-- A section is well typed if the steps for it are those of a unit. -/
theorem wellTyped_definitions {header : UnitHeader} {l : List Step} (hl : UnitSteps header l)
    (hr : r.halted = none) (hh : (r.steps extensions l).halted = none) (k : UInt32) (i : Nat) :
    (header.toSection k).WellTyped ((r.definitions extensions l).map (·.inSection i)) := by
  have hmem : ∀ d ∈ r.definitions extensions l,
      d.2.kind = .extensionData ∨ d ∈ l.filterMap Step.symbol? :=
    fun d hd => kind_or_mem_of_mem_definitions hh hd
  refine ⟨fun kind hk => ?_, fun hf => ?_, ?_, fun hbundle kind hk => ?_, ?_⟩
  · obtain ⟨before, id, data, rfl, hdata, hid, hbefore⟩ := hl.unit kind hk
    have hhalted := not_halted_of_append hr hh
    have hlast : (r.steps extensions before).definitions extensions [.emit id data, .closeUnit] =
        [(id, data)] := by
      simp only [definitions, events, stepEvents]
      split_ifs <;> rfl
    refine ⟨(r.definitions extensions before).map (·.inSection i), ⟨id, i, data⟩, ?_, hdata, hid,
      List.forall_mem_map.mpr fun d hd => ?_⟩
    · rw [definitions_append hr hhalted, hlast, List.map_append]
      rfl
    · rcases kind_or_mem_of_mem_definitions hhalted hd with hk | hk
      · simp only [Definition.inSection, Symbol.kind, hk]
        decide
      · exact hbefore d hk
  · refine List.forall_mem_map.mpr fun d hd => ?_
    rcases hmem d hd with hk | hk
    · simp only [Definition.inSection, Symbol.kind, hk]
      decide
    · exact hl.fragment hf d hk
  · exact List.forall_mem_map.mpr fun d hd => (hmem d hd).imp_right (hl.kinds d)
  · have hne : kind ≠ .extensionData := by
      rintro rfl
      revert hk
      decide
    rw [List.countP_map]
    exact Nat.le_trans (Nat.le_of_eq (countKind_definitions hh hne)) (hl.sole hbundle kind hk)
  · refine List.forall_mem_map.mpr fun d hd => ?_
    rcases hmem d hd with hk | hk
    · exact Symbol.Data.suits_of_kind _ (by rw [Definition.inSection, hk]; decide)
    · exact hl.suits d hk

end Run

namespace Compile

theorem Scoped.flatten {b : Bool} {ls : List (List Step)} (h : ∀ l ∈ ls, Scoped b l b) :
    Scoped b ls.flatten b := by
  induction ls with
  | nil => exact .nil
  | cons l ls ih =>
    rw [List.flatten_cons]
    exact (h l List.mem_cons_self).append (ih fun l hl => h l (List.mem_cons_of_mem _ hl))

theorem scoped_rootSteps (root : Element) : Scoped false (rootSteps root) false :=
  .of_forall fun s hs => .outer (rootSteps_outer root s hs).1

theorem scoped_parts (config : Config) (root : Element) :
    Scoped false (parts config root).flatten false := by
  refine .flatten fun l hl => ?_
  rcases List.mem_cons.mp hl with rfl | hl
  · exact scoped_rootSteps root
  · obtain ⟨block, -, rfl⟩ := List.mem_map.mp hl
    exact .of_block block.block

theorem exists_child_of_mem_topBlocks {config : Config} {root : Element} {block : TopBlock}
    (h : block ∈ topBlocks config root) : ∃ i child,
      block.header = sectionHeader? config root i child ∧
        block.steps = childSteps config root i child := by
  obtain ⟨i, hi, rfl⟩ := List.mem_mapIdx.mp h
  exact ⟨i, _, rfl, rfl⟩

end Compile

namespace Compiler

variable {c : Compiler} {k : UInt32} {root : Element} {o : Output}

/-- What comes before the children of the document element defines nothing. -/
theorem steps_root (c : Compiler) (k : UInt32) (root : Element) :
    Run.Extends { compilation := k }
      (Run.steps c.extensions { compilation := k } (rootSteps root)) ∧
    (Run.events c.extensions { compilation := k } (rootSteps root)).filterMap Event.symbol? = [] := by
  obtain ⟨hextends, hevents⟩ := steps_rootSteps { c with next := k } root
  exact ⟨hextends, @Run.symbol_of_belongs _ none 0 _ hevents⟩

/-- The symbols of an output come in batches, each of which is well typed in its section. -/
theorem exists_batches (h : (c.compileAs k root).result = .ok o) (hs : o.isSuccess) :
    ∃ batches : List (UnitHeader × List Definition),
      o.intermediate.sections = batches.map (·.1.toSection k) ∧
      o.intermediate.symbols = Symbol.spread 0 (batches.map (·.2)) ∧
      ∀ b ∈ batches, ∀ i, (b.1.toSection k).WellTyped (b.2.map (·.inSection i)) := by
  have hsections := sections_of_success { c with next := k } root h
    (by simpa [Output.isSuccess] using hs)
  obtain ⟨hh, rfl⟩ := Run.result_eq_ok_iff.mp h
  have he : (Run.steps c.extensions { compilation := k } (plan c.config root)).hasErrors = false := by
    simpa [Output.isSuccess, Run.hasErrors] using hs
  have hrecords := Run.steps_records c.extensions (scoped_plan c.config root) (Run.ready_start k)
  have hsymbols := hrecords.symbols he
  -- the plan is run part by part, first the document element itself and then its children
  have halike := alike_parts c.config root
  rw [halike.events _ _ rfl, parts, List.flatten_cons, Run.events_append rfl] at hsymbols
  rw [halike.steps _ _ rfl] at hh he
  have hsmooth := Run.smooth_of_not_hasErrors (scoped_parts c.config root) (Run.ready_start k) hh he
  obtain ⟨hroot, hnone⟩ := steps_root c k root
  rw [parts, List.flatten_cons] at hh
  have hfirst := Run.not_halted_of_append rfl hh
  have hready := (Run.ready_start k).of_extends hroot (by simp [hfirst])
  rw [Run.steps_append rfl] at hh
  simp only [hfirst, Option.isSome_none, Bool.false_eq_true, ↓reduceIte] at hh hsymbols
  refine ⟨(Run.steps c.extensions { compilation := k } (rootSteps root)).batches c.extensions
    (topBlocks c.config root), ?_, ?_, ?_⟩
  · rw [hsections, ← Run.map_header_batches c.extensions
      (Run.steps c.extensions { compilation := k } (rootSteps root)), List.map_map]
    rfl
  · rw [Run.settle_of_not_hasErrors (by rwa [halike.steps _ _ rfl])]
    refine Symbol.eq_spread ?_
    rw [hsymbols, List.filterMap_append, hnone, Run.symbol_events_blocks _ hready hh, hroot.sections]
    rfl
  · rintro ⟨header, ds⟩ hb i
    obtain ⟨block, hmem, r', hheader, hr', hhalted, rfl⟩ :=
      Run.exists_block_of_mem_batches _ hready hh hb
    obtain ⟨j, child, hchild, hsteps⟩ := exists_child_of_mem_topBlocks hmem
    have hblock : ∀ s ∈ block.steps, s.Smooth := by
      intro s hs
      refine hsmooth s (List.mem_flatten.mpr ⟨block.steps, ?_, hs⟩)
      exact List.mem_cons_of_mem _ (List.mem_map_of_mem hmem)
    rw [hsteps] at hblock hhalted ⊢
    obtain ⟨rule, body, l, inner, hwalk, heq⟩ := exists_unitWalk hblock (hchild ▸ hheader)
    exact Run.wellTyped_definitions _ (heq ▸ hwalk.unitSteps) hr' hhalted k i

/-- **Sections are well typed**, with any extensions. An output with errors has no sections. -/
theorem compileAs_wellTyped (c : Compiler) (k : UInt32) (root : Element) (o : Output)
    (h : (c.compileAs k root).result = .ok o) : o.intermediate.WellTyped := by
  by_cases hs : o.isSuccess
  · obtain ⟨batches, hsections, hsymbols, htyped⟩ := exists_batches h hs
    refine ⟨?_, fun s hmem => ?_, fun i s hi => ?_⟩
    · rw [hsymbols]
      exact Symbol.pairwise_spread _ 0
    · rw [hsymbols] at hmem
      have := (Symbol.index_of_mem_spread hmem).2
      simpa [hsections] using this
    · rw [hsections, List.getElem?_map, Option.map_eq_some_iff] at hi
      obtain ⟨b, hb, rfl⟩ := hi
      have hin : o.intermediate.symbolsIn i = b.2.map (·.inSection i) := by
        have hfilter := Symbol.filter_spread (batches.map (·.2)) 0 i
        rw [Nat.zero_add, List.getElem?_map, hb] at hfilter
        rw [Intermediate.symbolsIn, hsymbols]
        exact hfilter
      rw [hin]
      exact htyped b (List.mem_of_getElem? hb) i
  · rw [intermediate_eq_empty h hs]
    exact ⟨.nil, by simp, by simp⟩

end Compiler

namespace Sample

/-- A module and a bundle, both with a foreign note. -/
def suite : Element :=
  element "Wix" [] [
    element "Module" [("Id", "M"), ("Version", "1.0")] [
      element "Component" [("Id", "C"), ("Guid", "*")] [],
      .node (tag "notes" "Note" []) [],
      element "InstallExecuteSequence" [] [
        element "InstallFiles" [("Sequence", "4000")] []]],
    element "Bundle" [("Id", "B"), ("Version", "1.0")] [
      element "Chain" [] [
        element "MsiPackage" [("Id", "Tool"), ("SourceFile", "tool.msi")] []],
      element "Log" [("Prefix", "tool")] [],
      .node (tag "notes" "Note" []) []]]

end Sample

/-- The module has four symbols, the last of which is its signature, and the bundle has six. -/
theorem compileAs_wellTyped_suite : ∃ o,
    (Sample.notingCompiler.compileAs 0 Sample.suite).result = .ok o ∧
      (o.intermediate.symbolsIn 0).map Symbol.kind =
        [.component, .extensionData, .action, .moduleSignature] ∧
      (o.intermediate.symbolsIn 1).map Symbol.kind =
        [.payload, .package, .chain, .bundleLog, .extensionData, .bundle] ∧
      o.intermediate.WellTyped := by
  have h : (Sample.notingCompiler.compileAs 0 Sample.suite).result = .ok _ := rfl
  exact ⟨_, h, by decide +kernel, by decide +kernel,
    Compiler.compileAs_wellTyped Sample.notingCompiler 0 Sample.suite _ h⟩

end Installer
