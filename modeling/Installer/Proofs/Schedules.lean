import Installer.Proofs.Announcements
import Installer.Proofs.Promises

/-! # Schedules

An action is scheduled at a number, at an end of its sequence, or before or after another action. Which
attributes say so is counted by their names, while the symbol is made of what they are read as; for an
element without errors the two numbers agree (`ways_of_passes`), and so a schedule is never ambiguous
(`Site.Schedules`). An action that is suppressed has no schedule and refers to nothing (`Site.Suppresses`).
The elements that symbols and references stem from are told by the paths of `ascribed`. -/

namespace Installer

open Compile Planned Element

/-! ### The steps at a path -/

/-- What defines a symbol is one of the steps for an element that is opened, goes through its children and is
closed. -/
theorem exists_opened {config : Config} {root : Element} (h : ∀ s ∈ plan config root, s.Smooth)
    {path : List Nat} {s : Step} (hmem : (path, s) ∈ ascribed config root) (hs : s.symbol?.isSome) :
    ∃ site rule unit scope inner body l, (Site.root root).descend? path = some site ∧
      Rule.named? site.element.name = some rule ∧
      (rule.open ⟨config, unit⟩ scope site).All Step.Smooth ∧
      (rule.open ⟨config, unit⟩ scope site).value.body = some body ∧
      (∀ s ∈ l, Dispatches site body.scope.context s) ∧
      atPath path (ascribed config root) =
        (rule.open ⟨config, unit⟩ scope site).log ++ (l ++ body.close inner) := by
  have hsmooth : ∀ s ∈ atPath path (ascribed config root), s.Smooth := fun s hs =>
    h s (map_ascribed config root ▸ mem_of_mem_atPath hs)
  obtain ⟨id, data, rfl⟩ : ∃ id data, s = .emit id data := by
    cases s with
    | emit id data => exact ⟨id, data, rfl⟩
    | _ => cases hs
  obtain ⟨site, hsite, hvisit⟩ := exists_visit_of_emit hmem
  generalize atPath path (ascribed config root) = steps at hvisit hsmooth
  cases hvisit with
  | left hcore hname hbody =>
    obtain ⟨body, hsome⟩ := exists_body_of_smooth hsmooth
    rw [hbody] at hsome
    cases hsome
  | @entered rule unit scope inner body l hcore hname hbody hl =>
    exact ⟨site, rule, unit, scope, inner, body, l, hsite, hname,
      fun s hs => hsmooth s (List.mem_append_left _ hs), hbody, hl, rfl⟩

/-! ### Actions without errors -/

/-- The element of a scheduled action has no errors and is in the given table. -/
structure Acts (kind : ActionKind) (e : Element) (table : Symbol.SequenceTable) : Prop where
  interface : kind = .dialog → table.sequence.isInterface
  passes : e.Passes (actionChecks kind)
  findings : ∀ d ∈ scheduleFindings kind e (actionName kind e), d.isError = false

/-- All that an action defines and refers to comes when its element is closed. -/
theorem acts_of_smooth {kind : ActionKind} {scope : Scope} {site : Site} {body : Body}
    (h : (openAction kind scope site).All Step.Smooth)
    (hb : (openAction kind scope site).value.body = some body) :
    ∃ table, Acts kind site.element table ∧
      (∀ inner, body.close inner =
        actionSteps kind site.element table (actionName kind site.element)) ∧
      (openAction kind scope site).collect Step.symbol? = [] ∧
      (openAction kind scope site).collect Step.reference? = [] := by
  cases hp : scope.parent with
  | sequence table =>
    by_cases hrefused : kind == .dialog && !table.sequence.isInterface
    · simp [openAction, hp, hrefused, refuse] at hb
    · simp only [openAction, hp, hrefused, Bool.false_eq_true, ↓reduceIte, Logged.all_bind] at h hb ⊢
      cases hb
      obtain ⟨hchecks, -, hfindings, -⟩ := h
      refine ⟨table, ⟨fun hk => ?_, passes_of_smooth hchecks, fun d hd => ?_⟩, fun _ => rfl, ?_, ?_⟩
      · simpa [hk] using hrefused
      · exact hfindings (.report d) (by simpa [report] using hd)
      · simp [collect_leaf, Step.symbol?]
      · simp [collect_leaf, Step.reference?]
  | _ => simp [openAction, hp, refuse] at hb

/-! ### Ways to schedule an action -/

/-- In how many ways an action is scheduled. -/
def Symbol.Action.ways (a : Symbol.Action) : Nat :=
  a.sequence.toList.length + a.before.toList.length + a.after.toList.length

section Ways
variable {kind : ActionKind} {e : Element}

theorem mem_authoredScheduling {name : String} : name ∈ authoredScheduling kind e ↔
    e.has name ∧ name ∈ schedulingNames ∧ ¬ (kind = .standard ∧ name = "OnExit") := by
  simp only [authoredScheduling, List.mem_filter, List.mem_map, has_iff, Bool.and_eq_true,
    List.contains_iff_mem, Bool.not_eq_true', Bool.and_eq_false_iff, beq_eq_false_iff_ne]
  tauto

theorem isSome_value?_iff {checks : List (String × Check)} {α : Type} {f : Field α} {P : α → Prop}
    (hp : e.Passes checks) (hc : Reads checks f) (hf : f.read.Of P) :
    (e.value? f).isSome ↔ e.has f.name := by
  constructor
  · intro h
    obtain ⟨v, hv⟩ := Option.isSome_iff_exists.mp h
    exact has_of_value? hv
  · intro h
    obtain ⟨v, hv, -⟩ := hp.exists_value? hc hf h
    rw [hv, Option.isSome_some]

theorem isSome_sequenceNumber (hp : e.Passes (actionChecks kind)) :
    (sequenceNumber kind e).isSome ↔
      "Sequence" ∈ authoredScheduling kind e ∨ "OnExit" ∈ authoredScheduling kind e := by
  have hexit : ∀ k : ActionKind, k ≠ .standard →
      Reads (actionChecks k) (Field.choice SequenceEnd "OnExit") := by
    intro k hk
    cases k with
    | standard => exact absurd rfl hk
    | _ => rfl
  have hsequence : Reads (actionChecks kind) sequenceField := by cases kind <;> rfl
  have hnumber : (e.value? sequenceField).isSome ↔ e.has "Sequence" :=
    isSome_value?_iff hp hsequence (Field.of_integer _ _ _)
  rw [mem_authoredScheduling, mem_authoredScheduling, sequenceNumber, Option.isSome_or,
    Bool.or_eq_true, hnumber]
  by_cases hk : kind = .standard
  · simp [hk, schedulingNames]
  · have hend : (e.value? (.choice SequenceEnd "OnExit")).isSome ↔ e.has "OnExit" :=
      isSome_value?_iff hp (hexit kind hk) (Field.of_choice _ _)
    simp [hk, schedulingNames, hend]

theorem isSome_relative (hp : e.Passes (actionChecks kind)) {name : String}
    (hn : name = "Before" ∨ name = "After") :
    (e.value? (.reference name)).isSome ↔ name ∈ authoredScheduling kind e := by
  have hread : Reads (actionChecks kind) (Field.reference name) := by
    rcases hn with rfl | rfl <;> cases kind <;> rfl
  rw [isSome_value?_iff hp hread (Field.of_reference _), mem_authoredScheduling]
  rcases hn with rfl | rfl <;> simp [Field.reference, schedulingNames]

/-- **As many ways as attributes.** -/
theorem ways_of_passes (hp : e.Passes (actionChecks kind))
    (hlength : (authoredScheduling kind e).length ≤ 1) :
    (sequenceNumber kind e).toList.length + (e.value? (.reference "Before")).toList.length +
      (e.value? (.reference "After")).toList.length = (authoredScheduling kind e).length := by
  have hcount : ∀ {α : Type} {o : Option α} {p : Prop} [Decidable p], (o.isSome ↔ p) →
      o.toList.length = if p then 1 else 0 := by
    intro α o p _ h
    cases o <;> simp_all
  rw [hcount (isSome_sequenceNumber hp), hcount (isSome_relative hp (.inl rfl)),
    hcount (isSome_relative hp (.inr rfl))]
  cases hauthored : authoredScheduling kind e with
  | nil => simp
  | cons name rest =>
    obtain rfl : rest = [] := by
      rw [hauthored] at hlength
      simpa using hlength
    -- the one attribute is one of four
    have hname : name ∈ schedulingNames :=
      (mem_authoredScheduling.mp (hauthored ▸ List.mem_cons_self)).2.1
    simp only [schedulingNames, List.mem_cons, List.not_mem_nil, or_false] at hname
    rcases hname with rfl | rfl | rfl | rfl <;> simp

/-- An action that is not suppressed is scheduled in at most one way, and in one way if it is no standard
action. -/
theorem length_authoredScheduling {action : String} (hs : e.isSuppressed = false)
    (h : ∀ d ∈ scheduleFindings kind e action, d.isError = false) :
    (authoredScheduling kind e).length ≤ 1 ∧
      (kind ≠ .standard → (authoredScheduling kind e).length = 1) := by
  simp only [scheduleFindings, value?_suppress, hs, Bool.false_eq_true, ↓reduceIte] at h
  rcases hauthored : authoredScheduling kind e with _ | ⟨first, _ | ⟨second, rest⟩⟩
  · by_cases hk : kind = .standard
    · simp [hk]
    · simp [hauthored, hk] at h
  · simp
  · simp [hauthored] at h

/-- An action that is suppressed has no schedule. -/
theorem authoredScheduling_eq_nil {action : String} (hs : e.isSuppressed)
    (h : ∀ d ∈ scheduleFindings kind e action, d.isError = false) :
    authoredScheduling kind e = [] := by
  unfold scheduleFindings at h
  simp only [value?_suppress, hs, ↓reduceIte] at h
  cases hauthored : authoredScheduling kind e with
  | nil => rfl
  | cons name rest => simp [hauthored] at h

/-- An action that is relative to itself is found. -/
theorem exists_selfRelative {action name : String} (haction : Identifier.IsName action)
    (h : e.value? (.reference name) = some action) :
    ∃ d, selfRelative e action name = [d] ∧ d.isError := by
  obtain ⟨a, hlast, hread⟩ := exists_read_of_value? h
  dsimp only [Field.reference] at hlast hread
  have hempty : action.isEmpty = false := by
    obtain ⟨c, cs, hcs, -⟩ := haction
    simp [← String.toList_eq_nil_iff, hcs]
  refine ⟨e.illegalValueBecause a "an action cannot be scheduled relative to itself", ?_, rfl⟩
  simp only [selfRelative, hlast, hempty, hread]
  simp

/-- An action is not scheduled relative to itself. -/
theorem relative_ne {action name : String} (hn : name = "Before" ∨ name = "After")
    (hs : e.isSuppressed = false) (haction : Identifier.IsName action)
    (h : ∀ d ∈ scheduleFindings kind e action, d.isError = false) :
    e.value? (.reference name) ≠ some action := by
  intro hv
  obtain ⟨d, hself, herror⟩ := exists_selfRelative haction hv
  have hmem : d ∈ scheduleFindings kind e action := by
    simp only [scheduleFindings, value?_suppress, hs, Bool.false_eq_true, ↓reduceIte,
      List.mem_append]
    rcases hn with rfl | rfl
    · exact .inl (.inr (by simp [hself]))
    · exact .inr (by simp [hself])
  rw [h d hmem] at herror
  cases herror

end Ways

/-! ### Symbols of actions -/

/-- The schedule of an action that is not suppressed is unambiguous. It is in one way that the element of a
custom action or of a dialog has its place in the sequence, and standard actions may leave it open. -/
structure Site.Schedules (s : Site) (id : Identifier) (a : Symbol.Action) : Prop where
  ways_le : a.ways ≤ 1
  ways_eq : s.element.name = "Custom" ∨ s.element.name = "Show" → a.ways = 1
  sequence : ∀ n ∈ a.sequence, (1 ≤ n ∧ n ≤ 32767) ∨
    (s.element.name = "Custom" ∨ s.element.name = "Show") ∧ -4 ≤ n ∧ n ≤ -1
  before : a.before ≠ some a.action
  after : a.after ≠ some a.action
  id : id.id = a.table.name ++ "." ++ a.action
  action : Identifier.IsName a.action
  interface : s.element.name = "Show" → a.table.sequence.isInterface

/-- An action is suppressed by an element that says so and does not schedule it. -/
structure Site.Suppresses (s : Site) (id : Identifier) (a : Symbol.SuppressAction) : Prop where
  suppressed : s.element.isSuppressed
  unscheduled : ∀ name ∈ ["Sequence", "OnExit", "Before", "After"], ¬ s.element.has name
  id : id.id = a.table.name ++ "." ++ a.action
  action : Identifier.IsName a.action
  interface : s.element.name = "Show" → a.table.sequence.isInterface

/-- The names of the elements that are no standard actions. -/
theorem ActionKind.of_named? {name : String} {kind : ActionKind}
    (h : Rule.named? name = some (.action kind)) :
    (name = "Custom" ↔ kind = .custom) ∧ (name = "Show" ↔ kind = .dialog) := by
  obtain ⟨content, hgives⟩ := Rule.exists_gives_of_named? h
  have hscheduling := schedulingOf?_of_gives hgives
  by_cases hcustom : name = "Custom"
  · cases kind <;> simp_all [schedulingOf?, Rule.scheduling?]
  · by_cases hshow : name = "Show" <;> cases kind <;> simp_all [schedulingOf?, Rule.scheduling?]

section Symbols
variable {kind : ActionKind} {e : Element}

/-- The number of an action is in the table, or it stands for an end of the sequence. -/
theorem bounds_of_sequenceNumber {n : Int} (h : sequenceNumber kind e = some n) :
    (1 ≤ n ∧ n ≤ 32767) ∨ kind ≠ .standard ∧ -4 ≤ n ∧ n ≤ -1 := by
  rcases Option.or_eq_some_iff.mp h with hn | ⟨-, hn⟩
  · exact .inl (domain_of_value? (Field.of_integer _ _ _) hn)
  · split_ifs at hn with hk
    obtain ⟨ending, -, rfl⟩ := Option.map_eq_some_iff.mp hn
    exact .inr ⟨hk, by cases ending <;> decide⟩

/-- What an action that is not suppressed defines. -/
theorem symbol_of_not_suppressed (hs : e.isSuppressed = false) (table : Symbol.SequenceTable)
    (action : String) : ∃ a : Symbol.Action, (actionSteps kind e table action).filterMap Step.symbol? =
        [(.ofName (actionId table action), .action a)] ∧
      a.table = table ∧ a.action = action ∧ a.sequence = sequenceNumber kind e ∧
      a.before = e.value? (.reference "Before") ∧ a.after = e.value? (.reference "After") := by
  simp only [actionSteps, value?_suppress, hs, Bool.false_eq_true, ↓reduceIte,
    List.filterMap_append, List.filterMap_map, Function.comp_def, Step.symbol?, List.filterMap_none]
  exact ⟨_, rfl, rfl, rfl, rfl, rfl, rfl⟩

theorem actionSteps_of_suppressed (hs : e.isSuppressed) (table : Symbol.SequenceTable)
    (action : String) : actionSteps kind e table action =
      [.emit (.ofName (actionId table action)) (.suppressAction { table, action })] := by
  simp only [actionSteps, value?_suppress, hs, ↓reduceIte]

variable {site : Site} {table : Symbol.SequenceTable} {id : Identifier}

theorem Acts.schedules (h : Acts kind site.element table)
    (hname : Rule.named? site.element.name = some (.action kind)) {a : Symbol.Action}
    (hmem : (id, .action a) ∈
      (actionSteps kind site.element table (actionName kind site.element)).filterMap Step.symbol?)
    (haction : Identifier.IsName a.action) : site.Schedules id a := by
  cases hs : site.element.isSuppressed with
  | true =>
    rw [actionSteps_of_suppressed hs] at hmem
    simp [Step.symbol?] at hmem
  | false =>
    obtain ⟨a', hsymbols, htable, hnamed, hsequence, hbefore, hafter⟩ :=
      symbol_of_not_suppressed hs table (actionName kind site.element)
    rw [hsymbols] at hmem
    cases List.mem_singleton.mp hmem
    obtain ⟨hcustom, hshow⟩ := ActionKind.of_named? hname
    have hkind : site.element.name = "Custom" ∨ site.element.name = "Show" ↔ kind ≠ .standard := by
      rw [hcustom, hshow]
      cases kind <;> simp
    obtain ⟨hle, heq⟩ := length_authoredScheduling hs h.findings
    have hways : a.ways = (authoredScheduling kind site.element).length := by
      rw [Symbol.Action.ways, hsequence, hbefore, hafter]
      exact ways_of_passes h.passes hle
    rw [hnamed] at haction
    refine ⟨by rwa [hways], fun hn => ?_, fun n hn => ?_, ?_, ?_, ?_, ?_, fun hn => ?_⟩
    · rw [hways]
      exact heq (hkind.mp hn)
    · rw [hkind]
      exact bounds_of_sequenceNumber (hsequence ▸ hn)
    · rw [hbefore, hnamed]
      exact relative_ne (.inl rfl) hs haction h.findings
    · rw [hafter, hnamed]
      exact relative_ne (.inr rfl) hs haction h.findings
    · rw [htable, hnamed]
      rfl
    · rwa [hnamed]
    · rw [htable]
      exact h.interface (hshow.mp hn)

theorem Acts.suppresses (h : Acts kind site.element table)
    (hname : Rule.named? site.element.name = some (.action kind)) {a : Symbol.SuppressAction}
    (hmem : (id, .suppressAction a) ∈
      (actionSteps kind site.element table (actionName kind site.element)).filterMap Step.symbol?)
    (haction : Identifier.IsName a.action) : site.Suppresses id a := by
  cases hs : site.element.isSuppressed with
  | false =>
    obtain ⟨a', hsymbols, -⟩ := symbol_of_not_suppressed hs table (actionName kind site.element)
    rw [hsymbols] at hmem
    cases List.mem_singleton.mp hmem
  | true =>
    rw [actionSteps_of_suppressed hs] at hmem
    cases List.mem_singleton.mp hmem
    have hnil := authoredScheduling_eq_nil hs h.findings
    refine ⟨hs, fun name hn hhas => ?_, rfl, haction, fun hn => ?_⟩
    · by_cases hexit : kind = .standard ∧ name = "OnExit"
      · -- standard actions do not know the attribute
        obtain ⟨rfl, rfl⟩ := hexit
        obtain ⟨a, ha⟩ := exists_last?_iff.mpr hhas
        rw [h.passes.last?_eq_none rfl] at ha
        cases ha
      · have hauthored := mem_authoredScheduling.mpr ⟨hhas, hn, hexit⟩
        rw [hnil] at hauthored
        cases hauthored
    · exact h.interface ((ActionKind.of_named? hname).2.mp hn)

end Symbols

/-- The symbol of an action stems from the element of an action. -/
theorem exists_acts {config : Config} {root : Element} (h : ∀ s ∈ plan config root, s.Smooth)
    {path : List Nat} {id : Identifier} {data : Symbol.Data}
    (hmem : (path, .emit id data) ∈ ascribed config root)
    (hkind : data.kind = .action ∨ data.kind = .suppressAction) :
    ∃ site kind table, (Site.root root).descend? path = some site ∧
      Rule.named? site.element.name = some (.action kind) ∧ Acts kind site.element table ∧
      (id, data) ∈ (actionSteps kind site.element table (actionName kind site.element)).filterMap
        Step.symbol? ∧
      (atPath path (ascribed config root)).filterMap Step.reference? =
        (actionSteps kind site.element table (actionName kind site.element)).filterMap
          Step.reference? := by
  obtain ⟨site, rule, unit, scope, inner, body, l, hsite, hname, hsmooth, hbody, hl, hat⟩ :=
    exists_opened h hmem rfl
  have hdefined : (id, data) ∈ (atPath path (ascribed config root)).filterMap Step.symbol? :=
    List.mem_filterMap.mpr ⟨_, mem_atPath hmem, rfl⟩
  have hreferences : l.filterMap Step.reference? = [] :=
    List.filterMap_eq_nil_iff.mpr fun s hs => by cases hl s hs <;> rfl
  rw [hat, List.filterMap_append, List.filterMap_append, symbol_of_dispatches hl,
    List.nil_append] at hdefined
  have hrule := introduces_open site scope rule ⟨config, unit⟩
  have hkinds : data.kind ∈ rule.asides ∨ data.kind ∈ rule.namesakes := by
    rcases List.mem_append.mp hdefined with hd | hd
    · exact .inl (hrule.log _ hd)
    · exact hrule.kind_of_mem_close hbody hd
  cases rule with
  | action kind =>
    obtain ⟨table, hacts, hclose, hlog, hlog'⟩ := acts_of_smooth hsmooth hbody
    refine ⟨site, kind, table, hsite, hname, hacts, ?_, ?_⟩
    · rw [← hclose inner]
      have hnone : ((Rule.action kind).open ⟨config, unit⟩ scope site).log.filterMap
        Step.symbol? = [] := hlog
      rwa [hnone, List.nil_append] at hdefined
    · have hnone : ((Rule.action kind).open ⟨config, unit⟩ scope site).log.filterMap
        Step.reference? = [] := hlog'
      rw [hat, List.filterMap_append, List.filterMap_append, hnone, hreferences, hclose,
        List.nil_append, List.nil_append]
  | _ =>
    -- other elements define no symbols of these kinds
    rcases hkind with hkind | hkind <;> simp [hkind, Rule.asides, Rule.namesakes] at hkinds

/-- **Schedules are unambiguous.** In a compile that succeeds without extensions the symbols and references
are those of the steps for the elements of the document. An action stems from an element that schedules it
in at most one way, and a suppressed action stems from an element that does not schedule it and contributes
no reference. -/
theorem Compiler.scheduling_unambiguous {c : Compiler} (hc : c.extensions = []) {k : UInt32}
    {root : Element} {o : Output} (h : (c.compileAs k root).result = .ok o) (hs : o.isSuccess) :
    (o.intermediate.symbols.map fun s => (s.id, s.data)) =
      (ascribed c.config root).filterMap (·.2.symbol?) ∧
    o.intermediate.references = (ascribed c.config root).filterMap (·.2.reference?) ∧
    (∀ path id a, (path, .emit id (.action a)) ∈ ascribed c.config root →
      ∃ s, (Site.root root).descend? path = some s ∧ s.Schedules id a) ∧
    ∀ path id a, (path, .emit id (.suppressAction a)) ∈ ascribed c.config root →
      ∃ s, (Site.root root).descend? path = some s ∧ s.Suppresses id a ∧
        ∀ r, (path, .refer r) ∉ ascribed c.config root := by
  have hsmooth := smooth_of_isSuccess h hs
  have hyields := yields_of_isSuccess hc h hs
  have hdomain : ∀ path id data, (path, .emit id data) ∈ ascribed c.config root → data.InDomain := by
    intro path id data hmem
    have hstep : .emit id data ∈ plan c.config root :=
      map_ascribed c.config root ▸ List.mem_map_of_mem hmem
    exact (wellFormed_plan (fun s hs => (hsmooth s hs).clean) _ hstep id data rfl).2
  refine ⟨?_, ?_, fun path id a hmem => ?_, fun path id a hmem => ?_⟩
  · rw [hyields.symbols, ← map_ascribed, List.filterMap_map]
    rfl
  · rw [hyields.references, ← map_ascribed, List.filterMap_map]
    rfl
  · obtain ⟨site, kind, table, hsite, hname, hacts, hsymbol, -⟩ := exists_acts hsmooth hmem (.inl rfl)
    exact ⟨site, hsite, hacts.schedules hname hsymbol (hdomain _ _ _ hmem).1⟩
  · obtain ⟨site, kind, table, hsite, hname, hacts, hsymbol, hreferences⟩ :=
      exists_acts hsmooth hmem (.inr rfl)
    have hsuppresses := hacts.suppresses hname hsymbol (hdomain _ _ _ hmem)
    refine ⟨site, hsite, hsuppresses, fun r hr => ?_⟩
    rw [actionSteps_of_suppressed hsuppresses.suppressed] at hreferences
    have hr' : r ∈ (atPath path (ascribed c.config root)).filterMap Step.reference? :=
      List.mem_filterMap.mpr ⟨_, mem_atPath hr, rfl⟩
    rw [hreferences] at hr'
    cases hr'

namespace Sample

/-- A module with actions that are scheduled in all ways, and one that is suppressed. -/
def scheduling : Element :=
  element "Wix" [] [
    element "Module" [("Id", "M"), ("Language", "1033"), ("Version", "1.0")] [
      element "InstallExecuteSequence" [] [
        element "Custom" [("Action", "Configure"), ("After", "InstallFiles")] [],
        element "Custom" [("Action", "Report"), ("Sequence", "32767")] [],
        element "Custom" [("Action", "Legacy"), ("Suppress", "yes")] [],
        element "InstallFiles" [] []],
      element "AdminUISequence" [] [
        element "Show" [("Dialog", "Goodbye"), ("OnExit", "suspend")] []]]]

end Sample

/-- Each action of the module has its one place, or none if it is suppressed or a standard action. -/
theorem scheduling_unambiguous_scheduling : ∃ o,
    (Compiler.compileAs {} 0 Sample.scheduling).result = .ok o ∧ o.isSuccess ∧
      (o.intermediate.symbols.filterMap fun s => match s.data with
        | .action a => some (s.id.id, a.sequence, a.before, a.after)
        | .suppressAction _ => some (s.id.id, none, none, none)
        | _ => none) = [
          ("ModuleInstallExecuteSequence.Configure", none, none, some "InstallFiles"),
          ("ModuleInstallExecuteSequence.Report", some 32767, none, none),
          ("ModuleInstallExecuteSequence.Legacy", none, none, none),
          ("ModuleInstallExecuteSequence.InstallFiles", none, none, none),
          ("ModuleAdminUISequence.Goodbye", some (-4), none, none)] ∧
      (∀ path id a, (path, .emit id (.action a)) ∈ ascribed {} Sample.scheduling →
        ∃ s, (Site.root Sample.scheduling).descend? path = some s ∧ s.Schedules id a) ∧
      ∀ path id a, (path, .emit id (.suppressAction a)) ∈ ascribed {} Sample.scheduling →
        ∃ s, (Site.root Sample.scheduling).descend? path = some s ∧ s.Suppresses id a ∧
          ∀ r, (path, .refer r) ∉ ascribed {} Sample.scheduling := by
  have h : (Compiler.compileAs {} 0 Sample.scheduling).result = .ok _ := rfl
  obtain ⟨-, -, hactions, hsuppressed⟩ := Compiler.scheduling_unambiguous rfl h (by decide +kernel)
  exact ⟨_, h, by decide +kernel, by decide +kernel, hactions, hsuppressed⟩

end Installer
