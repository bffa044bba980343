import Installer.Proofs.Findings
import Installer.Proofs.Reach

/-! # Delegation

A foreign node is passed on to the extension for its namespace. The journal of a run (`Run.journal`)
tells what became of each node that was offered: which hook was called, what was reported meanwhile and
whether the node was handled. It accounts for all diagnostics and all calls of hooks (`Run.Accounts`),
so that what it says of a successful compile is what happened: each foreign node of each reached element
is passed on once, and the compiler warns about those that are not handled and about no others. -/

namespace Installer

open Compile

/-! ### The extension for a namespace -/

/-- The given extension is the last one that was registered for the namespace, or there is none. -/
def Extension.IsLastFor (extensions : List Extension) (space? : Option String) :
    Option Extension → Prop
  | some e => space? = some e.space ∧ ∃ earlier later, extensions = earlier ++ e :: later ∧
      ∀ x ∈ later, x.space ≠ e.space
  | none => ∀ e ∈ extensions, space? ≠ some e.space

theorem Extension.isLastFor_find? (extensions : List Extension) (space? : Option String) :
    IsLastFor extensions space? (space?.bind (find? extensions)) := by
  cases space? with
  | none => simp [IsLastFor]
  | some space =>
    rw [Option.bind_some]
    cases h : find? extensions space with
    | none =>
      simp only [find?, List.find?_eq_none, List.mem_reverse, beq_iff_eq] at h
      intro e he heq
      cases heq
      exact h e he rfl
    | some e =>
      obtain ⟨hspace, later, earlier, hsplit, hlater⟩ := List.find?_eq_some_iff_append.mp h
      rw [beq_iff_eq] at hspace
      subst hspace
      refine ⟨rfl, earlier.reverse, later.reverse, ?_, ?_⟩
      · rw [← List.reverse_reverse extensions, hsplit]
        simp
      · intro x hx
        simpa using hlater x (List.mem_reverse.mp hx)

/-! ### Journals -/

/-- What became of a node that was offered: the call as it is written down, the extension whose hook was
called, and what was reported while the hook ran. Where there is no extension nothing is handled. -/
structure Referral where
  delivery : Delivery
  extension? : Option Extension
  remarks : List Diagnostic

namespace Referral

def node (r : Referral) : Offer := r.delivery.node

def handled (r : Referral) : Bool := r.delivery.handled

/-- What the compiler reports about the node itself. -/
def warnings (r : Referral) : List Diagnostic := if r.handled then [] else [r.node.unhandled]

end Referral

/-- An entry of a journal: a finding of a rule, or what became of a node. -/
inductive JournalEntry where
  | finding (d : Diagnostic)
  | referral (r : Referral)

namespace JournalEntry

def referral? : JournalEntry → Option Referral
  | finding _ => none
  | referral r => some r

/-- What the compiler reports itself. -/
def own : JournalEntry → List Diagnostic
  | finding d => [d]
  | referral r => r.warnings

/-- All that is reported, by the compiler and by the hook that it calls. -/
def diagnostics : JournalEntry → List Diagnostic
  | finding d => [d]
  | referral r => r.remarks ++ r.warnings

end JournalEntry

/-- The calls of hooks among what became of nodes. -/
def Referral.deliveries (rs : List Referral) : List Delivery :=
  (rs.filter (·.extension?.isSome)).map (·.delivery)

namespace Run

/-- What becomes of a node that is offered in the given state. -/
def referral (extensions : List Extension) (r : Run) (node : Offer) (context : Context) :
    Referral :=
  match node.space?.bind (Extension.find? extensions) with
  | none => ⟨⟨node, context, r.observation, false⟩, none, []⟩
  | some extension =>
    let (after, handled) := r.runHook node (extension.hook node context)
    ⟨⟨node, context, r.observation, handled⟩, some extension,
      after.diagnostics.drop r.diagnostics.length⟩

/-- What a step adds to the journal. -/
def record? (extensions : List Extension) (r : Run) : Step → Option JournalEntry
  | .report d => some (.finding d)
  | .offer node context => some (.referral (r.referral extensions node context))
  | _ => none

/-- The journal of steps that are run until one of them halts. -/
def journal (extensions : List Extension) (r : Run) : List Step → List JournalEntry
  | [] => []
  | s :: rest =>
    (r.record? extensions s).toList ++
      if (r.step extensions s).halted.isSome then [] else (r.step extensions s).journal extensions rest

/-! ### What the journal accounts for -/

/-- The journal between two states of a run accounts for all diagnostics and for all calls of hooks. -/
structure Accounts (r : Run) (entries : List JournalEntry) (r' : Run) : Prop where
  diagnostics : r'.diagnostics = r.diagnostics ++ entries.flatMap JournalEntry.diagnostics
  deliveries : r'.deliveries =
    r.deliveries ++ Referral.deliveries (entries.filterMap JournalEntry.referral?)

theorem Accounts.trans {r r' r'' : Run} {entries entries' : List JournalEntry}
    (h : r.Accounts entries r') (h' : r'.Accounts entries' r'') :
    r.Accounts (entries ++ entries') r'' where
  diagnostics := by simp [h'.diagnostics, h.diagnostics]
  deliveries := by simp [h'.deliveries, h.deliveries, Referral.deliveries]

@[simp] theorem diagnostics_emit (r : Run) (id : Identifier) (data : Symbol.Data) :
    (r.emit id data).diagnostics = r.diagnostics := by
  unfold emit
  split_ifs
  · rfl
  · split
    · rfl
    · split <;> rfl

@[simp] theorem deliveries_emit (r : Run) (id : Identifier) (data : Symbol.Data) :
    (r.emit id data).deliveries = r.deliveries := by
  unfold emit
  split_ifs
  · rfl
  · split
    · rfl
    · split <;> rfl

/-- A hook only adds to the diagnostics. -/
theorem diagnostics_runHook (node : Offer) (hook : Hook) (r : Run) :
    r.diagnostics <+: (r.runHook node hook).1.diagnostics := by
  induction hook generalizing r with
  | done handled => exact List.prefix_refl _
  | report d next ih => exact (List.prefix_append _ _).trans (ih (r.report d))
  | emit id definition fields next ih =>
    rw [runHook]
    split
    · exact (List.prefix_append _ _).trans (ih (r.report _))
    · simpa using ih (r.emit id (.extensionData definition fields))
  | refer s next ih => simpa [runHook] using ih (r.add (·.addReference s))
  | group g next ih => simpa [runHook] using ih (r.add (·.addGroup g))
  | observe next ih => exact ih r.observation r

/-- A hook calls no hooks. -/
theorem deliveries_runHook (node : Offer) (hook : Hook) (r : Run) :
    (r.runHook node hook).1.deliveries = r.deliveries := by
  induction hook generalizing r with
  | done handled => rfl
  | report d next ih => exact ih (r.report d)
  | emit id definition fields next ih =>
    rw [runHook, ih]
    split
    · rfl
    · exact deliveries_emit r id _
  | refer s next ih => rw [runHook, ih, deliveries_add]
  | group g next ih => rw [runHook, ih, deliveries_add]
  | observe next ih => exact ih r.observation r

variable (extensions : List Extension)

theorem offer_accounts (r : Run) (node : Offer) (context : Context) :
    r.Accounts [.referral (r.referral extensions node context)]
      (r.offer extensions node context) := by
  unfold referral offer
  cases node.space?.bind (Extension.find? extensions) with
  | none =>
    refine ⟨?_, ?_⟩ <;> simp [report, JournalEntry.diagnostics, JournalEntry.referral?,
      Referral.warnings, Referral.handled, Referral.node, Referral.deliveries]
  | some extension =>
    obtain ⟨remarks, hremarks⟩ := diagnostics_runHook node (extension.hook node context) r
    have hdeliveries := deliveries_runHook node (extension.hook node context) r
    dsimp only
    generalize r.runHook node (extension.hook node context) = result at hremarks hdeliveries ⊢
    obtain ⟨after, handled⟩ := result
    dsimp only at hremarks hdeliveries ⊢
    cases handled with
    | true =>
      refine ⟨?_, ?_⟩
      · simp [JournalEntry.diagnostics, Referral.warnings, Referral.handled, ← hremarks]
      · simp [JournalEntry.referral?, Referral.deliveries, hdeliveries]
    | false =>
      refine ⟨?_, ?_⟩
      · simp [report, JournalEntry.diagnostics, Referral.warnings, Referral.handled, Referral.node,
          ← hremarks]
      · simp [report, JournalEntry.referral?, Referral.deliveries, hdeliveries]

theorem step_accounts (r : Run) (s : Step) :
    r.Accounts (r.record? extensions s).toList (r.step extensions s) := by
  cases s with
  | report d =>
    refine ⟨?_, ?_⟩ <;> simp [record?, step, report, JournalEntry.diagnostics,
      JournalEntry.referral?, Referral.deliveries]
  | offer node context => exact offer_accounts extensions r node context
  | openUnit header =>
    exact ⟨by simp [record?, step, openUnit],
      by simp [record?, step, openUnit, Referral.deliveries]⟩
  | closeUnit =>
    exact ⟨by simp [record?, step, closeUnit],
      by simp [record?, step, closeUnit, Referral.deliveries]⟩
  | _ => exact ⟨by simp [record?, step], by simp [record?, step, Referral.deliveries]⟩

/-- **The journal of a run accounts for it.** -/
theorem steps_accounts (r : Run) (l : List Step) :
    r.Accounts (r.journal extensions l) (r.steps extensions l) := by
  induction l generalizing r with
  | nil => exact ⟨by simp [journal, steps], by simp [journal, steps, Referral.deliveries]⟩
  | cons s l ih =>
    have h := step_accounts extensions r s
    rw [steps_cons, journal]
    split_ifs
    · rw [List.append_nil]
      exact h
    · exact h.trans (ih _)

/-! ### What the journal tells -/

variable {extensions}

/-- A run that comes to its end passes on what its steps offer. -/
theorem nodes_journal {r : Run} {l : List Step} (hh : (r.steps extensions l).halted = none) :
    ((r.journal extensions l).filterMap JournalEntry.referral?).map (·.node) =
      l.filterMap Step.offer? := by
  induction l generalizing r with
  | nil => rfl
  | cons s l ih =>
    obtain ⟨hs, heq⟩ := steps_cons_of_not_halted hh
    rw [heq] at hh
    have hentry : ((r.record? extensions s).toList.filterMap JournalEntry.referral?).map (·.node) =
        s.offer?.toList := by
      cases s with
      | offer node context =>
        simp only [record?, referral, Referral.node, Step.offer?]
        split <;> rfl
      | _ => rfl
    have hcons : (s :: l).filterMap Step.offer? = s.offer?.toList ++ l.filterMap Step.offer? := by
      cases ho : s.offer? <;> simp [ho]
    rw [journal, hs, hcons, ← hentry, ← ih hh]
    simp

/-- Each entry of the journal is there because of a step. -/
theorem exists_record?_of_mem_journal {r : Run} {l : List Step} {entry : JournalEntry}
    (h : entry ∈ r.journal extensions l) :
    ∃ s ∈ l, ∃ r' : Run, r'.record? extensions s = some entry := by
  induction l generalizing r with
  | nil => cases h
  | cons s l ih =>
    rw [journal, List.mem_append] at h
    rcases h with h | h
    · exact ⟨s, List.mem_cons_self, r, Option.mem_toList.mp h⟩
    · split_ifs at h
      · cases h
      · obtain ⟨s', hs', r', he⟩ := ih h
        exact ⟨s', List.mem_cons_of_mem _ hs', r', he⟩

/-- The findings in a journal are reported by steps. -/
theorem report_mem_of_finding_mem {r : Run} {l : List Step} {d : Diagnostic}
    (h : .finding d ∈ r.journal extensions l) : .report d ∈ l := by
  obtain ⟨s, hs, r', he⟩ := exists_record?_of_mem_journal h
  cases s with
  | report d' => cases he; exact hs
  | _ => cases he

/-- A node is passed on to the last extension that was registered for its namespace, and without one it
is not handled. -/
theorem isLastFor_of_referral (r : Run) (node : Offer) (context : Context) :
    Extension.IsLastFor extensions (r.referral extensions node context).node.space?
        (r.referral extensions node context).extension? ∧
      ((r.referral extensions node context).extension? = none →
        (r.referral extensions node context).handled = false) := by
  have h := Extension.isLastFor_find? extensions node.space?
  unfold referral
  cases hfind : node.space?.bind (Extension.find? extensions) with
  | none =>
    rw [hfind] at h
    exact ⟨h, fun _ => rfl⟩
  | some extension =>
    rw [hfind] at h
    exact ⟨h, fun hnone => by cases hnone⟩

theorem isLastFor_of_mem_journal {r : Run} {l : List Step} {x : Referral}
    (h : .referral x ∈ r.journal extensions l) :
    Extension.IsLastFor extensions x.node.space? x.extension? ∧
      (x.extension? = none → x.handled = false) := by
  obtain ⟨s, -, r', he⟩ := exists_record?_of_mem_journal h
  cases s with
  | offer node context => cases he; exact r'.isLastFor_of_referral node context
  | _ => cases he

end Run

/-- If no finding is about an unhandled node, then such warnings come of referrals alone. -/
theorem filter_own_eq {entries : List JournalEntry}
    (h : ∀ d, .finding d ∈ entries → d.isUnhandled = false) :
    (entries.flatMap JournalEntry.own).filter (·.isUnhandled) =
      ((entries.filterMap JournalEntry.referral?).filter (!·.handled)).map (·.node.unhandled) := by
  induction entries with
  | nil => rfl
  | cons entry entries ih =>
    have ih := ih fun d hd => h d (List.mem_cons_of_mem _ hd)
    rw [List.flatMap_cons, List.filter_append, ih]
    cases entry with
    | finding d =>
      rw [List.filterMap_cons_none rfl]
      simp [JournalEntry.own, h d (by simp)]
    | referral r =>
      cases hr : r.handled <;> simp [JournalEntry.own, JournalEntry.referral?, Referral.warnings, hr]

namespace Compiler

/-- The journal of a compile. -/
def journal (c : Compiler) (k : UInt32) (root : Element) : List JournalEntry :=
  Run.journal c.extensions { compilation := k } (plan c.config root)

/-- What became of the nodes that a compile offered, in order. -/
def referrals (c : Compiler) (k : UInt32) (root : Element) : List Referral :=
  (c.journal k root).filterMap JournalEntry.referral?

/-- **Delegation is exactly-once.** In a compile that succeeds the journal accounts for all diagnostics
and all calls of hooks. Each foreign attribute of each reached element and each of its foreign children
is passed on exactly once and nothing else is, in order and attributes first, to the last extension that
was registered for its namespace. The compiler's own warnings about unhandled nodes are about those that
no extension is there for or whose hook declined, one for each. -/
theorem delegates_exactlyOnce {c : Compiler} {k : UInt32} {root : Element} {o : Output}
    (h : (c.compileAs k root).result = .ok o) (hs : o.isSuccess) :
    o.diagnostics = (c.journal k root).flatMap JournalEntry.diagnostics ∧
    (c.compileAs k root).deliveries = Referral.deliveries (c.referrals k root) ∧
    Interleaves (root.reached.map Site.foreignNodes) ((c.referrals k root).map (·.node)) ∧
    (root.reached.flatMap Site.foreignNodes).Perm ((c.referrals k root).map (·.node)) ∧
    (∀ s ∈ root.reached, s.foreignNodes.Sublist ((c.referrals k root).map (·.node))) ∧
    (∀ r ∈ c.referrals k root, Extension.IsLastFor c.extensions r.node.space? r.extension? ∧
      (r.extension? = none → r.handled = false)) ∧
    ((c.journal k root).flatMap JournalEntry.own).filter (·.isUnhandled) =
      ((c.referrals k root).filter (!·.handled)).map (·.node.unhandled) := by
  have hplan := interleaves_offers (smooth_of_isSuccess h hs)
  obtain ⟨hh, rfl⟩ := Run.result_eq_ok_iff.mp h
  have haccounts := Run.steps_accounts c.extensions { compilation := k } (plan c.config root)
  rw [← Run.nodes_journal hh] at hplan
  refine ⟨?_, haccounts.deliveries, hplan, ?_, ?_, ?_, ?_⟩
  · rw [Output.diagnostics_settle]
    exact haccounts.diagnostics
  · rw [List.flatMap_def]
    exact hplan.flatten_perm
  · intro s hs
    exact hplan.sublist (List.mem_map_of_mem hs)
  · intro r hr
    obtain ⟨entry, hentry, heq⟩ := List.mem_filterMap.mp hr
    cases entry with
    | finding d => cases heq
    | referral x => cases heq; exact Run.isLastFor_of_mem_journal hentry
  · refine filter_own_eq fun d hd => ?_
    exact Step.own_report.mp (own_plan c.config root _ (Run.report_mem_of_finding_mem hd))

end Compiler

namespace Sample

/-- A fragment with a coloured note and a mark. What is inside of the note is nobody's business. -/
def memo : Element :=
  element "Wix" [] [
    .node { tag coreNamespace "Fragment" [] with
        attributes := [⟨.unqualified "Id", "F", ⟨0, 0⟩⟩, ⟨⟨some "notes", "color"⟩, "red", ⟨0, 0⟩⟩] } [
      .node (tag "notes" "Note" []) [element "Fragment" [] [], .node (tag "marks" "Mark" []) []],
      .node (tag "marks" "Mark" []) []]]

/-- Two extensions for notes. The later one handles attributes and complains about elements. -/
def memoCompiler : Compiler where
  extensions := [⟨"notes", fun _ _ => .done true⟩, ⟨"notes", fun node _ =>
    match node with
    | .ofAttribute _ _ => .done true
    | .ofElement _ _ => .report node.unhandled (.done false)⟩]

end Sample

/-- The colour, the note and the mark are passed on; of the three warnings one is a remark of the hook,
and the compiler's own ones are about the note and the mark. -/
theorem delegates_exactlyOnce_memo : ∃ o,
    (Sample.memoCompiler.compileAs 0 Sample.memo).result = .ok o ∧ o.diagnostics.length = 3 ∧
      ((Sample.memoCompiler.journal 0 Sample.memo).flatMap JournalEntry.own).length = 2 ∧
      (Sample.memo.reached.flatMap Site.foreignNodes).length = 3 ∧
      (Sample.memo.reached.flatMap Site.foreignNodes).Perm
        ((Sample.memoCompiler.referrals 0 Sample.memo).map (·.node)) := by
  have h : (Sample.memoCompiler.compileAs 0 Sample.memo).result = .ok _ := rfl
  obtain ⟨-, -, -, hperm, -⟩ := Compiler.delegates_exactlyOnce h (by decide +kernel)
  exact ⟨_, h, by decide +kernel, by decide +kernel, by decide +kernel, hperm⟩

end Installer
