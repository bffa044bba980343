import Installer.Proofs.Outputs
import Installer.Proofs.Surroundings
import Mathlib.Data.List.Forall2

/-! # What a plan comes to

Without extensions a finding or an offered node leaves nothing in the intermediate: it can only make
the compile fail. So all that matters of a list of steps is its gist (`Step.gist`): nothing if one of
the steps is an error or gives up, and otherwise the steps that last. Documents whose plans have one
gist compile to the same intermediate or fail together (`Compiler.delivers_of_gist`). -/

namespace Installer

open Compile

namespace Step

instance : DecidablePred Smooth
  | .report d => inferInstanceAs (Decidable (d.isError = false))
  | .halt _ => isFalse id
  | .openUnit _ | .closeUnit | .emit _ _ | .refer _ | .group _ | .offer _ _ => isTrue trivial

/-- Whether a step can leave something behind without extensions. -/
def lasts : Step → Bool
  | .report _ | .offer _ _ => false
  | _ => true

/-- What steps come to: the ones that last, or nothing if one of them fails. -/
def gist (l : List Step) : Option (List Step) :=
  if ∀ s ∈ l, s.Smooth then some (l.filter lasts) else none

theorem gist_of_smooth {l : List Step} (h : ∀ s ∈ l, s.Smooth) : gist l = some (l.filter lasts) :=
  if_pos h

theorem gist_eq_some_iff {l k : List Step} :
    gist l = some k ↔ (∀ s ∈ l, s.Smooth) ∧ l.filter lasts = k := by
  by_cases h : ∀ s ∈ l, s.Smooth
  · rw [gist_of_smooth h, Option.some_inj, and_iff_right h]
  · rw [gist, if_neg h]
    simp only [h, false_and, reduceCtorEq]

theorem gist_eq_none_iff {l : List Step} : gist l = none ↔ ¬ ∀ s ∈ l, s.Smooth := by
  rw [Option.eq_none_iff_forall_ne_some]
  constructor
  · intro h hs
    exact h _ (gist_of_smooth hs)
  · intro h k hk
    exact h (gist_eq_some_iff.mp hk).1

@[simp] theorem gist_append (l l' : List Step) :
    gist (l ++ l') = (gist l).bind fun k => (gist l').map (k ++ ·) := by
  by_cases h : ∀ s ∈ l ++ l', s.Smooth
  · obtain ⟨hl, hl'⟩ := List.forall_mem_append.mp h
    rw [gist_of_smooth h, gist_of_smooth hl, gist_of_smooth hl', List.filter_append]
    rfl
  · rw [gist_eq_none_iff.mpr h]
    cases hl : gist l with
    | none => rfl
    | some k =>
      have hl' : gist l' = none := gist_eq_none_iff.mpr fun hl' =>
        h (List.forall_mem_append.mpr ⟨(gist_eq_some_iff.mp hl).1, hl'⟩)
      rw [hl']
      rfl

/-- Lists of steps come to the same if their steps do one by one. -/
theorem gist_map_congr {α β : Type} {R : α → β → Prop} {l : List α} {l' : List β}
    (hl : List.Forall₂ R l l') {f : α → Step} {f' : β → Step}
    (hf : ∀ {a b}, R a b → gist [f a] = gist [f' b]) : gist (l.map f) = gist (l'.map f') := by
  induction hl with
  | nil => rfl
  | cons hab hl ih =>
    rw [List.map_cons, List.map_cons, ← List.singleton_append, gist_append, hf hab, ih,
      ← gist_append, List.singleton_append]

@[simp] theorem gist_offer (node : Offer) (context : Context) :
    gist [.offer node context] = some [] :=
  gist_of_smooth fun s hs => by rw [List.mem_singleton.mp hs]; trivial

/-- Findings come to nothing, one way or the other. -/
@[simp] theorem gist_reports (ds : List Diagnostic) :
    gist (ds.map .report) = if Diagnostic.hasErrors ds then none else some [] := by
  have hsmooth : (∀ s ∈ ds.map Step.report, s.Smooth) ↔ Diagnostic.hasErrors ds = false := by
    simp [Diagnostic.hasErrors]
  have hlasts : (ds.map Step.report).filter lasts = [] := by simp [lasts]
  cases h : Diagnostic.hasErrors ds
  · rw [gist_of_smooth (hsmooth.mpr h), hlasts]
    rfl
  · exact gist_eq_none_iff.mpr fun hs => by simp [hsmooth.mp hs] at h

end Step

/-! ### Planned values -/

namespace Logged

variable {α β : Type}

/-- The value with more steps on the way to it. -/
def after {ω : Type} (log : List ω) (x : Logged ω α) : Logged ω α := ⟨log ++ x.log, x.value⟩

/-- What a planned value comes to. -/
def gist (x : Logged Step α) : Option (Logged Step α) := (Step.gist x.log).map (⟨·, x.value⟩)

/-- Planned values come to the same if their steps do and, unless these fail, the values agree. -/
theorem gist_eq_iff {x y : Logged Step α} : x.gist = y.gist ↔
    Step.gist x.log = Step.gist y.log ∧ ∀ l, Step.gist x.log = some l → x.value = y.value := by
  unfold gist
  cases Step.gist x.log <;> cases Step.gist y.log <;> simp

@[simp] theorem gist_pure (a : α) : (pure a : Logged Step α).gist = some (pure a) := rfl

@[simp] theorem gist_bind (x : Logged Step α) (f : α → Logged Step β) :
    (x >>= f).gist = x.gist.bind fun y => (f y.value).gist.map (after y.log) := by
  unfold gist
  rw [log_bind, value_bind, Step.gist_append]
  cases Step.gist x.log with
  | none => rfl
  | some l => cases hf : Step.gist (f x.value).log <;> simp [hf, after]

/-- What follows comes to the same if it does for all values with the same image. -/
theorem gist_bind_congr {γ : Type} {g : α → γ} {x y : Logged Step α}
    (h : (do return g (← x) : Logged Step γ).gist = (do return g (← y) : Logged Step γ).gist)
    {f f' : α → Logged Step β} (hf : ∀ a a', g a = g a' → (f a).gist = (f' a').gist) :
    (x >>= f).gist = (y >>= f').gist := by
  rw [gist_bind, gist_bind]
  unfold gist at h ⊢
  simp only [log_bind, log_pure, List.append_nil, value_bind, value_pure] at h
  cases hx : Step.gist x.log with
  | none =>
    rw [hx, Option.map_none] at h
    rw [Option.map_eq_none_iff.mp h.symm]
    rfl
  | some l =>
    rw [hx, Option.map_some] at h
    obtain ⟨k, hy, hk⟩ := Option.map_eq_some_iff.mp h.symm
    obtain ⟨rfl, hvalue⟩ := Logged.mk.inj hk
    have hrest := hf x.value y.value hvalue.symm
    unfold gist at hrest
    rw [hy]
    simp only [Option.map_some, Option.bind_some, hrest]

@[simp] theorem gist_tell (l : List Step) : (tell l).gist = (Step.gist l).map (⟨·, ()⟩) := rfl

@[simp] theorem gist_ite (p : Prop) [Decidable p] (x y : Logged Step α) :
    (if p then x else y).gist = if p then x.gist else y.gist := by
  split_ifs <;> rfl

end Logged

namespace Planned

@[simp] theorem gist_report (ds : List Diagnostic) :
    (report ds).gist = if Diagnostic.hasErrors ds then none else some (pure ()) := by
  rw [report, Logged.gist_tell, Step.gist_reports]
  split_ifs <;> rfl

@[simp] theorem gist_reportIf (condition : Bool) (d : Diagnostic) :
    (reportIf condition d).gist = if condition && d.isError then none else some (pure ()) := by
  rw [reportIf, gist_report]
  cases condition <;> simp [Diagnostic.hasErrors]

@[simp] theorem gist_refer (kind : SymbolKind) (id : String) :
    (refer kind id).gist = some (refer kind id) := rfl

@[simp] theorem gist_register (c : GroupCursor) (child : Member) (after : Option Member) :
    (register c child after).gist = some (register c child after) := rfl

@[simp] theorem gist_offerAttributes (site : Site) (context : Context) :
    (offerAttributes site context).gist = some (pure ()) := by
  have hgist : Step.gist (offerAttributes site context).log = some [] := by
    simp [offerAttributes, Step.gist_eq_some_iff, Step.Smooth, Step.lasts]
  rw [Logged.gist, hgist]
  rfl

@[simp] theorem gist_leaf (site : Site) (id : Identifier) (close : List Step) :
    (leaf site id close).gist = some (pure
      { content := .nothing, scope := { context := id.validContext }, close := fun _ => close }) := by
  simp [leaf]
  rfl

@[simp] theorem gist_within (scope : Scope) (x : Planned Body) :
    (within scope x).gist = x.gist.map fun y => ⟨y.log, ⟨scope, some y.value⟩⟩ := by
  unfold within Logged.gist
  cases h : Step.gist x.log <;> simp [h]

@[simp] theorem gist_refuse (scope : Scope) (d : Diagnostic) :
    (refuse scope d).gist = if d.isError then none else some (pure ⟨scope, none⟩) := by
  rw [refuse, Logged.gist_bind, gist_report]
  cases h : d.isError <;> simp [Diagnostic.hasErrors, h]
  rfl

@[simp] theorem gist_halt (scope : Scope) (h : Halt) : (halt scope h).gist = none := by
  simp [halt, Logged.gist, Step.gist]

end Planned

/-! ### Runs -/

namespace Run

/-- Runs without errors that differ in warnings and calls of hooks at most. -/
structure Same (r r' : Run) : Prop where
  compilation : r.compilation = r'.compilation
  intermediate : r.intermediate = r'.intermediate
  units : r.units = r'.units
  halted : r.halted = r'.halted
  left : r.hasErrors = false
  right : r'.hasErrors = false

namespace Same

variable {r r' : Run} {s : Step}

/-- A warning does not matter. -/
theorem report (h : r.Same r') {d : Diagnostic} (hd : d.isError = false) : (r.report d).Same r' where
  compilation := h.compilation
  intermediate := h.intermediate
  units := h.units
  halted := h.halted
  left := by
    have hr := h.left
    simp only [hasErrors, Diagnostic.hasErrors] at hr ⊢
    simp [Run.report, hr, hd]
  right := h.right

/-- Neither does any other step that leaves nothing behind. -/
theorem step_left (h : r.Same r') (hs : s.Smooth) (hl : s.lasts = false) :
    (r.step [] s).Same r' := by
  cases s with
  | report d => exact h.report hs
  | offer node context =>
    rw [← step_bare]
    exact h.report (by cases node <;> rfl)
  | _ => cases hl

/-- A step that lasts does the same to both. -/
theorem step (h : r.Same r') (hs : s.Smooth) (hl : s.lasts) :
    (r.step [] s).Same (r'.step [] s) := by
  obtain ⟨k, x, ds, units, calls, halted⟩ := r
  obtain ⟨k', x', ds', units', calls', halted'⟩ := r'
  obtain ⟨rfl, rfl, rfl, rfl, hleft, hright⟩ := h
  cases s with
  | report d => cases hl
  | offer node context => cases hl
  | halt reason => exact absurd hs Step.smooth_halt
  | openUnit header => exact ⟨rfl, rfl, rfl, rfl, hleft, hright⟩
  | closeUnit => exact ⟨rfl, rfl, rfl, rfl, hleft, hright⟩
  | refer reference =>
    simp only [Run.step, add, hleft, hright]
    exact ⟨rfl, rfl, rfl, rfl, hleft, hright⟩
  | group reference =>
    simp only [Run.step, add, hleft, hright]
    exact ⟨rfl, rfl, rfl, rfl, hleft, hright⟩
  | emit id data =>
    simp only [Run.step, emit, hleft, hright, Bool.false_eq_true, ↓reduceIte, active]
    cases units with
    | nil => exact ⟨rfl, rfl, rfl, rfl, hleft, hright⟩
    | cons unit =>
      dsimp only [List.head?_cons]
      cases x.addSymbol? ⟨id, unit.index, data⟩ <;> exact ⟨rfl, rfl, rfl, rfl, hleft, hright⟩

/-- Of a smooth plan only the steps that last matter. -/
theorem steps {l : List Step} (hl : ∀ s ∈ l, s.Smooth) (h : r.Same r') (hh : r.halted = none) :
    (r.steps [] l).Same (r'.steps [] (l.filter Step.lasts)) := by
  induction l generalizing r r' with
  | nil => exact h
  | cons s l ih =>
    obtain ⟨hs, hl⟩ := List.forall_mem_cons.mp hl
    rw [steps_cons]
    by_cases hlasts : s.lasts
    · have hstep := h.step hs hlasts
      rw [List.filter_cons_of_pos hlasts, steps_cons, ← hstep.halted]
      split_ifs with hstop
      · exact hstep
      · exact ih hl hstep (by simpa using hstop)
    · have hstep := h.step_left hs (by simpa using hlasts)
      have hgoing : (r.step [] s).halted = none := by rw [hstep.halted, ← h.halted, hh]
      rw [List.filter_cons_of_neg hlasts, hgoing]
      exact ih hl hstep hgoing

end Same

end Run

namespace Compiler

/-- The compile with the number `k` succeeds and gives the intermediate. -/
def Delivers (c : Compiler) (k : UInt32) (root : Element) (x : Intermediate) : Prop :=
  ∃ o, (c.compileAs k root).result = .ok o ∧ o.isSuccess ∧ o.intermediate = x

variable {c : Compiler} {k : UInt32} {root root' : Element} {x : Intermediate}

theorem delivers_iff : c.Delivers k root x ↔
    (Run.steps c.extensions { compilation := k } (plan c.config root)).halted = none ∧
      (Run.steps c.extensions { compilation := k } (plan c.config root)).hasErrors = false ∧
      (Run.steps c.extensions { compilation := k } (plan c.config root)).intermediate = x := by
  constructor
  · rintro ⟨o, ho, hs, hx⟩
    obtain ⟨hh, rfl⟩ := Run.result_eq_ok_iff.mp ho
    have he : (Run.steps c.extensions { compilation := k } (plan c.config root)).hasErrors = false := by
      simpa [Output.isSuccess, Run.hasErrors] using hs
    rw [Run.settle_of_not_hasErrors he] at hx
    exact ⟨hh, he, hx⟩
  · rintro ⟨hh, he, hx⟩
    refine ⟨_, Run.result_eq_ok_iff.mpr ⟨hh, rfl⟩, ?_, ?_⟩
    · simpa [Output.isSuccess, Run.hasErrors] using he
    · rw [Run.settle_of_not_hasErrors he]
      exact hx

/-- **Plans with one gist have one outcome.** -/
theorem delivers_of_gist (hc : c.extensions = [])
    (h : Step.gist (plan c.config root) = Step.gist (plan c.config root'))
    (hx : c.Delivers k root x) : c.Delivers k root' x := by
  have hsmooth : ∀ s ∈ plan c.config root, s.Smooth := by
    obtain ⟨o, ho, hs, -⟩ := hx
    exact smooth_of_isSuccess ho hs
  obtain ⟨hsmooth', hsteps⟩ :=
    Step.gist_eq_some_iff.mp (h.symm.trans (Step.gist_eq_some_iff.mpr ⟨hsmooth, rfl⟩))
  have hstart : Run.Same { compilation := k } { compilation := k } :=
    ⟨rfl, rfl, rfl, rfl, rfl, rfl⟩
  have hleft := hstart.steps hsmooth rfl
  have hright := hstart.steps hsmooth' rfl
  rw [hsteps] at hright
  rw [delivers_iff, hc] at hx ⊢
  obtain ⟨hh, -, rfl⟩ := hx
  refine ⟨?_, hright.left, ?_⟩
  · rw [hright.halted, ← hleft.halted, hh]
  · rw [hright.intermediate, ← hleft.intermediate]

end Compiler

end Installer
