import Installer.Proofs.Checked
import Installer.Proofs.Runs

/-! # What a plan leaves behind

A run that comes to its end without an error has taken every step of its plan: none of them halts, and
all findings are warnings (`Step.Smooth`). Without extensions it adds to the intermediate what the steps
call for, in order and nothing else (`Output.Yields`). -/

namespace Installer

open Compile

/-! ### Smooth steps -/

namespace Step

/-- A step that neither reports an error nor gives up. -/
def Smooth : Step → Prop
  | .report d => d.isError = false
  | .halt _ => False
  | _ => True

@[simp] theorem smooth_report {d : Diagnostic} : (Step.report d).Smooth ↔ d.isError = false :=
  Iff.rfl

@[simp] theorem smooth_halt {h : Halt} : ¬ (Step.halt h).Smooth := id

/-- Closing an element without errors does not give up. -/
theorem Smooth.closes {body : Body} {inner : Scope} (h : ∀ s ∈ body.close inner, s.Smooth) :
    body.Closes inner :=
  fun _ hmem => smooth_halt (h _ hmem)

theorem Smooth.clean {s : Step} (h : s.Smooth) : s.Clean := by
  intro d hd
  subst hd
  exact h

/-- The symbol that a step defines. -/
def symbol? : Step → Option (Identifier × Symbol.Data)
  | .emit id data => some (id, data)
  | _ => none

/-- The symbol that a step refers to. -/
def reference? : Step → Option SymbolReference
  | .refer r => some r
  | _ => none

/-- The place in a group that a step hands out. -/
def group? : Step → Option GroupReference
  | .group r => some r
  | _ => none

end Step

theorem Planned.passes_of_smooth {e : Element} {checks : List (String × Check)}
    (h : (Planned.report (e.checkAttributes checks)).All Step.Smooth) : e.Passes checks :=
  clean_checkAttributes.mp fun s hs => (h s hs).clean

namespace Run

variable {extensions : List Extension} {r : Run} {a b : Bool} {l : List Step}

/-- Every finding of a plan that is run to its end is among the diagnostics. -/
theorem mem_diagnostics_of_report (hl : Scoped a l b) (hr : r.Ready a)
    (hh : (r.steps extensions l).halted = none) {d : Diagnostic} (hd : .report d ∈ l) :
    d ∈ (r.steps extensions l).diagnostics := by
  induction hl generalizing r with
  | nil => cases hd
  | @cons a b c s l hs hl ih =>
    rw [steps_cons] at hh ⊢
    rcases hr.step extensions hs with hdeep | hready
    · simp [hdeep] at hh
    · simp only [hready.halted, Option.isSome_none, Bool.false_eq_true, ↓reduceIte] at hh ⊢
      rcases List.mem_cons.mp hd with rfl | hd
      · -- what is reported now stays until the end
        have hmem : d ∈ (r.step extensions (.report d)).diagnostics := by simp [step, report]
        exact (steps_records extensions hl hready).diagnostics.subset hmem
      · exact ih hready hh hd

/-- A run that comes to its end goes on after each step. -/
theorem steps_cons_of_not_halted {s : Step} (hh : (r.steps extensions (s :: l)).halted = none) :
    (r.step extensions s).halted = none ∧
      r.steps extensions (s :: l) = (r.step extensions s).steps extensions l := by
  rw [steps_cons] at hh ⊢
  cases hs : (r.step extensions s).halted with
  | none => simp
  | some h => simp [hs] at hh

/-- A plan that is run to its end has no step that gives up. -/
theorem halt_notMem (hh : (r.steps extensions l).halted = none) (h : Halt) : .halt h ∉ l := by
  induction l generalizing r with
  | nil => simp
  | cons s l ih =>
    obtain ⟨hs, heq⟩ := steps_cons_of_not_halted hh
    rw [heq] at hh
    intro hmem
    rcases List.mem_cons.mp hmem with rfl | hmem
    · simp [step] at hs
    · exact ih hh hmem

/-- **A plan that is run to its end without an error is smooth.** -/
theorem smooth_of_not_hasErrors (hl : Scoped a l b) (hr : r.Ready a)
    (hh : (r.steps extensions l).halted = none)
    (he : (r.steps extensions l).hasErrors = false) : ∀ s ∈ l, s.Smooth := by
  intro s hs
  cases s with
  | report d =>
    have hmem := mem_diagnostics_of_report hl hr hh hs
    simp only [hasErrors, Diagnostic.hasErrors, List.any_eq_false] at he
    simpa using he d hmem
  | halt h => exact absurd hs (halt_notMem hh h)
  | _ => trivial

/-! ### Without extensions -/

theorem stepEvents_nil_offer (r : Run) (node : Offer) (context : Context) :
    r.stepEvents [] (.offer node context) = [] := by
  cases h : node.space? <;> simp [stepEvents, h, Extension.find?]

/-- Without extensions a step makes the one call that it is. -/
theorem filterMap_stepEvents (r : Run) (s : Step) :
    ((r.stepEvents [] s).filterMap Event.symbol?).map (·.2) = s.symbol?.toList ∧
      (r.stepEvents [] s).filterMap Event.reference? = s.reference?.toList ∧
      (r.stepEvents [] s).filterMap Event.group? = s.group?.toList := by
  cases s with
  | offer node context => rw [stepEvents_nil_offer]; exact ⟨rfl, rfl, rfl⟩
  | _ => exact ⟨rfl, rfl, rfl⟩

/-- The calls of a run that comes to its end without extensions are its steps. -/
theorem filterMap_events (hh : (r.steps [] l).halted = none) :
    ((r.events [] l).filterMap Event.symbol?).map (·.2) = l.filterMap Step.symbol? ∧
      (r.events [] l).filterMap Event.reference? = l.filterMap Step.reference? ∧
      (r.events [] l).filterMap Event.group? = l.filterMap Step.group? := by
  induction l generalizing r with
  | nil => exact ⟨rfl, rfl, rfl⟩
  | cons s l ih =>
    obtain ⟨hs, heq⟩ := steps_cons_of_not_halted hh
    rw [heq] at hh
    obtain ⟨hsymbols, hreferences, hgroups⟩ := ih hh
    obtain ⟨hsymbol, hreference, hgroup⟩ := filterMap_stepEvents r s
    have hcons {β : Type} (f : Step → Option β) :
        (s :: l).filterMap f = (f s).toList ++ l.filterMap f := by
      cases h : f s <;> simp [h]
    rw [events, hs]
    simp only [Option.isSome_none, Bool.false_eq_true, ↓reduceIte, List.filterMap_append,
      List.map_append, hsymbol, hreference, hgroup, hsymbols, hreferences, hgroups, hcons, and_self]

end Run

/-- The symbols and references of an output are those that the steps call for, in order. -/
structure Output.Yields (o : Output) (l : List Step) : Prop where
  symbols : o.intermediate.symbols.map (fun s => (s.id, s.data)) = l.filterMap Step.symbol?
  references : o.intermediate.references = l.filterMap Step.reference?
  groups : o.intermediate.groups = l.filterMap Step.group?

namespace Compiler

variable {c : Compiler} {k : UInt32} {root : Element} {o : Output}

/-- A compile that succeeds has a smooth plan. -/
theorem smooth_of_isSuccess (h : (c.compileAs k root).result = .ok o) (hs : o.isSuccess) :
    ∀ s ∈ plan c.config root, s.Smooth := by
  obtain ⟨hh, rfl⟩ := Run.result_eq_ok_iff.mp h
  refine Run.smooth_of_not_hasErrors (scoped_plan c.config root) (Run.ready_start k) hh ?_
  simpa [Output.isSuccess, Run.hasErrors] using hs

theorem intermediate_eq_empty (h : (c.compileAs k root).result = .ok o) (hs : ¬ o.isSuccess) :
    o.intermediate = {} := by
  obtain ⟨-, rfl⟩ := Run.result_eq_ok_iff.mp h
  unfold Output.settle at hs ⊢
  split_ifs at hs ⊢ with hsuccess
  · exact absurd hsuccess hs
  · rfl

/-- **Without extensions, a compile that succeeds yields what its plan calls for.** -/
theorem yields_of_isSuccess (hc : c.extensions = []) (h : (c.compileAs k root).result = .ok o)
    (hs : o.isSuccess) : o.Yields (plan c.config root) := by
  unfold compileAs at h
  rw [hc] at h
  obtain ⟨hh, rfl⟩ := Run.result_eq_ok_iff.mp h
  have he : (Run.steps [] { compilation := k } (plan c.config root)).hasErrors = false := by
    simpa [Output.isSuccess, Run.hasErrors] using hs
  have hrec := Run.steps_records [] (scoped_plan c.config root) (Run.ready_start k)
  obtain ⟨hsymbols, hreferences, hgroups⟩ := Run.filterMap_events hh
  rw [Run.settle_of_not_hasErrors he]
  refine ⟨?_, ?_, ?_⟩
  · rw [← hsymbols, show (fun s : Symbol => (s.id, s.data)) = (·.2) ∘ Symbol.asked from rfl,
      ← List.map_map, hrec.symbols he]
    rfl
  · rw [← hreferences, hrec.references he]
    rfl
  · rw [← hgroups, hrec.groups he]
    rfl

end Compiler

end Installer
