import Installer.Proofs.Runs

/-! # Putting intermediates together

Intermediates are put together by `Intermediate.append`, which is associative and has the empty one as
its identity. Sections carry the number of the compile that they come from; `Intermediate.renumber`
changes these numbers. A run does not look at its own number, so that all runs with other numbers give
the same up to them (`Run.steps_renumber`). -/

namespace Installer

namespace Intermediate

@[ext] theorem ext {x y : Intermediate} (hs : x.sections = y.sections) (hy : x.symbols = y.symbols)
    (hr : x.references = y.references) (hg : x.groups = y.groups) : x = y := by
  cases x; cases y; simp_all

@[simp] theorem moveUp_zero : moveUp 0 = id := rfl

theorem moveUp_comp (m n : Nat) : moveUp m ∘ moveUp n = moveUp (n + m) := by
  funext s
  simp [moveUp, Nat.add_assoc]

@[simp] theorem empty_append (x : Intermediate) : append {} x = x := by
  ext <;> simp [append]

@[simp] theorem append_empty (x : Intermediate) : x.append {} = x := by
  ext <;> simp [append]

theorem append_assoc (x y z : Intermediate) :
    (x.append y).append z = x.append (y.append z) := by
  ext1
  · simp [append]
  · simp [append, moveUp_comp, Nat.add_comm]
  · simp [append]
  · simp [append]

/-- It does not matter where a left fold starts. -/
theorem foldl_append (x : Intermediate) (ys : List Intermediate) :
    ys.foldl append x = x.append (ys.foldl append {}) := by
  induction ys generalizing x with
  | nil => simp
  | cons y ys ih =>
    rw [List.foldl_cons, List.foldl_cons, ih, ih (append {} y), empty_append, append_assoc]

theorem append_addReference (x y : Intermediate) (r : SymbolReference) :
    x.append (y.addReference r) = (x.append y).addReference r := by
  simp [append, addReference]

theorem append_addGroup (x y : Intermediate) (g : GroupReference) :
    x.append (y.addGroup g) = (x.append y).addGroup g := by
  simp [append, addGroup]

theorem append_addSection (x y : Intermediate) (s : Section) :
    x.append (y.addSection s) = (x.append y).addSection s := by
  simp [append, addSection]

/-! ### Numbers of compiles -/

/-- The intermediate with other numbers of compiles. -/
def renumber (f : UInt32 → UInt32) (x : Intermediate) : Intermediate :=
  { x with sections := x.sections.map fun s => { s with compilation := f s.compilation } }

theorem renumber_append (f : UInt32 → UInt32) (x y : Intermediate) :
    (x.append y).renumber f = (x.renumber f).append (y.renumber f) := by
  simp [renumber, append]

end Intermediate

/-- The output with other numbers of compiles. -/
def Output.renumber (f : UInt32 → UInt32) (o : Output) : Output :=
  { o with intermediate := o.intermediate.renumber f }

/-- The outcome with other numbers of compiles. -/
def Outcome.renumber (f : UInt32 → UInt32) (x : Outcome) : Outcome :=
  { x with result := x.result.map (.renumber f) }

theorem Output.settle_renumber (f : UInt32 → UInt32) (o : Output) :
    (o.renumber f).settle = o.settle.renumber f := by
  unfold settle isSuccess renumber
  split_ifs <;> rfl

theorem Output.renumber_append (f : UInt32 → UInt32) (x y : Output) :
    (x.append y).renumber f = (x.renumber f).append (y.renumber f) := by
  simp [renumber, append, Intermediate.renumber_append]

/-- Outputs that are put together one after another. -/
theorem Output.foldr_append (os : List Output) : os.foldr append {} =
    ⟨(os.map (·.intermediate)).foldl Intermediate.append {}, os.flatMap (·.diagnostics)⟩ := by
  induction os with
  | nil => rfl
  | cons o os ih =>
    rw [List.foldr_cons, ih, List.map_cons, List.foldl_cons, Intermediate.empty_append,
      Intermediate.foldl_append o.intermediate]
    simp [append]

namespace Run

/-- The state of a run with another number. -/
def renumber (f : UInt32 → UInt32) (r : Run) : Run :=
  { r with compilation := f r.compilation, intermediate := r.intermediate.renumber f }

variable (f : UInt32 → UInt32) (r : Run)

theorem add_renumber {g : Intermediate → Intermediate}
    (hg : ∀ x, g (x.renumber f) = (g x).renumber f) :
    (r.renumber f).add g = (r.add g).renumber f := by
  unfold add
  have he : (r.renumber f).hasErrors = r.hasErrors := rfl
  rw [he]
  split_ifs
  · rfl
  · simp [renumber, hg]

theorem refer_renumber (s : SymbolReference) :
    (r.renumber f).add (·.addReference s) = (r.add (·.addReference s)).renumber f :=
  add_renumber f r fun _ => rfl

theorem group_renumber (g : GroupReference) :
    (r.renumber f).add (·.addGroup g) = (r.add (·.addGroup g)).renumber f :=
  add_renumber f r fun _ => rfl

theorem emit_renumber (id : Identifier) (data : Symbol.Data) :
    (r.renumber f).emit id data = (r.emit id data).renumber f := by
  have he : (r.renumber f).hasErrors = r.hasErrors := rfl
  have ha : (r.renumber f).active = r.active := rfl
  unfold emit
  rw [he, ha]
  split_ifs
  · rfl
  · cases r.active with
    | none => rfl
    | some unit =>
      have hl : (r.intermediate.renumber f).sections.length = r.intermediate.sections.length := by
        simp [Intermediate.renumber]
      simp only [renumber, Intermediate.addSymbol?, hl]
      split_ifs <;> rfl

theorem openUnit_renumber (header : UnitHeader) :
    (r.renumber f).openUnit header = (r.openUnit header).renumber f := by
  simp [openUnit, renumber, Intermediate.renumber, Intermediate.addSection]

theorem runHook_renumber (node : Offer) (hook : Hook) :
    (r.renumber f).runHook node hook =
      ((r.runHook node hook).1.renumber f, (r.runHook node hook).2) := by
  induction hook generalizing r with
  | done handled => rfl
  | report d next ih => exact ih (r.report d)
  | emit id definition fields next ih =>
    have ha : (r.renumber f).active = r.active := rfl
    rw [runHook, runHook, ha]
    cases r.active with
    | none => exact ih (r.report _)
    | some unit =>
      dsimp only
      rw [emit_renumber]
      exact ih _
  | refer s next ih =>
    rw [runHook, runHook, refer_renumber]
    exact ih _
  | group g next ih =>
    rw [runHook, runHook, group_renumber]
    exact ih _
  | observe next ih => exact ih _ r

theorem offer_renumber (extensions : List Extension) (node : Offer) (context : Context) :
    (r.renumber f).offer extensions node context =
      (r.offer extensions node context).renumber f := by
  unfold offer
  cases node.space?.bind (Extension.find? extensions) with
  | none => rfl
  | some extension =>
    dsimp only
    rw [runHook_renumber]
    split_ifs <;> rfl

theorem step_renumber (extensions : List Extension) (s : Step) :
    (r.renumber f).step extensions s = (r.step extensions s).renumber f := by
  cases s with
  | report d => rfl
  | openUnit header => exact openUnit_renumber f r header
  | closeUnit => rfl
  | emit id data => exact emit_renumber f r id data
  | refer s => exact refer_renumber f r s
  | group g => exact group_renumber f r g
  | offer node context => exact offer_renumber f r extensions node context
  | halt h => rfl

/-- A run does not look at its number. -/
theorem steps_renumber (extensions : List Extension) (l : List Step) :
    (r.renumber f).steps extensions l = (r.steps extensions l).renumber f := by
  induction l generalizing r with
  | nil => rfl
  | cons s l ih =>
    rw [steps_cons, steps_cons, step_renumber]
    have hh : ((r.step extensions s).renumber f).halted = (r.step extensions s).halted := rfl
    rw [hh]
    split_ifs
    · rfl
    · exact ih _

theorem outcome_renumber : (r.renumber f).outcome = r.outcome.renumber f := by
  have hs : Output.settle ⟨(r.renumber f).intermediate, (r.renumber f).diagnostics⟩ =
      (Output.settle ⟨r.intermediate, r.diagnostics⟩).renumber f :=
    Output.settle_renumber f ⟨r.intermediate, r.diagnostics⟩
  have hh : (r.renumber f).halted = r.halted := rfl
  unfold outcome
  rw [hs, hh]
  cases hr : r.halted <;> simp [Outcome.renumber, renumber, Except.map]

end Run

/-- Compiling a document with another number gives the same, with another number. -/
theorem Compiler.compileAs_renumber (c : Compiler) (f : UInt32 → UInt32) (compilation : UInt32)
    (root : Element) :
    c.compileAs (f compilation) root = (c.compileAs compilation root).renumber f := by
  have hstart : ({ compilation := f compilation } : Run) = Run.renumber f { compilation } := rfl
  unfold compileAs
  rw [hstart, Run.steps_renumber, Run.outcome_renumber]

end Installer
