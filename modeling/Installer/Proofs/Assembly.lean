import Installer.Proofs.Append
import Mathlib.Algebra.Group.Nat.Defs

/-! # Intermediates that are built up

Two intermediates are built up side by side (`Bench`): sections, symbols and references are added to
them, a symbol only if its section is there, and each may be moved to the end of the other. What comes of
it are exactly the intermediates whose symbols all have a section (`Intermediate.built_iff`). On these
`Intermediate.append` keeps the section of every symbol, whatever becomes of its index. -/

namespace Installer

namespace Intermediate

/-- Every symbol has a section. -/
def Grounded (x : Intermediate) : Prop := ∀ s ∈ x.symbols, s.sectionIndex < x.sections.length

instance : DecidablePred Grounded := fun x =>
  inferInstanceAs (Decidable (∀ s ∈ x.symbols, s.sectionIndex < x.sections.length))

/-! ### Additions -/

/-- What is added to an intermediate. -/
inductive Addition where
  | ofSection (s : Section)
  | ofSymbol (s : Symbol)
  | ofReference (r : SymbolReference)
  | ofGroup (r : GroupReference)

/-- Add something at the end. A symbol without a section is not added. -/
def add (x : Intermediate) : Addition → Intermediate
  | .ofSection s => x.addSection s
  | .ofSymbol s => (x.addSymbol? s).getD x
  | .ofReference r => x.addReference r
  | .ofGroup r => x.addGroup r

theorem add_ofSymbol_of_lt {x : Intermediate} {s : Symbol}
    (h : s.sectionIndex < x.sections.length) :
    x.add (.ofSymbol s) = { x with symbols := x.symbols ++ [s] } := by
  rw [add, addSymbol?, if_pos h, Option.getD_some]

theorem add_ofSymbol_of_le {x : Intermediate} {s : Symbol}
    (h : x.sections.length ≤ s.sectionIndex) : x.add (.ofSymbol s) = x := by
  rw [add, addSymbol?, if_neg (by omega), Option.getD_none]

namespace Grounded

variable {x y : Intermediate}

theorem empty : Grounded Intermediate.empty := by simp [Grounded, Intermediate.empty]

theorem add (h : x.Grounded) (a : Addition) : (x.add a).Grounded := by
  cases a with
  | ofSection s =>
    intro t ht
    have hlt := h t ht
    simp only [Intermediate.add, addSection, List.length_append, List.length_singleton]
    omega
  | ofSymbol s =>
    by_cases hs : s.sectionIndex < x.sections.length
    · rw [add_ofSymbol_of_lt hs]
      exact List.forall_mem_append.mpr ⟨h, by simpa using hs⟩
    · rwa [add_ofSymbol_of_le (by omega)]
  | ofReference r => exact h
  | ofGroup r => exact h

theorem append (hx : x.Grounded) (hy : y.Grounded) : (x.append y).Grounded := by
  simp only [Grounded, Intermediate.append, List.length_append, List.forall_mem_append,
    List.forall_mem_map, moveUp]
  refine ⟨fun s hs => ?_, fun s hs => ?_⟩
  · have hlt := hx s hs
    omega
  · have hlt := hy s hs
    omega

/-- The section of a symbol. -/
theorem exists_section (h : x.Grounded) {s : Symbol} (hs : s ∈ x.symbols) :
    ∃ t, x.sectionOf? s = some t :=
  ⟨_, List.getElem?_eq_getElem (h s hs)⟩

end Grounded

/-! ### Sections after an append -/

theorem sectionOf?_append_left {x : Intermediate} (hx : x.Grounded) (y : Intermediate) {s : Symbol}
    (hs : s ∈ x.symbols) : (x.append y).sectionOf? s = x.sectionOf? s :=
  List.getElem?_append_left (hx s hs)

theorem sectionOf?_append_right (x y : Intermediate) (s : Symbol) :
    (x.append y).sectionOf? (moveUp x.sections.length s) = y.sectionOf? s := by
  simp only [sectionOf?, append, moveUp]
  rw [List.getElem?_append_right (Nat.le_add_left _ _), Nat.add_sub_cancel]

/-- Indices of 32 bits are enough for as many sections. -/
theorem toNat_add_ofNat {x y : Intermediate} (hy : y.Grounded)
    (h : x.sections.length + y.sections.length ≤ 2 ^ 32) {s : Symbol} (hs : s ∈ y.symbols) :
    (UInt32.ofNat s.sectionIndex + UInt32.ofNat x.sections.length).toNat =
      (moveUp x.sections.length s).sectionIndex := by
  have hlt := hy s hs
  rw [UInt32.toNat_add, UInt32.toNat_ofNat', UInt32.toNat_ofNat', ← Nat.add_mod]
  exact Nat.mod_eq_of_lt (show s.sectionIndex + x.sections.length < 2 ^ 32 by omega)

end Intermediate

/-! ### Two intermediates side by side -/

/-- Two intermediates that are built up. -/
structure Bench where
  first : Intermediate := {}
  second : Intermediate := {}

namespace Bench

/-- What is done to one of the two intermediates, the first one or not: something is added to it, or
the other one is moved to its end. -/
inductive Act where
  | add (toFirst : Bool) (a : Intermediate.Addition)
  | append (toFirst : Bool)

def step (b : Bench) : Act → Bench
  | .add true a => { b with first := b.first.add a }
  | .add false a => { b with second := b.second.add a }
  | .append true => ⟨b.first.append b.second, {}⟩
  | .append false => ⟨{}, b.second.append b.first⟩

def run (b : Bench) (acts : List Act) : Bench := acts.foldl step b

/-- Every symbol of the two intermediates has a section. -/
def Grounded (b : Bench) : Prop := b.first.Grounded ∧ b.second.Grounded

theorem Grounded.step {b : Bench} (h : b.Grounded) (act : Act) : (b.step act).Grounded := by
  obtain ⟨hfirst, hsecond⟩ := h
  cases act with
  | add toFirst a =>
    cases toFirst with
    | true => exact ⟨hfirst.add a, hsecond⟩
    | false => exact ⟨hfirst, hsecond.add a⟩
  | append toFirst =>
    cases toFirst with
    | true => exact ⟨hfirst.append hsecond, .empty⟩
    | false => exact ⟨.empty, hsecond.append hfirst⟩

/-- **No symbol ever lacks a section.** -/
theorem Grounded.run {b : Bench} (h : b.Grounded) (acts : List Act) : (b.run acts).Grounded := by
  induction acts generalizing b with
  | nil => exact h
  | cons act acts ih => exact ih (h.step act)

theorem first_run_add (b : Bench) (as : List Intermediate.Addition) :
    (b.run (as.map (.add true))).first = as.foldl Intermediate.add b.first := by
  induction as generalizing b with
  | nil => rfl
  | cons a as ih => exact ih (b.step (.add true a))

end Bench

namespace Intermediate

/-- One of two intermediates that are built up, starting with nothing. -/
def Built (x : Intermediate) : Prop :=
  ∃ acts : List Bench.Act, x = (Bench.run {} acts).first ∨ x = (Bench.run {} acts).second

theorem Built.grounded {x : Intermediate} (h : x.Built) : x.Grounded := by
  obtain ⟨acts, h⟩ := h
  have hrun : (Bench.run {} acts).Grounded := Bench.Grounded.run ⟨.empty, .empty⟩ acts
  rcases h with rfl | rfl
  · exact hrun.1
  · exact hrun.2

/-! ### Building an intermediate -/

theorem foldl_add_ofSection (x : Intermediate) (ss : List Section) :
    (ss.map .ofSection).foldl add x = { x with sections := x.sections ++ ss } := by
  induction ss generalizing x with
  | nil => simp
  | cons s ss ih => simp [ih, add, addSection]

theorem foldl_add_ofSymbol (x : Intermediate) (ss : List Symbol)
    (h : ∀ s ∈ ss, s.sectionIndex < x.sections.length) :
    (ss.map .ofSymbol).foldl add x = { x with symbols := x.symbols ++ ss } := by
  induction ss generalizing x with
  | nil => simp
  | cons s ss ih =>
    obtain ⟨hs, hss⟩ := List.forall_mem_cons.mp h
    rw [List.map_cons, List.foldl_cons, add_ofSymbol_of_lt hs,
      ih { x with symbols := x.symbols ++ [s] } hss]
    simp

theorem foldl_add_ofReference (x : Intermediate) (rs : List SymbolReference) :
    (rs.map .ofReference).foldl add x = { x with references := x.references ++ rs } := by
  induction rs generalizing x with
  | nil => simp
  | cons r rs ih => simp [ih, add, addReference]

theorem foldl_add_ofGroup (x : Intermediate) (rs : List GroupReference) :
    (rs.map .ofGroup).foldl add x = { x with groups := x.groups ++ rs } := by
  induction rs generalizing x with
  | nil => simp
  | cons r rs ih => simp [ih, add, addGroup]

/-- What is to be added to get an intermediate: its sections first, as its symbols need them. -/
def additions (x : Intermediate) : List Addition :=
  x.sections.map .ofSection ++ x.symbols.map .ofSymbol ++ x.references.map .ofReference ++
    x.groups.map .ofGroup

theorem Grounded.foldl_additions {x : Intermediate} (h : x.Grounded) :
    x.additions.foldl Intermediate.add {} = x := by
  simp only [additions, List.foldl_append, foldl_add_ofSection, List.nil_append]
  rw [foldl_add_ofSymbol { sections := x.sections } x.symbols h, foldl_add_ofReference,
    foldl_add_ofGroup]
  simp

/-- **An intermediate can be built if and only if all its symbols have a section.** -/
theorem built_iff {x : Intermediate} : x.Built ↔ x.Grounded := by
  refine ⟨Built.grounded, fun h => ⟨x.additions.map (.add true), .inl ?_⟩⟩
  rw [Bench.first_run_add, h.foldl_additions]

/-- What comes of an append: the sections, symbols and references of both in order, with the indices
of the later symbols moved up, and every symbol in the section it was in before. -/
structure Joins (x y z : Intermediate) : Prop where
  sections : z.sections = x.sections ++ y.sections
  symbols : z.symbols = x.symbols ++ y.symbols.map (moveUp x.sections.length)
  references : z.references = x.references ++ y.references
  groups : z.groups = x.groups ++ y.groups
  earlier : ∀ s ∈ x.symbols, ∃ t, x.sectionOf? s = some t ∧ z.sectionOf? s = some t
  later : ∀ s ∈ y.symbols, ∃ t, y.sectionOf? s = some t ∧
    z.sectionOf? (moveUp x.sections.length s) = some t
  indices : x.sections.length + y.sections.length ≤ 2 ^ 32 → ∀ s ∈ y.symbols,
    (UInt32.ofNat s.sectionIndex + UInt32.ofNat x.sections.length).toNat =
      (moveUp x.sections.length s).sectionIndex

theorem joins_append {x y : Intermediate} (hx : x.Grounded) (hy : y.Grounded) :
    Joins x y (x.append y) where
  sections := rfl
  symbols := rfl
  references := rfl
  groups := rfl
  earlier s hs := by
    obtain ⟨t, ht⟩ := hx.exists_section hs
    exact ⟨t, ht, (sectionOf?_append_left hx y hs).trans ht⟩
  later s hs := by
    obtain ⟨t, ht⟩ := hy.exists_section hs
    exact ⟨t, ht, (sectionOf?_append_right x y s).trans ht⟩
  indices h _ hs := toNat_add_ofNat hy h hs

/-- **Intermediates that are built up are a monoid under `append`.** Their symbols all have sections,
an append of two is one again and puts both together, and it is associative with the empty one as its
identity. -/
theorem built_monoid {x y z : Intermediate} (hx : x.Built) (hy : y.Built) (hz : z.Built) :
    ((∀ s ∈ x.symbols, s.sectionIndex < x.sections.length) ∧ empty.Built ∧ (x.append y).Built) ∧
      ((x.append y).append z = x.append (y.append z) ∧ empty.append x = x ∧ x.append empty = x) ∧
      Joins x y (x.append y) ∧ Joins (x.append y) z ((x.append y).append z) := by
  have hxy := hx.grounded.append hy.grounded
  exact ⟨⟨hx.grounded, built_iff.mpr .empty, built_iff.mpr hxy⟩,
    ⟨append_assoc x y z, empty_append x, append_empty x⟩,
    joins_append hx.grounded hy.grounded, joins_append hxy hz.grounded⟩

end Intermediate

namespace Sample

/-- A property of the section with the given index. -/
def propertyAt (index : Nat) (id : String) : Symbol :=
  ⟨.ofName id, index, .property ⟨some "1", false, false, false⟩⟩

/-- An intermediate is moved into another one, and a symbol of a section that is not there is left
out. -/
def acts : List Bench.Act := [
  .add true (.ofSection ⟨some "F", .fragment, 0⟩),
  .add false (.ofSection ⟨some "M", .module, 1⟩),
  .add false (.ofSymbol (propertyAt 0 "P")),
  .add false (.ofSymbol (propertyAt 1 "Q")),
  .append true,
  .add false (.ofSection ⟨none, .patch, 2⟩),
  .add false (.ofSymbol (propertyAt 0 "R"))]

end Sample

/-- The property `P` is in the module before and after it is moved. -/
theorem built_monoid_moved :
    ∃ x y : Intermediate, x.Built ∧ y.Built ∧ x.symbols = [Sample.propertyAt 1 "P"] ∧
      y.symbols = [Sample.propertyAt 0 "R"] ∧
      Intermediate.Joins x y (x.append y) ∧
      (x.append y).symbols = [Sample.propertyAt 1 "P", Sample.propertyAt 2 "R"] ∧
      (x.append y).sectionOf? (Sample.propertyAt 2 "R") = some ⟨none, .patch, 2⟩ := by
  have hx : (Bench.run {} Sample.acts).first.Built := ⟨Sample.acts, .inl rfl⟩
  have hy : (Bench.run {} Sample.acts).second.Built := ⟨Sample.acts, .inr rfl⟩
  exact ⟨_, _, hx, hy, by decide, by decide, (Intermediate.built_monoid hx hy hx).2.2.1, by decide,
    by decide⟩

end Installer
