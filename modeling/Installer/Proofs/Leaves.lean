import Installer.Proofs.Outputs
import Installer.Proofs.SymbolBlocks
import Mathlib.Data.List.Forall2

/-! # Leaves

The elements of some names have no children and define one symbol each, of a kind that no other element
defines (`Rule.IsLeaf`). In a compile that succeeds these elements and the symbols of the kind belong
together one by one, in the order of the document (`Compiler.forall₂_leaves`), so that a statement about
all symbols of the kind, and about all elements of the name, is one about a single element that is opened
and closed without errors. -/

namespace Installer

open Compile Planned

/-- The elements of a name that are reached, in document order. -/
def Element.reachedAs (root : Element) (name : String) : List Site :=
  root.reached.filter (·.element.name == name)

/-- The rule of leaves. The elements of one name have it, and each of them defines one symbol, of a kind
that is defined nowhere else. -/
structure Rule.IsLeaf (rule : Rule) (name : String) (kind : SymbolKind) : Prop where
  named : named? name = some rule
  sole : ∀ content ∈ Content.all, ∀ p ∈ content.entries, p.2.rule? = some rule → p.1 = name
  content : rule.content = .nothing
  asides : rule.asides = []
  namesakes : rule.namesakes = [kind]
  other : ∀ rule' : Rule, kind ∈ rule'.asides ++ rule'.namesakes → rule' = rule

/-- Some rules of leaves, with the names of their elements and the kinds of their symbols. -/
def Rule.leaf? : Rule → Option (String × SymbolKind)
  | variableValue => some ("Variable", .variableValue)
  | registryValue => some ("RegistryValue", .registry)
  | customAction => some ("CustomAction", .customAction)
  | _ => none

theorem Rule.isLeaf_of_leaf? {rule : Rule} {name : String} {kind : SymbolKind}
    (h : rule.leaf? = some (name, kind)) : rule.IsLeaf name kind := by
  have hsole : ∀ content ∈ Content.all, ∀ p ∈ content.entries,
      ∀ leaf ∈ p.2.rule?.bind Rule.leaf?, p.1 = leaf.1 := by
    decide +kernel
  cases rule with
  | variableValue | registryValue | customAction =>
    cases h
    refine ⟨by decide +kernel, fun content hc p hp hr => ?_, rfl, rfl, rfl, fun rule' h' => ?_⟩
    · exact hsole content hc p hp _ (by rw [hr]; rfl)
    · cases rule' <;> simp [asides, namesakes] at h' ⊢
  | _ => cases h

namespace Rule.IsLeaf

variable {rule : Rule} {name : String} {kind : SymbolKind} (hleaf : rule.IsLeaf name kind)
include hleaf

theorem name_iff {name' : String} {rule' : Rule} (h : named? name' = some rule') :
    name' = name ↔ rule' = rule := by
  constructor
  · rintro rfl
    rw [hleaf.named] at h
    exact (Option.some.inj h).symm
  · rintro rfl
    obtain ⟨content, entry, hmem, hrule⟩ := exists_gives_of_named? h
    exact hleaf.sole content content.mem_all _ hmem hrule

theorem ne_of_absorbed {content : Content} {name' : String}
    (h : content.absorbed? = some name') : name' ≠ name := by
  rintro rfl
  have hnone := named?_of_absorbed h
  rw [hleaf.named] at hnone
  cases hnone

/-- A leaf without errors defines one symbol, when it is closed. -/
theorem exists_definition {config : Config} {unit : Option SectionKind} {scope inner : Scope}
    {site : Site} {body : Body} {l : List Step}
    (h : Entered config unit scope inner site rule body l) :
    ∃ d : Definition, d.2.kind = kind ∧ (body.close inner).filterMap Step.symbol? = [d] ∧
      ((rule.open ⟨config, unit⟩ scope site).log ++ (l ++ body.close inner)).filterMap Step.symbol? =
        [d] := by
  have hintro := introduces_open site scope rule ⟨config, unit⟩
  have hlog : (rule.open ⟨config, unit⟩ scope site).log.filterMap Step.symbol? = [] := by
    refine List.eq_nil_iff_forall_not_mem.mpr fun d hd => ?_
    have hkind := hintro.log d hd
    rw [hleaf.asides] at hkind
    exact List.not_mem_nil hkind
  have hinside : l.filterMap Step.symbol? = [] := by
    refine List.eq_nil_iff_forall_not_mem.mpr fun d hd => ?_
    have hkind := h.walk.mem_kinds d hd
    rw [h.content, hleaf.content] at hkind
    exact List.not_mem_nil hkind
  obtain ⟨others, own, hclose, hothers, hown, hkinds⟩ := hintro.close body h.body_eq inner
  replace hown := hown (Step.Smooth.closes h.close)
  rw [hleaf.asides] at hothers
  rw [hleaf.namesakes] at hown hkinds
  obtain rfl : others = [] := List.eq_nil_iff_forall_not_mem.mpr fun d hd =>
    List.not_mem_nil (hothers d hd)
  cases own with
  | none => exact absurd (hown.mp rfl) (List.cons_ne_nil _ _)
  | some d =>
    refine ⟨d, List.mem_singleton.mp (hkinds d rfl).1, hclose, ?_⟩
    rw [List.filterMap_append, List.filterMap_append, hlog, hinside, hclose]
    rfl

/-- Leaves are blocks of one symbol. -/
theorem definesBlocks {config : Config} {R : Site → Definition → Prop}
    (hR : ∀ {unit scope inner site body l}, Entered config unit scope inner site rule body l →
      ∀ d ∈ (body.close inner).filterMap Step.symbol?, R site d) :
    DefinesBlocks config [kind] (fun site block => ∃ d, block = [d] ∧ d.2.kind = kind ∧ R site d)
      (· == name) (fun _ => True) where
  absorbed h := beq_eq_false_iff_ne.mpr (hleaf.ne_of_absorbed h)
  other {content name' rule'} _ hgives hname := by
    refine ⟨trivial, fun kind' hkind hmem => ?_⟩
    rw [List.mem_singleton.mp hkind] at hmem
    have heq := (hleaf.name_iff (Rule.named?_of_gives hgives)).mpr (hleaf.other rule' hmem)
    exact absurd heq (beq_eq_false_iff_ne.mp hname)
  below h hname := by
    obtain rfl := (hleaf.name_iff h.named).mp (beq_iff_eq.mp hname)
    refine h.walk.not_below (A := (· = .nothing))
      (fun h => beq_eq_false_iff_ne.mpr (hleaf.ne_of_absorbed h)) (fun hc hgives => ?_)
      (h.content.trans hleaf.content) h.reached
    obtain ⟨entry, hmem, -⟩ := hgives
    rw [hc] at hmem
    cases hmem
  block {unit scope inner site rule' body l} h hname := by
    obtain rfl := (hleaf.name_iff h.named).mp (beq_iff_eq.mp hname)
    obtain ⟨d, hkind, hclose, hall⟩ := hleaf.exists_definition h
    rw [hall]
    exact .single ⟨d, rfl, hkind, hR h d (by rw [hclose]; exact List.mem_singleton_self d)⟩

end Rule.IsLeaf

/-- Blocks of one symbol belong to their elements one by one. -/
theorem BlocksOf.forall₂ {kind : SymbolKind} {R : Site → Definition → Prop} {sites : List Site}
    {l : List Definition}
    (h : BlocksOf [kind] (fun site block => ∃ d, block = [d] ∧ d.2.kind = kind ∧ R site d) sites l) :
    List.Forall₂ R sites (l.filter (·.2.kind = kind)) := by
  induction h with
  | nil => exact .nil
  | other hd _ ih =>
    rw [List.filter_cons_of_neg (by simpa using hd)]
    exact ih
  | block hb _ ih =>
    obtain ⟨d, rfl, hkind, hd⟩ := hb
    rw [List.singleton_append, List.filter_cons_of_pos (by simpa using hkind)]
    exact .cons hd ih

/-- **Leaves and their symbols belong together one by one**, if a compile without extensions
succeeds. -/
theorem Compiler.forall₂_leaves {c : Compiler} {k : UInt32} {root : Element} {o : Output} {rule : Rule}
    {name : String} {kind : SymbolKind} (hleaf : rule.IsLeaf name kind)
    {R : Site → Definition → Prop}
    (hR : ∀ {unit scope inner site body l}, Entered c.config unit scope inner site rule body l →
      ∀ d ∈ (body.close inner).filterMap Step.symbol?, R site d)
    (hc : c.extensions = []) (h : (c.compileAs k root).result = .ok o) (hs : o.isSuccess) :
    List.Forall₂ (fun site s => R site (s.id, s.data)) (root.reachedAs name)
      (o.intermediate.symbols.filter (·.kind = kind)) := by
  have hwix : "Wix" ≠ name := by
    rintro rfl
    have hnone : Rule.named? "Wix" = none := by decide +kernel
    rw [hleaf.named] at hnone
    cases hnone
  have hblocks := (hleaf.definesBlocks hR).blocksOf_plan trivial (beq_eq_false_iff_ne.mpr hwix)
    (smooth_of_isSuccess h hs)
  rw [← (yields_of_isSuccess hc h hs).symbols] at hblocks
  have hforall := hblocks.forall₂
  rw [List.filter_map, List.forall₂_map_right_iff] at hforall
  exact hforall

end Installer
