import Installer.Proofs.Kinds
import Installer.Proofs.Reach

/-! # Blocks of symbols

The elements of some names define their symbols in one block: packages come right after their payloads,
and the values of a component right before it. Such elements do not contain each other, so that their
blocks are in the order of the elements (`BlocksOf`). To show it for a plan without errors
(`DefinesBlocks.blocksOf_plan`) it is enough to look at one element of these names with the walk through
its children (`Entered`), and to see that the symbols of all others are of other kinds. -/

namespace Installer

open Compile Planned

/-- The name of the element satisfies `p`. -/
def Site.isNamed (p : String → Bool) (s : Site) : Bool := p s.element.name

theorem Site.isNamed_child {p : String → Bool} {s : Site} {position : Nat} {e : Element} :
    (s.child position e).isNamed p = p e.name := rfl

/-- A list of symbols with one block for each of the given elements, in order. No symbol outside of the
blocks is of one of the kinds. -/
inductive BlocksOf (kinds : List SymbolKind) (B : Site → List Definition → Prop) :
    List Site → List Definition → Prop
  | nil : BlocksOf kinds B [] []
  | other {sites : List Site} {l : List Definition} {d : Definition} (hd : d.2.kind ∉ kinds)
      (h : BlocksOf kinds B sites l) : BlocksOf kinds B sites (d :: l)
  | block {site : Site} {sites : List Site} {block l : List Definition} (hb : B site block)
      (h : BlocksOf kinds B sites l) : BlocksOf kinds B (site :: sites) (block ++ l)

namespace BlocksOf

variable {kinds : List SymbolKind} {B B' : Site → List Definition → Prop}
  {sites sites' : List Site} {l l' : List Definition}

theorem append (h : BlocksOf kinds B sites l) (h' : BlocksOf kinds B sites' l') :
    BlocksOf kinds B (sites ++ sites') (l ++ l') := by
  induction h with
  | nil => exact h'
  | other hd _ ih => exact .other hd ih
  | block hb _ ih =>
    rw [List.append_assoc]
    exact .block hb ih

theorem single {site : Site} {block : List Definition} (hb : B site block) :
    BlocksOf kinds B [site] block := by
  have h : BlocksOf kinds B [site] (block ++ []) := .block hb .nil
  rwa [List.append_nil] at h

theorem of_forall (h : ∀ d ∈ l, d.2.kind ∉ kinds) : BlocksOf kinds B [] l := by
  induction l with
  | nil => exact .nil
  | cons d l ih =>
    obtain ⟨hd, hl⟩ := List.forall_mem_cons.mp h
    exact .other hd (ih hl)

/-- Symbols of other kinds in front of the blocks. -/
theorem of_forall_append (h : ∀ d ∈ l, d.2.kind ∉ kinds) (h' : BlocksOf kinds B sites l') :
    BlocksOf kinds B sites (l ++ l') := (of_forall h).append h'

/-- Symbols of other kinds behind the blocks. -/
theorem append_of_forall (h : BlocksOf kinds B sites l) (h' : ∀ d ∈ l', d.2.kind ∉ kinds) :
    BlocksOf kinds B sites (l ++ l') := by
  have happend := h.append (of_forall h')
  rwa [List.append_nil] at happend

/-- What follows for the blocks in the list. -/
theorem imp (h : BlocksOf kinds B sites l)
    (himp : ∀ site block, block ⊆ l → B site block → B' site block) : BlocksOf kinds B' sites l := by
  induction h with
  | nil => exact .nil
  | other hd _ ih =>
    exact .other hd (ih fun site block hb => himp site block (List.subset_cons_of_subset _ hb))
  | block hb _ ih =>
    refine .block (himp _ _ (List.subset_append_left _ _) hb) (ih fun site block hb => ?_)
    exact himp site block (List.subset_append_of_subset_right _ hb)

end BlocksOf

namespace Compile

/-- An element that is opened, walked through and closed without errors, with the steps for its
children. -/
structure Entered (config : Config) (unit : Option SectionKind) (scope inner : Scope) (site : Site)
    (rule : Rule) (body : Body) (l : List Step) : Prop where
  reached : site.isReached
  core : site.element.isCore
  named : Rule.named? site.element.name = some rule
  smooth : (rule.open ⟨config, unit⟩ scope site).All Step.Smooth
  body_eq : (rule.open ⟨config, unit⟩ scope site).value.body = some body
  walk : Walk config (body.unit.or unit) body.content site body.scope 0 [] site.element.children l
    inner
  close : ∀ s ∈ body.close inner, s.Smooth

/-- The children of an entered element are read as its rule says. -/
theorem Entered.content {config : Config} {unit : Option SectionKind} {scope inner : Scope}
    {site : Site} {rule : Rule} {body : Body} {l : List Step}
    (h : Entered config unit scope inner site rule body l) : body.content = rule.content :=
  ((leads_open rule ⟨config, unit⟩ scope site).body body h.body_eq).1

section Walks
variable {config : Config} {unit : Option SectionKind} {content : Content} {site : Site}
  {scope after : Scope} {position : Nat} {seen : List String} {children : List Element}
  {l : List Step} {p : String → Bool} {A : Content → Prop}

/-- If some contents give no rule to some names and lead to each other only, then no element of these
names is reached below them. -/
theorem Walk.not_below (habsorbed : ∀ {content name}, Content.absorbed? content = some name →
      p name = false)
    (hgives : ∀ {content name rule}, A content → content.Gives name rule →
      p name = false ∧ A rule.content)
    (h : Walk config unit content site scope position seen children l after) (hc : A content)
    (hs : site.isReached) :
    (site.reachedBelow position children).filter (Site.isNamed p) = [] := by
  induction h with
  | nil => simp
  | foreign hcore _ ih =>
    rw [Site.reachedBelow_of_foreign hcore]
    exact ih hc hs
  | @absorbed unit content site scope after position seen child rest l hcore hname hseen hleaf _ ih =>
    rw [Site.reachedBelow_of_core hs hcore, Site.reachedBelow_eq_nil _ hleaf, List.cons_append,
      List.filter_cons_of_neg (by simp [Site.isNamed_child, habsorbed hname])]
    exact ih hc hs
  | @entered unit content site scope inner after position seen child rest rule o body l l' hcore
      hrule hneed hopen hsmooth hbody hchildren hclose hrest ihchildren ihrest =>
    subst hopen
    have hcontent := ((leads_open rule ⟨config, unit⟩ scope _).body body hbody).1
    obtain ⟨hname, hbelow⟩ := hgives hc hrule
    rw [Site.reachedBelow_of_core hs hcore, List.filter_append,
      List.filter_cons_of_neg (by simp [Site.isNamed_child, hname]),
      ihchildren (by rwa [hcontent]) (Site.isReached_child hs hcore), ihrest hc hs, List.nil_append]

/-- The elements whose names satisfy `p` define blocks. All contents that satisfy `A` lead to contents
that satisfy it, but for those of these elements, and everything else that is defined is of other kinds. -/
structure DefinesBlocks (config : Config) (kinds : List SymbolKind)
    (B : Site → List Definition → Prop) (p : String → Bool) (A : Content → Prop) : Prop where
  absorbed : ∀ {content name}, Content.absorbed? content = some name → p name = false
  other : ∀ {content name rule}, A content → content.Gives name rule → p name = false →
    A rule.content ∧ ∀ kind ∈ kinds, kind ∉ rule.asides ++ rule.namesakes
  below : ∀ {unit scope inner site rule body l}, Entered config unit scope inner site rule body l →
    site.isNamed p →
      (site.reachedBelow 0 site.element.children).filter (Site.isNamed p) = []
  block : ∀ {unit scope inner site rule body l}, Entered config unit scope inner site rule body l →
    site.isNamed p → BlocksOf kinds B [site]
      (((rule.open ⟨config, unit⟩ scope site).log ++ (l ++ body.close inner)).filterMap Step.symbol?)

namespace DefinesBlocks

variable {kinds : List SymbolKind} {B : Site → List Definition → Prop}
  (hd : DefinesBlocks config kinds B p A)
include hd

/-- **The blocks below an element** are those of the elements that are reached. -/
theorem blocksOf (h : Walk config unit content site scope position seen children l after)
    (hc : A content) (hs : site.isReached) :
    BlocksOf kinds B ((site.reachedBelow position children).filter (Site.isNamed p))
      (l.filterMap Step.symbol?) := by
  induction h with
  | nil => simpa using BlocksOf.nil
  | foreign hcore _ ih =>
    rw [Site.reachedBelow_of_foreign hcore]
    exact ih hc hs
  | @absorbed unit content site scope after position seen child rest l hcore hname hseen hleaf _ ih =>
    rw [Site.reachedBelow_of_core hs hcore, Site.reachedBelow_eq_nil _ hleaf, List.cons_append,
      List.filter_cons_of_neg (by simp [Site.isNamed_child, hd.absorbed hname])]
    exact ih hc hs
  | @entered unit content site scope inner after position seen child rest rule o body l l' hcore
      hgives hneed hopen hsmooth hbody hchildren hclose hrest ihchildren ihrest =>
    subst hopen
    have hreached : (site.child position child).isReached := Site.isReached_child hs hcore
    have hentered : Entered config unit scope inner (site.child position child) rule body l :=
      ⟨hreached, hcore, Rule.named?_of_gives hgives, hsmooth, hbody, hchildren, hclose⟩
    rw [Site.reachedBelow_of_core hs hcore, List.filter_append, List.filterMap_append]
    refine BlocksOf.append ?_ (ihrest hc hs)
    cases hname : p child.name with
    | true =>
      have hbelow : ((site.child position child).reachedBelow 0 child.children).filter
        (Site.isNamed p) = [] := hd.below hentered hname
      rw [List.filter_cons_of_pos (by rw [Site.isNamed_child, hname]), hbelow]
      exact hd.block hentered hname
    | false =>
      -- nothing that the element itself defines is of one of the kinds
      obtain ⟨hcontent, hkinds⟩ := hd.other hc hgives hname
      have hrule := introduces_open (site.child position child) scope rule ⟨config, unit⟩
      have hinner := ihchildren (by rwa [hentered.content]) hreached
      rw [List.filter_cons_of_neg (by simp [Site.isNamed_child, hname]), List.filterMap_append,
        List.filterMap_append]
      refine .of_forall_append (fun d hmem hkind => ?_)
        (hinner.append_of_forall fun d hmem hkind => ?_)
      · exact hkinds _ hkind (List.mem_append_left _ (hrule.log d hmem))
      · exact hkinds _ hkind (List.mem_append.mpr (hrule.kind_of_mem_close hbody hmem))

/-- **The blocks of a plan without errors.** -/
theorem blocksOf_plan (hdocument : A .document) (hname : p "Wix" = false) {root : Element}
    (h : ∀ s ∈ plan config root, s.Smooth) :
    BlocksOf kinds B (root.reached.filter (Site.isNamed p))
      ((plan config root).filterMap Step.symbol?) := by
  obtain ⟨hroot, l, after, hwalk, hsymbols⟩ := exists_walk_symbols h
  obtain ⟨hcore, hwix⟩ := Element.core_of_qname hroot
  have hnot : (Site.root root).isNamed p = false := by
    rw [Site.isNamed, Site.root, hwix, hname]
  rw [hsymbols, Element.reached_eq hcore, List.filter_cons_of_neg (by simp [hnot])]
  exact hd.blocksOf hwalk hdocument (Site.isReached_root hcore)

end DefinesBlocks

end Walks

end Compile

end Installer
