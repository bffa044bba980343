import Installer.Document.Arena
import Installer.Proofs.Trail
import Mathlib

/-! # Documents as trees

The nodes of a document point at each other, and nothing in `Document` keeps them from pointing anywhere. A
document is sound (`Document.Sound`) if every node but the root has a parent with a smaller number and the
children of a node are the nodes that have it as their parent, in order. To add a child or to change what
else a node holds keeps a document sound (`Document.Sound.push`, `Document.Sound.modify`).

A sound document is a tree (`Document.Sound.isTree`), and the elements that are made of its nodes show it
(`Document.Shows`): the walk through them is the walk through the nodes, and their parents and positions are
those of the nodes. That the walk visits every node once is proved by counting: a node is visited as often as
its parent, which has a smaller number. -/

namespace Installer

/-! ### Sites -/

namespace Site

/-- The element around this one, if it is not the root. -/
def parent? (s : Site) : Option Element := s.ancestors.head?

end Site

namespace Element

/-- The number of the node of the element. -/
def nodeId (e : Element) : NodeId := .ofNat e.tag.number

/-- The element and all elements below it, in the order of the document. -/
def elements (e : Element) : List Element := e.sites.map (·.element)

theorem mem_sitesOfList {es : List Element} {start : Nat} {ancestors : List Element} {s : Site} :
    s ∈ sitesOfList start ancestors es ↔
      ∃ (i : Nat) (e : Element), es[i]? = some e ∧ s ∈ e.sitesAt (start + i) ancestors := by
  induction es generalizing start with
  | nil => simp [sitesOfList]
  | cons e es ih =>
    rw [sitesOfList, List.mem_append, ih]
    constructor
    · rintro (hs | ⟨i, e', he', hs⟩)
      · exact ⟨0, e, rfl, hs⟩
      · exact ⟨i + 1, e', he', by rwa [← Nat.add_right_comm, Nat.add_assoc] at hs⟩
    · rintro ⟨_ | i, e', he', hs⟩
      · cases he'
        exact .inl hs
      · exact .inr ⟨i, e', he', by rwa [← Nat.add_right_comm, Nat.add_assoc]⟩

/-- A site is that of the element itself or that of a child of another site. -/
theorem eq_or_child_of_mem (e : Element) : ∀ (position : Nat) (ancestors : List Element),
    ∀ s ∈ e.sitesAt position ancestors, s = ⟨e, position, ancestors⟩ ∨
      ∃ t ∈ e.sitesAt position ancestors, ∃ i c, t.element.children[i]? = some c ∧ s = t.child i c := by
  induction e using Element.induct with
  | node tag children ih =>
    intro position ancestors s hs
    rw [sitesAt, List.mem_cons, mem_sitesOfList] at hs
    rcases hs with rfl | ⟨i, c, hc, hs⟩
    · exact .inl rfl
    · right
      rw [Nat.zero_add] at hs
      rcases ih c (List.mem_of_getElem? hc) i _ s hs with rfl | ⟨t, ht, hchild⟩
      · exact ⟨_, List.mem_cons_self, i, c, hc, rfl⟩
      · refine ⟨t, List.mem_cons_of_mem _ (mem_sitesOfList.mpr ⟨i, c, hc, ?_⟩), hchild⟩
        rwa [Nat.zero_add]

theorem mem_sites_cases {root : Element} {s : Site} (hs : s ∈ root.sites) : s = Site.root root ∨
    ∃ t ∈ root.sites, ∃ i c, t.element.children[i]? = some c ∧ s = t.child i c :=
  eq_or_child_of_mem root 0 [] s hs

theorem mem_elements {root : Element} {s : Site} (hs : s ∈ root.sites) : s.element ∈ root.elements :=
  List.mem_map_of_mem hs

/-- The walk goes through the element and then through its children, wherever the element stands. -/
theorem map_element_sitesAt (e : Element) : ∀ (position : Nat) (ancestors : List Element),
    (e.sitesAt position ancestors).map (·.element) = e :: e.children.flatMap elements := by
  induction e using Element.induct with
  | node tag children ih =>
    have hlist : ∀ (es : List Element) (start : Nat) (ancestors : List Element),
        (∀ c ∈ es, c ∈ children) →
          (sitesOfList start ancestors es).map (·.element) = es.flatMap elements := by
      intro es
      induction es with
      | nil => intros; rw [sitesOfList]; rfl
      | cons c es ihes =>
        intro start ancestors hes
        obtain ⟨hc, hes⟩ := List.forall_mem_cons.mp hes
        rw [sitesOfList, List.map_append, List.flatMap_cons, ih c hc, ihes _ _ hes, elements, sites,
          ih c hc]
    intro position ancestors
    rw [sitesAt, List.map_cons, hlist children _ _ fun _ hc => hc]
    rfl

theorem elements_eq (e : Element) : e.elements = e :: e.children.flatMap elements :=
  map_element_sitesAt e 0 []

/-- Every element but the first one is in one list of children. -/
theorem perm_elements (e : Element) : e.elements.Perm (e :: e.elements.flatMap children) := by
  induction e using Element.induct with
  | node tag children ih =>
    have hbelow : (children.flatMap elements).Perm
        (children.flatMap fun c => c :: c.elements.flatMap Element.children) :=
      List.Perm.flatMap_left _ ih
    rw [elements_eq, List.flatMap_cons, List.flatMap_assoc]
    have hlists := List.map_append_flatMap_perm children id fun c => c.elements.flatMap Element.children
    rw [List.map_id] at hlists
    exact (hbelow.trans hlists.symm).cons _

end Element

namespace Document

variable {d : Document} {id p x : NodeId}

/-! ### Numbers -/

/-- The numbers of the nodes. -/
def ids (d : Document) : List NodeId := (List.range d.nodes.length).map .ofNat

section Numbers
variable (h : d.nodes.length ≤ 2 ^ 32)
include h

theorem mem_ids : id ∈ d.ids ↔ id.toNat < d.nodes.length := by
  constructor
  · intro hid
    obtain ⟨n, hn, rfl⟩ := List.mem_map.mp hid
    have hn := List.mem_range.mp hn
    rwa [UInt32.toNat_ofNat_of_lt' (hn.trans_le h)]
  · intro hid
    exact List.mem_map.mpr ⟨id.toNat, List.mem_range.mpr hid, UInt32.ofNat_toNat⟩

theorem pairwise_ids : d.ids.Pairwise (· < ·) := by
  rw [ids, List.pairwise_map]
  refine List.pairwise_lt_range.imp_of_mem fun hm hn hlt => ?_
  rw [List.mem_range] at hm hn
  rwa [UInt32.lt_iff_toNat_lt, UInt32.toNat_ofNat_of_lt' (hm.trans_le h),
    UInt32.toNat_ofNat_of_lt' (hn.trans_le h)]

theorem nodup_ids : d.ids.Nodup := (pairwise_ids h).imp fun hlt heq => by
  rw [heq, UInt32.lt_iff_toNat_lt] at hlt
  exact Nat.lt_irrefl _ hlt

end Numbers

/-! ### Sound documents -/

/-- Every node but the root has a parent with a smaller number, and the children of a node are the nodes
that have it as their parent, in the order of their numbers. -/
structure Sound (d : Document) : Prop where
  small : d.nodes.length ≤ 2 ^ 32
  nonempty : d.nodes ≠ []
  root : d.parent? 0 = none
  parent : ∀ id ∈ d.ids, id ≠ 0 → ∃ p, d.parent? id = some p ∧ p < id
  children : ∀ id ∈ d.ids, d.children id = d.ids.filter (d.parent? · == some id)

theorem sound_ofRoot (node : Node) (hp : node.parent = none) (hc : node.children = []) :
    (⟨[node]⟩ : Document).Sound := by
  refine ⟨by simp, by simp, hp, ?_, ?_⟩ <;>
    simp [ids, parent?, children, node?, hp, hc]

/-- A node that is not there has no children. -/
theorem children_eq_nil (h : d.nodes.length ≤ id.toNat) : d.children id = [] := by
  rw [children, node?, List.getElem?_eq_none h]
  rfl

namespace Sound

variable (hd : d.Sound)
include hd

theorem zero_mem : 0 ∈ d.ids := (mem_ids hd.small).mpr (List.length_pos_iff.mpr hd.nonempty)

/-- A parent is a node of the document with a smaller number. -/
theorem parent_mem (hid : id ∈ d.ids) (h : d.parent? id = some p) : p ∈ d.ids ∧ p < id := by
  have hzero : id ≠ 0 := by
    rintro rfl
    rw [hd.root] at h
    cases h
  obtain ⟨p', hp', hlt⟩ := hd.parent id hid hzero
  obtain rfl : p' = p := Option.some.inj (hp'.symm.trans h)
  refine ⟨?_, hlt⟩
  rw [mem_ids hd.small] at hid ⊢
  exact Nat.lt_trans (UInt32.lt_iff_toNat_lt.mp hlt) hid

/-- **Children and parents** agree with each other. -/
theorem mem_children : id ∈ d.children p ↔ id ∈ d.ids ∧ d.parent? id = some p := by
  by_cases hp : p ∈ d.ids
  · rw [hd.children p hp, List.mem_filter, beq_iff_eq]
  · rw [d.children_eq_nil (by simpa [mem_ids hd.small] using hp)]
    exact iff_of_false List.not_mem_nil fun ⟨hid, hparent⟩ => hp (hd.parent_mem hid hparent).1

theorem mem_of_mem_children (h : id ∈ d.children p) : id ∈ d.ids ∧ p ∈ d.ids ∧ p < id := by
  obtain ⟨hid, hparent⟩ := hd.mem_children.mp h
  exact ⟨hid, hd.parent_mem hid hparent⟩

theorem zero_notMem_children (p : NodeId) : 0 ∉ d.children p := by
  intro h
  have hparent := (hd.mem_children.mp h).2
  rw [hd.root] at hparent
  cases hparent

theorem pairwise_children (id : NodeId) : (d.children id).Pairwise (· < ·) := by
  by_cases hid : id ∈ d.ids
  · rw [hd.children id hid]
    exact (pairwise_ids hd.small).filter _
  · rw [d.children_eq_nil (by simpa [mem_ids hd.small] using hid)]
    exact .nil

theorem nodup_children (id : NodeId) : (d.children id).Nodup :=
  (hd.pairwise_children id).imp fun hlt heq => by
    rw [heq, UInt32.lt_iff_toNat_lt] at hlt
    exact Nat.lt_irrefl _ hlt

end Sound

/-! ### Changes -/

/-- A change of a node: what the nodes are after it. -/
theorem getElem?_modify {d' : Document} {f : Node → Node} (h : d.modify? id f = some d') (i : Nat) :
    d'.nodes[i]? = d.nodes[i]?.map fun node => if id.toNat = i then f node else node := by
  unfold modify? at h
  split_ifs at h
  cases h
  rw [List.getElem?_modify]
  rfl

theorem exists_modify (h : id.toNat < d.nodes.length) (f : Node → Node) :
    ∃ d', d.modify? id f = some d' := ⟨_, if_pos h⟩

theorem length_of_modify {d' : Document} {f : Node → Node} (h : d.modify? id f = some d') :
    d'.nodes.length = d.nodes.length := by
  unfold modify? at h
  split_ifs at h
  cases h
  exact List.length_modify ..

/-- What a change does to a node, as far as the tree is concerned, shows in its parent and children. -/
theorem Sound.of_eq {d' : Document} (hd : d.Sound) (hlength : d'.nodes.length = d.nodes.length)
    (hparent : d'.parent? = d.parent?) (hchildren : d'.children = d.children) : d'.Sound := by
  have hids : d'.ids = d.ids := by rw [ids, ids, hlength]
  refine ⟨hlength ▸ hd.small, ?_, hparent ▸ hd.root, ?_, ?_⟩
  · rw [← List.length_pos_iff, hlength, List.length_pos_iff]
    exact hd.nonempty
  · rw [hids, hparent]
    exact hd.parent
  · rw [hids, hparent, hchildren]
    exact hd.children

/-- **A change of what else a node holds** keeps the document sound. -/
theorem Sound.modify {d' : Document} (hd : d.Sound) {f : Node → Node}
    (hf : ∀ node, (f node).parent = node.parent ∧ (f node).children = node.children)
    (h : d.modify? id f = some d') : d'.Sound := by
  refine hd.of_eq (length_of_modify h) (funext fun x => ?_) (funext fun x => ?_)
  · simp only [parent?, node?, getElem?_modify h]
    cases d.nodes[x.toNat]? with
    | none => rfl
    | some node =>
      simp only [Option.map_some, Option.bind_some]
      split_ifs <;> simp [hf]
  · simp only [Document.children, node?, getElem?_modify h]
    cases d.nodes[x.toNat]? with
    | none => rfl
    | some node =>
      simp only [Option.map_some, Option.getD_some]
      split_ifs <;> simp [hf]

/-- A node is added: what the nodes are after it. -/
theorem getElem?_push {d' : Document} {qname : QName} {range : TextRange}
    (h : d.push? (some p) qname range = some (d', id)) (hp : p.toNat < d.nodes.length) (i : Nat) :
    d'.nodes[i]? =
      if i = d.nodes.length then some { qname, range, parent := some p }
      else d.nodes[i]?.map fun node =>
        if p.toNat = i then { node with children := node.children ++ [id] } else node := by
  obtain ⟨d'', hmodify, heq⟩ := Option.map_eq_some_iff.mp h
  cases heq
  rw [getElem?_modify hmodify]
  rcases Nat.lt_trichotomy i d.nodes.length with hi | rfl | hi
  · rw [if_neg (by omega), List.getElem?_append_left hi]
  · rw [if_pos rfl, List.getElem?_concat_length, Option.map_some, if_neg (by omega)]
  · rw [if_neg (by omega), List.getElem?_eq_none (by simp; omega), List.getElem?_eq_none (by omega),
      Option.map_none]

/-- What it takes to add a child: its parent is there. -/
theorem exists_push (hp : p.toNat < d.nodes.length) (qname : QName) (range : TextRange) :
    ∃ d', d.push? (some p) qname range = some (d', .ofNat d.nodes.length) ∧
      d'.nodes.length = d.nodes.length + 1 := by
  have hgrown : p.toNat < (d.nodes ++ [({ qname, range, parent := some p } : Node)]).length := by
    rw [List.length_append]
    omega
  obtain ⟨d', hd'⟩ := exists_modify (d := ⟨_⟩) hgrown fun node =>
    { node with children := node.children ++ [.ofNat d.nodes.length] }
  refine ⟨d', Option.map_eq_some_iff.mpr ⟨d', hd', rfl⟩, ?_⟩
  rw [length_of_modify hd']
  simp

section Push
variable {d' : Document} {qname : QName} {range : TextRange}
  (h : d.push? (some p) qname range = some (d', id)) (hp : p.toNat < d.nodes.length)
include h hp

/-- The new node has the parent that it was added to. -/
theorem parent?_push (hid : id.toNat = d.nodes.length) (x : NodeId) :
    d'.parent? x = if x = id then some p else d.parent? x := by
  simp only [parent?, node?, getElem?_push h hp]
  by_cases hx : x = id
  · rw [if_pos (by rw [hx, hid]), if_pos hx]
    rfl
  · rw [if_neg (fun heq => hx (UInt32.toNat_inj.mp (heq.trans hid.symm))), if_neg hx]
    cases d.nodes[x.toNat]? with
    | none => rfl
    | some node =>
      simp only [Option.map_some, Option.bind_some]
      split_ifs <;> rfl

/-- The new node is the last child of its parent. -/
theorem children_push (x : NodeId) :
    d'.children x = if x = p then d.children x ++ [id] else d.children x := by
  simp only [Document.children, node?, getElem?_push h hp]
  by_cases hx : x.toNat = d.nodes.length
  · have hxp : x ≠ p := by rintro rfl; omega
    rw [if_pos hx, if_neg hxp, List.getElem?_eq_none (Nat.le_of_eq hx.symm)]
    rfl
  · rw [if_neg hx]
    by_cases hxp : x = p
    · rw [if_pos hxp, hxp, List.getElem?_eq_getElem hp]
      simp
    · have hne : p.toNat ≠ x.toNat := fun heq => hxp (UInt32.toNat_inj.mp heq).symm
      rw [if_neg hxp]
      simp only [if_neg hne]
      cases d.nodes[x.toNat]? <;> rfl

end Push

/-- **To add a child** keeps the document sound. -/
theorem Sound.push {d' : Document} {qname : QName} {range : TextRange} (hd : d.Sound)
    (hp : p ∈ d.ids) (hsize : d.nodes.length < 2 ^ 32)
    (h : d.push? (some p) qname range = some (d', id)) :
    d'.Sound ∧ d'.ids = d.ids ++ [id] := by
  have hplace := (mem_ids hd.small).mp hp
  obtain ⟨d'', hd'', hlength⟩ := exists_push hplace qname range
  obtain ⟨rfl, rfl⟩ := Prod.mk.inj (Option.some.inj (hd''.symm.trans h))
  have hid : (UInt32.ofNat d.nodes.length).toNat = d.nodes.length := UInt32.toNat_ofNat_of_lt' hsize
  generalize UInt32.ofNat d.nodes.length = id at h hid
  have hparent := parent?_push h hplace hid
  have hids : d''.ids = d.ids ++ [id] := by
    rw [ids, ids, hlength, List.range_succ, List.map_append, ← hid]
    simp [UInt32.ofNat_toNat]
  have hfresh : ∀ x ∈ d.ids, x ≠ id := by
    rintro x hx rfl
    rw [mem_ids hd.small, hid] at hx
    exact Nat.lt_irrefl _ hx
  refine ⟨⟨by omega, by rw [← List.length_pos_iff]; omega, ?_, fun x hx hzero => ?_, fun x hx => ?_⟩,
    hids⟩
  · rw [hparent, if_neg (hfresh 0 hd.zero_mem), hd.root]
  · rw [hparent]
    rw [hids, List.mem_append, List.mem_singleton] at hx
    rcases hx with hx | rfl
    · rw [if_neg (hfresh x hx)]
      exact hd.parent x hx hzero
    · rw [if_pos rfl]
      exact ⟨p, rfl, by rw [UInt32.lt_iff_toNat_lt]; omega⟩
  · -- the nodes that were there keep their parents, and the new one has no children yet
    have hold : d.ids.filter (d''.parent? · == some x) = d.ids.filter (d.parent? · == some x) :=
      List.filter_congr fun y hy => by rw [hparent, if_neg (hfresh y hy)]
    rw [hids, List.filter_append, hold, children_push h hplace]
    have hnew : d.children x = d.ids.filter (d.parent? · == some x) := by
      rw [hids, List.mem_append, List.mem_singleton] at hx
      rcases hx with hx | rfl
      · exact hd.children x hx
      · rw [d.children_eq_nil (Nat.le_of_eq hid.symm), eq_comm, List.filter_eq_nil_iff]
        intro y hy hpy
        exact hfresh _ (hd.parent_mem hy (by simpa using hpy)).1 rfl
    rw [← hnew, List.filter_cons, hparent, if_pos rfl, List.filter_nil]
    by_cases hxp : x = p
    · simp [hxp]
    · simp [hxp, Ne.symm hxp]

/-! ### Trees -/

/-- To walk through the nodes that are still to be visited and all nodes below them, the first one first. -/
inductive Walk (d : Document) : List NodeId → List NodeId → Prop
  | done : Walk d [] []
  | visit {id : NodeId} {rest l : List NodeId} (h : Walk d (d.children id ++ rest) l) :
      Walk d (id :: rest) (id :: l)

/-- The nodes of the document form a tree. -/
structure IsTree (d : Document) : Prop where
  /-- The root has no parent, and the parent of every other node has a smaller number. -/
  root : 0 ∈ d.ids ∧ d.parent? 0 = none
  parent : ∀ id ∈ d.ids, id ≠ 0 → ∃ p ∈ d.ids, d.parent? id = some p ∧ p < id
  /-- Every node but the root is in one list of children, once. -/
  listed : (d.ids.flatMap d.children).Perm d.ids.tail
  /-- This list is that of its parent. -/
  child : ∀ id ∈ d.ids, ∀ p ∈ d.ids, id ∈ d.children p ↔ d.parent? id = some p
  increasing : ∀ id ∈ d.ids, (d.children id).Pairwise (· < ·)
  /-- The walk from the root comes to an end and visits every node once. -/
  walk : ∃ l, d.Walk [0] l ∧ l.Perm d.ids
  /-- A node is found at its position among the children of its parent. -/
  position : ∀ id ∈ d.ids, ∀ p ∈ d.parent? id, (d.children p)[d.position id]? = some id
  /-- Siblings have different positions. -/
  apart : ∀ id ∈ d.ids, ∀ id' ∈ d.ids, d.parent? id = d.parent? id' →
    d.position id = d.position id' → id = id'

/-- The elements below the root show the nodes of the document. -/
structure Shows (d : Document) (root : Element) : Prop where
  walk : d.Walk [0] (root.sites.map (·.element.nodeId))
  node : ∀ s ∈ root.sites, ∃ node, d.node? s.element.nodeId = some node ∧
    s.element.tag = node.tag s.element.nodeId.toNat ∧ s.element.children.map (·.nodeId) = node.children
  parent : ∀ s ∈ root.sites, d.parent? s.element.nodeId = s.parent?.map (·.nodeId)
  position : ∀ s ∈ root.sites, d.position s.element.nodeId = s.position

/-- There is only one walk. -/
theorem Walk.eq {l l' rest : List NodeId} (h : d.Walk rest l) (h' : d.Walk rest l') : l = l' := by
  induction h generalizing l' with
  | done => cases h'; rfl
  | visit _ ih =>
    cases h' with
    | visit h' => rw [ih h']

/-! ### Walks -/

theorem sum_map_eq_count (l : List NodeId) (p : NodeId) :
    (l.map fun y => if y = p then 1 else 0).sum = l.count p := by
  induction l with
  | nil => rfl
  | cons y l ih =>
    rw [List.map_cons, List.sum_cons, ih, List.count_cons, Nat.add_comm]
    simp only [beq_iff_eq]

/-- What is no child of any node is in none of their lists. -/
theorem sum_count_children_eq_zero (hx : ∀ y, x ∉ d.children y) (l : List NodeId) :
    (l.map fun y => (d.children y).count x).sum = 0 := by
  have hnone : (fun y => (d.children y).count x) = fun _ => 0 :=
    funext fun y => List.count_eq_zero.mpr (hx y)
  simp [hnone]

/-- A node is in the lists of children of some nodes as often as its parent is among these. -/
theorem Sound.sum_count_children (hd : d.Sound) (hx : x ∈ d.ids) (hp : d.parent? x = some p)
    (l : List NodeId) : (l.map fun y => (d.children y).count x).sum = l.count p := by
  have hsingle : ∀ y, (d.children y).count x = if y = p then 1 else 0 := by
    intro y
    split_ifs with hy
    · rw [hy]
      exact List.count_eq_one_of_mem (hd.nodup_children p) (hd.mem_children.mpr ⟨hx, hp⟩)
    · refine List.count_eq_zero.mpr fun hxy => hy ?_
      exact (Option.some.inj (hp.symm.trans (hd.mem_children.mp hxy).2)).symm
  simp only [hsingle]
  exact sum_map_eq_count l p

/-- **Every node is visited once.** A list of nodes that has the root once and apart from it the children of
its own nodes is the list of all nodes: a node is in it as often as its parent. -/
theorem Sound.perm_ids (hd : d.Sound) {l : List NodeId} (h : l.Perm (0 :: l.flatMap d.children)) :
    l.Perm d.ids := by
  have hcount : ∀ x, l.count x =
      (if x = 0 then 1 else 0) + (l.map fun y => (d.children y).count x).sum := by
    intro x
    rw [h.count_eq, List.count_cons, List.count_flatMap, Nat.add_comm]
    simp only [beq_iff_eq, @eq_comm _ 0 x]
    rfl
  -- induction on the number of the node
  have hone : ∀ (n : Nat) (x : NodeId), x.toNat = n → x ∈ d.ids → l.count x = 1 := by
    intro n
    induction n using Nat.strongRecOn with
    | ind n ih =>
      intro x hn hx
      rw [hcount]
      by_cases hx0 : x = 0
      · rw [if_pos hx0, sum_count_children_eq_zero (hx0 ▸ hd.zero_notMem_children)]
      · obtain ⟨p, hp, hlt⟩ := hd.parent x hx hx0
        rw [if_neg hx0, hd.sum_count_children hx hp, Nat.zero_add]
        rw [UInt32.lt_iff_toNat_lt, hn] at hlt
        exact ih p.toNat hlt p rfl (hd.parent_mem hx hp).1
  rw [List.perm_iff_count]
  intro x
  by_cases hx : x ∈ d.ids
  · rw [hone _ x rfl hx, List.count_eq_one_of_mem (nodup_ids hd.small) hx]
  · have hx0 : x ≠ 0 := by rintro rfl; exact hx hd.zero_mem
    rw [List.count_eq_zero.mpr hx, hcount, if_neg hx0,
      sum_count_children_eq_zero fun y hy => hx (hd.mem_children.mp hy).1]

/-! ### Elements of nodes -/

/-- The element of a node. -/
def element? (d : Document) (id : NodeId) : Option Element := (elementsFrom 0 d.nodes)[id.toNat]?

theorem getElem?_elementsFrom (nodes : List Node) (number i : Nat) :
    (elementsFrom number nodes)[i]? = nodes[i]?.map fun node =>
      .node (node.tag (number + i)) (node.children.filterMap fun id =>
        if number + i < id.toNat then (elementsFrom number nodes)[id.toNat - number]? else none) := by
  induction nodes generalizing number i with
  | nil => simp [elementsFrom]
  | cons node nodes ih =>
    have hlater : ∀ {n : Nat}, number < n → (elementsFrom number (node :: nodes))[n - number]? =
        (elementsFrom (number + 1) nodes)[n - (number + 1)]? := by
      intro n hn
      rw [elementsFrom, show n - number = n - (number + 1) + 1 by omega, List.getElem?_cons_succ]
    cases i with
    | zero =>
      rw [elementsFrom, List.getElem?_cons_zero, List.getElem?_cons_zero, Option.map_some]
      simp only [Nat.add_zero]
      refine congrArg some (congrArg _ (List.filterMap_congr fun id _ => ?_))
      split_ifs with hid
      · exact (hlater hid).symm
      · rfl
    | succ i =>
      rw [elementsFrom, List.getElem?_cons_succ, List.getElem?_cons_succ, ih,
        show number + 1 + i = number + (i + 1) by omega]
      refine congrArg (Option.map · _) (funext fun node' => ?_)
      refine congrArg _ (List.filterMap_congr fun id _ => ?_)
      split_ifs with hid
      · exact (hlater (by omega)).symm
      · rfl

theorem element?_eq (d : Document) (id : NodeId) : d.element? id = (d.node? id).map fun node =>
    .node (node.tag id.toNat) (node.children.filterMap fun c =>
      if id.toNat < c.toNat then d.element? c else none) := by
  rw [element?, getElem?_elementsFrom]
  simp only [Nat.zero_add, Nat.sub_zero]
  rfl

theorem root?_eq (d : Document) : d.root? = d.element? 0 := List.head?_eq_getElem?

/-- The element is that of its node. -/
def Views (d : Document) (e : Element) : Prop := d.element? e.nodeId = some e

theorem views_of_element? {e : Element} (h : d.element? id = some e) : e.nodeId = id ∧ d.Views e := by
  have hid : e.nodeId = id := by
    rw [element?_eq] at h
    obtain ⟨node, -, rfl⟩ := Option.map_eq_some_iff.mp h
    exact UInt32.ofNat_toNat
  exact ⟨hid, by rw [Views, hid, h]⟩

theorem map_filterMap_eq {α β : Type} {l : List α} {g : α → Option β} {f : β → α}
    (h : ∀ a ∈ l, ∃ b, g a = some b ∧ f b = a) : (l.filterMap g).map f = l := by
  induction l with
  | nil => rfl
  | cons a l ih =>
    obtain ⟨⟨b, hb, hf⟩, hl⟩ := List.forall_mem_cons.mp h
    rw [List.filterMap_cons_some hb, List.map_cons, hf, ih hl]

namespace Sound

variable (hd : d.Sound)
include hd

theorem exists_element (hid : id ∈ d.ids) : ∃ e, d.element? id = some e := by
  rw [mem_ids hd.small] at hid
  rw [element?_eq, node?, List.getElem?_eq_getElem hid]
  exact ⟨_, rfl⟩

/-- **The element of a node** holds what the node holds, and its children are the elements of the children
of the node. -/
theorem node_of_views {e : Element} (h : d.Views e) : ∃ node, d.node? e.nodeId = some node ∧
    e.tag = node.tag e.nodeId.toNat ∧ e.children.map (·.nodeId) = node.children ∧
      ∀ c ∈ e.children, d.Views c := by
  have heq := h
  rw [Views, element?_eq] at heq
  obtain ⟨node, hnode, heq⟩ := Option.map_eq_some_iff.mp heq
  have hchildren : node.children = d.children e.nodeId := by rw [Document.children, hnode]; rfl
  have hlater : ∀ c ∈ node.children, ∃ e', (if e.nodeId.toNat < c.toNat then d.element? c else none) =
      some e' ∧ e'.nodeId = c := by
    intro c hc
    obtain ⟨hmem, -, hlt⟩ := hd.mem_of_mem_children (hchildren ▸ hc)
    obtain ⟨e', he'⟩ := hd.exists_element hmem
    rw [if_pos (UInt32.lt_iff_toNat_lt.mp hlt)]
    exact ⟨e', he', (views_of_element? he').1⟩
  refine ⟨node, hnode, ?_, ?_, fun c hc => ?_⟩
  · exact (congrArg Element.tag heq).symm
  · rw [show e.children = _ from (congrArg Element.children heq).symm]
    exact map_filterMap_eq hlater
  · rw [show e.children = _ from (congrArg Element.children heq).symm] at hc
    obtain ⟨x, -, hx⟩ := List.mem_filterMap.mp hc
    split_ifs at hx
    exact (views_of_element? hx).2

theorem children_of_views {e : Element} (h : d.Views e) :
    e.children.map (·.nodeId) = d.children e.nodeId := by
  obtain ⟨node, hnode, -, hchildren, -⟩ := hd.node_of_views h
  rw [hchildren, Document.children, hnode]
  rfl

/-- All elements below the element of a node are those of nodes. -/
theorem views_of_mem (e : Element) (h : d.Views e) : ∀ e' ∈ e.elements, d.Views e' := by
  induction e using Element.induct with
  | node tag children ih =>
    intro e' he'
    rw [Element.elements_eq, List.mem_cons, List.mem_flatMap] at he'
    rcases he' with rfl | ⟨c, hc, he'⟩
    · exact h
    · obtain ⟨-, -, -, -, hviews⟩ := hd.node_of_views h
      exact ih c hc (hviews c hc) e' he'

/-- The walk through the elements is that through the nodes. -/
theorem walk_elements (e : Element) (h : d.Views e) {rest l : List NodeId} (hl : d.Walk rest l) :
    d.Walk (e.nodeId :: rest) (e.elements.map (·.nodeId) ++ l) := by
  induction e using Element.induct generalizing rest l with
  | node tag children ih =>
    obtain ⟨-, -, -, -, hviews⟩ := hd.node_of_views h
    rw [Element.elements_eq, List.map_cons, List.cons_append]
    refine .visit ?_
    rw [← hd.children_of_views h]
    change d.Walk (children.map (·.nodeId) ++ rest)
      ((children.flatMap Element.elements).map (·.nodeId) ++ l)
    replace hviews : ∀ c ∈ children, d.Views c := hviews
    clear h
    induction children with
    | nil => exact hl
    | cons c children ihchildren =>
      obtain ⟨hc, hrest⟩ := List.forall_mem_cons.mp hviews
      rw [List.map_cons, List.flatMap_cons, List.map_append, List.cons_append, List.append_assoc]
      exact ih c List.mem_cons_self hc
        (ihchildren (fun c' hc' => ih c' (List.mem_cons_of_mem _ hc')) hrest)

/-- A node is found at its position among the children of its parent. -/
theorem getElem?_position (h : id ∈ d.children p) : (d.children p)[d.position id]? = some id := by
  have hparent := (hd.mem_children.mp h).2
  cases hi : (d.children p).idxOf? id with
  | none => exact absurd h (List.idxOf?_eq_none_iff.mp hi)
  | some i =>
    obtain ⟨hlt, heq, -⟩ := List.idxOf?_eq_some_iff.mp hi
    rw [Document.position, hparent, Option.bind_some, hi, Option.getD_some,
      List.getElem?_eq_getElem hlt, heq]

/-- **The elements show the document.** -/
theorem shows : ∃ root, d.root? = some root ∧ d.Shows root := by
  obtain ⟨root, hroot⟩ := hd.exists_element hd.zero_mem
  obtain ⟨hzero, hviews⟩ := views_of_element? hroot
  have hall : ∀ s ∈ root.sites, d.Views s.element := fun s hs =>
    hd.views_of_mem root hviews _ (Element.mem_elements hs)
  -- where a child stands among the children of its parent
  have hplace : ∀ t ∈ root.sites, ∀ {i : Nat} {c : Element}, t.element.children[i]? = some c →
      (d.children t.element.nodeId)[i]? = some c.nodeId := by
    intro t ht i c hc
    rw [← hd.children_of_views (hall t ht), List.getElem?_map, hc]
    rfl
  refine ⟨root, d.root?_eq.trans hroot, ?_, fun s hs => ?_, fun s hs => ?_, fun s hs => ?_⟩
  · have hwalk := hd.walk_elements root hviews .done
    rwa [hzero, List.append_nil, Element.elements, List.map_map] at hwalk
  · obtain ⟨node, hnode, htag, hchildren, -⟩ := hd.node_of_views (hall s hs)
    exact ⟨node, hnode, htag, hchildren⟩
  · rcases Element.mem_sites_cases hs with rfl | ⟨t, ht, i, c, hc, rfl⟩
    · change d.parent? root.nodeId = none
      rw [hzero, hd.root]
    · exact (hd.mem_children.mp (List.mem_of_getElem? (hplace t ht hc))).2
  · rcases Element.mem_sites_cases hs with rfl | ⟨t, ht, i, c, hc, rfl⟩
    · change d.position root.nodeId = 0
      rw [hzero, Document.position, hd.root]
      rfl
    · have hi := hplace t ht hc
      obtain ⟨hlt, -⟩ := List.getElem?_eq_some_iff.mp hi
      have hposition := hd.getElem?_position (List.mem_of_getElem? hi)
      exact ((List.getElem?_inj hlt (hd.nodup_children _)).mp (hi.trans hposition.symm)).symm

theorem ids_eq_cons : d.ids = 0 :: d.ids.tail := by
  have hpos := List.length_pos_iff.mpr hd.nonempty
  obtain ⟨n, hn⟩ := Nat.exists_eq_succ_of_ne_zero (Nat.ne_of_gt hpos)
  rw [ids, hn, Nat.succ_eq_add_one, List.range_succ_eq_map]
  rfl

/-- Every node but the root is in one list of children, once. -/
theorem perm_children : (d.ids.flatMap d.children).Perm d.ids.tail := by
  have hnodup := nodup_ids hd.small
  rw [hd.ids_eq_cons, List.nodup_cons] at hnodup
  rw [List.perm_ext_iff_of_nodup ?_ hnodup.2]
  · intro x
    have htail : x ∈ d.ids.tail ↔ x ∈ d.ids ∧ x ≠ 0 := by
      rw [hd.ids_eq_cons, List.tail_cons, List.mem_cons]
      constructor
      · intro hx
        exact ⟨.inr hx, fun hzero => hnodup.1 (hzero ▸ hx)⟩
      · rintro ⟨hx | hx, hzero⟩
        · exact absurd hx hzero
        · exact hx
    rw [htail, List.mem_flatMap]
    constructor
    · rintro ⟨p, -, hx⟩
      refine ⟨(hd.mem_children.mp hx).1, ?_⟩
      rintro rfl
      exact hd.zero_notMem_children p hx
    · rintro ⟨hx, hzero⟩
      obtain ⟨p, hp, -⟩ := hd.parent x hx hzero
      exact ⟨p, (hd.parent_mem hx hp).1, hd.mem_children.mpr ⟨hx, hp⟩⟩
  · rw [List.nodup_flatMap]
    refine ⟨fun p _ => hd.nodup_children p, (nodup_ids hd.small).imp fun hne x hx hx' => hne ?_⟩
    exact Option.some.inj ((hd.mem_children.mp hx).2.symm.trans (hd.mem_children.mp hx').2)

/-- **A sound document is a tree.** -/
theorem isTree : d.IsTree where
  root := ⟨hd.zero_mem, hd.root⟩
  parent id hid hzero := by
    obtain ⟨p, hp, hlt⟩ := hd.parent id hid hzero
    exact ⟨p, (hd.parent_mem hid hp).1, hp, hlt⟩
  listed := hd.perm_children
  child id hid p _ := by rw [hd.mem_children, and_iff_right hid]
  increasing id _ := hd.pairwise_children id
  walk := by
    obtain ⟨root, hroot⟩ := hd.exists_element hd.zero_mem
    obtain ⟨hzero, hviews⟩ := views_of_element? hroot
    refine ⟨root.elements.map (·.nodeId), ?_, hd.perm_ids ?_⟩
    · have hwalk := hd.walk_elements root hviews .done
      rwa [hzero, List.append_nil] at hwalk
    · have hperm := (Element.perm_elements root).map (·.nodeId)
      rw [List.map_cons, hzero, List.map_flatMap] at hperm
      rw [List.flatMap_map]
      refine hperm.trans (.of_eq (congrArg _ (List.flatMap_congr fun e he => ?_)))
      exact hd.children_of_views (hd.views_of_mem root hviews e he)
  position id hid p hp := hd.getElem?_position (hd.mem_children.mpr ⟨hid, hp⟩)
  apart id hid id' hid' hparent hposition := by
    by_cases hzero : id = 0
    · by_contra hne
      obtain ⟨p, hp, -⟩ := hd.parent id' hid' fun heq => hne (hzero.trans heq.symm)
      rw [hzero, hd.root, hp] at hparent
      cases hparent
    · obtain ⟨p, hp, -⟩ := hd.parent id hid hzero
      have h := hd.getElem?_position (hd.mem_children.mpr ⟨hid, hp⟩)
      have h' := hd.getElem?_position (hd.mem_children.mpr ⟨hid', hparent.symm.trans hp⟩)
      rw [hposition, h'] at h
      exact (Option.some.inj h).symm

end Sound

end Document

end Installer
