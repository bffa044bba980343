import Installer.Document.Builder
import Installer.Proofs.Arenas

/-! # Documents that are built

A document is built by operations on nodes whose handles were given before (`Operation.Takes`), in any order: a
child can be given to every node at every time, so that the numbers of the nodes are not in the order of the
document. Still the nodes form a tree (`Document.IsTree`), and each node holds what was given to it
(`Operation.Given`); both are put together in `Building.finish_isTree`.

An operation finds its node, keeps the document sound and gives the number of the new node as its handle
(`Building.Does`), hence so does a run, as long as the numbers are enough for all nodes. -/

namespace Installer

/-! ### Operations -/

namespace Operation

/-- The handle of the node that the operation is on. -/
def target : Operation → Nat
  | addChild target _ | addAttribute target _ _ | addText target _ => target

/-- The handle of the parent and the name of the node that is added. -/
def added? : Operation → Option (Nat × QName)
  | addChild parent qname => some (parent, qname)
  | _ => none

/-- The attributes that are given to the node with the given handle. -/
def attributesOf (handle : Nat) : Operation → List Attribute
  | addAttribute target qname value =>
    if target = handle then [⟨qname, value, TextRange.none⟩] else []
  | _ => []

/-- The text that is given to the node with the given handle. -/
def textOf (handle : Nat) : Operation → String
  | addText target s => if target = handle then s else ""
  | _ => ""

/-- Each operation is on a node whose handle was given when its turn comes, if there are that many handles
before. -/
def Takes (handles : Nat) : List Operation → Prop
  | [] => True
  | op :: ops => op.target < handles ∧ Takes (handles + op.added?.toList.length) ops

instance decidableTakes : (handles : Nat) → (ops : List Operation) → Decidable (Takes handles ops)
  | _, [] => isTrue trivial
  | handles, op :: ops =>
    have := decidableTakes (handles + op.added?.toList.length) ops
    inferInstanceAs (Decidable (op.target < handles ∧ Takes (handles + op.added?.toList.length) ops))

/-- The node with the given handle is the one that the operations on a root with the given name made: it has
the name and the parent with which it was added, and the attributes and the text that it was given. -/
structure Given (root : QName) (ops : List Operation) (handle : Nat) (node : Node) : Prop where
  added : ((none, root) :: (ops.filterMap added?).map fun p => (some (UInt32.ofNat p.1), p.2))[handle]? =
    some (node.parent, node.qname)
  range : node.range = TextRange.none
  attributes : node.attributes = ops.flatMap (·.attributesOf handle)
  text : node.text = String.join (ops.map (·.textOf handle))

end Operation

/-! ### One operation -/

namespace Document

/-- The parents, the names and the ranges of the nodes. -/
def origins (d : Document) : List (Option NodeId × QName × TextRange) :=
  d.nodes.map fun node => (node.parent, node.qname, node.range)

/-- The attributes and the text of the node with the given number, none if it is not there. -/
def held (d : Document) (number : Nat) : List Attribute × String :=
  match d.nodes[number]? with
  | some node => (node.attributes, node.text)
  | none => ([], "")

section
variable {d d' : Document} {id p : NodeId}

theorem origins_push {qname : QName} {range : TextRange} (hp : p.toNat < d.nodes.length)
    (h : d.push? (some p) qname range = some (d', id)) :
    d'.origins = d.origins ++ [(some p, qname, range)] := by
  refine List.ext_getElem? fun i => ?_
  rw [origins, origins, List.getElem?_map, getElem?_push h hp]
  rcases Nat.lt_trichotomy i d.nodes.length with hi | rfl | hi
  · rw [if_neg (by omega), List.getElem?_append_left (by simpa using hi), List.getElem?_map,
      Option.map_map]
    refine congrArg (Option.map · _) (funext fun node => ?_)
    simp only [Function.comp_apply]
    split_ifs <;> rfl
  · simp
  · rw [if_neg (by omega), List.getElem?_eq_none (by omega), List.getElem?_eq_none (by simp; omega)]
    rfl

/-- A new node is empty, as is one that is not there. -/
theorem held_push {qname : QName} {range : TextRange} (hp : p.toNat < d.nodes.length)
    (h : d.push? (some p) qname range = some (d', id)) (number : Nat) : d'.held number = d.held number := by
  rw [held, getElem?_push h hp, held]
  by_cases hn : number = d.nodes.length
  · rw [if_pos hn, hn, List.getElem?_eq_none (Nat.le_refl _)]
  · rw [if_neg hn]
    cases d.nodes[number]? with
    | none => rfl
    | some node =>
      simp only [Option.map_some]
      split_ifs <;> rfl

theorem origins_modify {f : Node → Node} (h : d.modify? id f = some d')
    (hf : ∀ node, ((f node).parent, (f node).qname, (f node).range) =
      (node.parent, node.qname, node.range)) : d'.origins = d.origins := by
  refine List.ext_getElem? fun i => ?_
  rw [origins, origins, List.getElem?_map, List.getElem?_map, getElem?_modify h, Option.map_map]
  refine congrArg (Option.map · _) (funext fun node => ?_)
  simp only [Function.comp_apply]
  split_ifs
  · exact hf node
  · rfl

theorem held_modify {f : Node → Node} (h : d.modify? id f = some d') (attributes : List Attribute)
    (text : String) (hf : ∀ node, ((f node).attributes, (f node).text) =
      (node.attributes ++ attributes, node.text ++ text)) (number : Nat) :
    d'.held number = if id.toNat = number then
      ((d.held number).1 ++ attributes, (d.held number).2 ++ text) else d.held number := by
  have hthere : id.toNat < d.nodes.length := by
    unfold modify? at h
    split_ifs at h with hlt
    exact hlt
  rw [held, getElem?_modify h, held]
  split_ifs with hn
  · rw [← hn, List.getElem?_eq_getElem hthere]
    exact hf _
  · cases d.nodes[number]? <;> rfl

end

end Document

namespace Building

/-- The document is sound, and the handles are the numbers of its nodes. -/
structure Sound (x : Building) : Prop where
  document : x.builder.document.Sound
  handles : x.handles = x.builder.document.ids

/-- What an operation does: it adds its node to the others, and what it gives to a node to what that node
holds. -/
structure Does (x : Building) (op : Operation) (x' : Building) : Prop where
  sound : x'.Sound
  origins : x'.builder.document.origins = x.builder.document.origins ++
    op.added?.toList.map fun p => (some (.ofNat p.1), p.2, TextRange.none)
  held : ∀ handle, x'.builder.document.held handle =
    ((x.builder.document.held handle).1 ++ op.attributesOf handle,
      (x.builder.document.held handle).2 ++ op.textOf handle)

theorem sound_start (root : QName) : (start root).Sound :=
  ⟨Document.sound_ofRoot _ rfl rfl, rfl⟩

variable {x : Building}

theorem Sound.length_handles (hx : x.Sound) : x.handles.length = x.builder.document.nodes.length := by
  rw [hx.handles, Document.ids, List.length_map, List.length_range]

/-- The handle that was given first is the number 0, and so on. -/
theorem Sound.getElem?_handles (hx : x.Sound) {i : Nat} (hi : i < x.handles.length) :
    ∃ id, x.handles[i]? = some id ∧ id = .ofNat i ∧ id.toNat = i ∧ id ∈ x.builder.document.ids := by
  rw [hx.length_handles] at hi
  have hget : x.handles[i]? = some (.ofNat i) := by
    rw [hx.handles, Document.ids, List.getElem?_map, List.getElem?_range hi]
    rfl
  exact ⟨_, hget, rfl, UInt32.toNat_ofNat_of_lt' (hi.trans_le hx.document.small),
    hx.handles ▸ List.mem_of_getElem? hget⟩

/-- A change of what a node holds. -/
theorem Sound.modify (hx : x.Sound) {d : Document} {id : NodeId} {f : Node → Node}
    (h : x.builder.document.modify? id f = some d)
    (hf : ∀ node, (f node).parent = node.parent ∧ (f node).children = node.children) :
    (⟨⟨d⟩, x.handles⟩ : Building).Sound := by
  refine ⟨hx.document.modify hf h, ?_⟩
  rw [hx.handles, Document.ids, Document.ids, Document.length_of_modify h]

/-- An operation that gives attributes or text to a node, and adds none. -/
theorem Sound.does_modify (hx : x.Sound) {op : Operation} (hadded : op.added? = none) {d : Document}
    {id : NodeId} {f : Node → Node} (h : x.builder.document.modify? id f = some d)
    (hid : id.toNat = op.target) {attributes : List Attribute} {text : String}
    (hf : ∀ node, f node = { node with
      attributes := node.attributes ++ attributes, text := node.text ++ text })
    (hattributes : ∀ handle, op.attributesOf handle = if op.target = handle then attributes else [])
    (htext : ∀ handle, op.textOf handle = if op.target = handle then text else "") :
    x.Does op ⟨⟨d⟩, x.handles⟩ := by
  refine ⟨hx.modify h fun node => by rw [hf]; exact ⟨rfl, rfl⟩, ?_, fun handle => ?_⟩
  · rw [Document.origins_modify h fun node => by rw [hf], hadded]
    simp
  · rw [Document.held_modify h attributes text (fun node => by rw [hf]), hid, hattributes, htext]
    split_ifs
    · rfl
    · simp

/-- **One operation** on a node whose handle was given, as long as there is a number for a new node. -/
theorem Sound.perform (hx : x.Sound) {op : Operation} (ht : op.target < x.handles.length)
    (hsize : x.handles.length + op.added?.toList.length ≤ 2 ^ 32) :
    ∃ x', x.perform? op = some x' ∧ x.Does op x' ∧
      x'.handles.length = x.handles.length + op.added?.toList.length := by
  obtain ⟨id, hget, hid, hnat, hmem⟩ := hx.getElem?_handles ht
  have hlength := hx.length_handles
  cases op with
  | addChild parent qname =>
    have hplace : id.toNat < x.builder.document.nodes.length := by rwa [hnat, ← hlength]
    obtain ⟨d, hpush, -⟩ := Document.exists_push hplace qname TextRange.none
    obtain ⟨hsound, hids⟩ := hx.document.push hmem (by
      simp only [Operation.added?, Option.toList_some, List.length_singleton] at hsize
      omega) hpush
    refine ⟨⟨⟨d⟩, x.handles ++ [.ofNat x.builder.document.nodes.length]⟩, ?_, ⟨⟨hsound, ?_⟩, ?_, ?_⟩,
      by simp [Operation.added?]⟩
    · simp only [perform?, show x.handles[parent]? = some id from hget, Option.bind_eq_bind,
        Option.bind_some, Builder.addChild?, hpush, Option.map_some]
      rfl
    · rw [hids, hx.handles]
    · rw [Document.origins_push hplace hpush, hid]
      rfl
    · intro handle
      rw [Document.held_push hplace hpush]
      simp [Operation.attributesOf, Operation.textOf]
  | addAttribute target qname value =>
    obtain ⟨d, hmodify⟩ := Document.exists_modify (by rwa [hnat, ← hlength]) fun node : Node =>
      { node with attributes := node.attributes ++ [⟨qname, value, TextRange.none⟩] }
    refine ⟨⟨⟨d⟩, x.handles⟩, ?_, hx.does_modify rfl hmodify hnat
      (fun _ => by rw [String.append_empty]) (fun _ => rfl) (fun _ => (ite_self _).symm), rfl⟩
    simp only [perform?, show x.handles[target]? = some id from hget, Option.bind_eq_bind,
      Option.bind_some, Builder.addAttribute?, Document.pushAttribute?, hmodify, Option.map_some]
    rfl
  | addText target s =>
    obtain ⟨d, hmodify⟩ := Document.exists_modify (by rwa [hnat, ← hlength]) fun node : Node =>
      { node with text := node.text ++ s }
    refine ⟨⟨⟨d⟩, x.handles⟩, ?_, hx.does_modify rfl hmodify hnat
      (fun _ => by rw [List.append_nil]) (fun _ => (ite_self _).symm) (fun _ => rfl), rfl⟩
    simp only [perform?, show x.handles[target]? = some id from hget, Option.bind_eq_bind,
      Option.bind_some, Builder.addText?, Document.pushText?, hmodify, Option.map_some]
    rfl

/-! ### Runs -/

/-- **A run comes to its end**, and does what its operations do one after the other. -/
theorem Sound.run (hx : x.Sound) {ops : List Operation} (ht : Operation.Takes x.handles.length ops)
    (hsize : x.handles.length + (ops.filterMap Operation.added?).length ≤ 2 ^ 32) :
    ∃ x', x.run? ops = some x' ∧ x'.Sound ∧
      x'.builder.document.origins = x.builder.document.origins ++
        (ops.filterMap Operation.added?).map (fun p => (some (.ofNat p.1), p.2, TextRange.none)) ∧
      ∀ handle, x'.builder.document.held handle =
        ((x.builder.document.held handle).1 ++ ops.flatMap (·.attributesOf handle),
          (x.builder.document.held handle).2 ++ String.join (ops.map (·.textOf handle))) := by
  induction ops generalizing x with
  | nil => exact ⟨x, rfl, hx, by simp, fun handle => by simp⟩
  | cons op ops ih =>
    have hadded : (List.filterMap Operation.added? (op :: ops)).length =
        op.added?.toList.length + (ops.filterMap Operation.added?).length := by
      rw [List.filterMap_cons]
      cases op.added? <;> simp [Nat.add_comm]
    rw [hadded] at hsize
    obtain ⟨x', hperform, hdoes, hlength⟩ := hx.perform ht.1 (by omega)
    obtain ⟨x'', hrun, hsound, horigins, hheld⟩ := ih hdoes.sound (hlength ▸ ht.2) (by omega)
    refine ⟨x'', ?_, hsound, ?_, fun handle => ?_⟩
    · rw [run?, List.foldlM_cons, hperform]
      exact hrun
    · rw [horigins, hdoes.origins, List.filterMap_cons]
      cases op.added? <;> simp
    · rw [hheld, hdoes.held]
      simp [String.append_assoc]

/-- The nodes after a run are those that its operations made. -/
theorem given_of_run {root : QName} {ops : List Operation} {d : Document}
    (horigins : d.origins = (none, root, TextRange.none) ::
      (ops.filterMap Operation.added?).map fun p => (some (.ofNat p.1), p.2, TextRange.none))
    (hheld : ∀ handle, d.held handle =
      (ops.flatMap (·.attributesOf handle), String.join (ops.map (·.textOf handle))))
    {handle : Nat} {node : Node} (h : d.nodes[handle]? = some node) :
    Operation.Given root ops handle node := by
  have horigin : d.origins[handle]? = some (node.parent, node.qname, node.range) := by
    rw [Document.origins, List.getElem?_map, h]
    rfl
  have hsplit : d.origins = ((none, root) :: (ops.filterMap Operation.added?).map fun p =>
      (some (UInt32.ofNat p.1), p.2)).map fun o => (o.1, o.2, TextRange.none) := by
    rw [horigins, List.map_cons, List.map_map]
    rfl
  rw [hsplit, List.getElem?_map] at horigin
  obtain ⟨o, ho, heq⟩ := Option.map_eq_some_iff.mp horigin
  obtain ⟨hparent, hrest⟩ := Prod.mk.inj heq
  obtain ⟨hqname, hrange⟩ := Prod.mk.inj hrest
  have hboth := hheld handle
  rw [Document.held, h] at hboth
  obtain ⟨hattributes, htext⟩ := Prod.mk.inj hboth
  exact ⟨by rw [ho, ← hparent, ← hqname], hrange.symm, hattributes, htext⟩

/-- **A document that is built is a tree.** Let each operation be on a node whose handle was given, and let
there be numbers for all nodes. Then every operation finds its node, and the handles are the numbers of the
nodes of the finished document. The walk from the root visits each of them once; each but the root is a child
of its parent and of no other node, at its position; parents have smaller numbers, children increasing ones.
The elements of the document show this tree, and each node holds what was given to it, in order. -/
theorem finish_isTree (root : QName) (ops : List Operation) (h : Operation.Takes 1 ops)
    (hsize : (ops.filterMap Operation.added?).length < 2 ^ 32) :
    ∃ x, (start root).run? ops = some x ∧ x.handles = x.builder.finish.ids ∧
      x.handles.length = (ops.filterMap Operation.added?).length + 1 ∧ x.builder.finish.IsTree ∧
      (∃ e, x.builder.finish.root? = some e ∧ x.builder.finish.Shows e) ∧
      ∀ i id, x.handles[i]? = some id →
        ∃ node, x.builder.finish.node? id = some node ∧ Operation.Given root ops i node := by
  obtain ⟨x, hrun, hsound, horigins, hheld⟩ := (sound_start root).run h (by
    have hone : (start root).handles.length = 1 := rfl
    omega)
  have hlength : x.handles.length = (ops.filterMap Operation.added?).length + 1 := by
    have hcount := congrArg List.length horigins
    rw [hsound.length_handles]
    simpa [Document.origins, start, Builder.ofRoot, Nat.add_comm] using hcount
  refine ⟨x, hrun, hsound.handles, hlength, hsound.document.isTree, hsound.document.shows, ?_⟩
  intro i id hi
  obtain ⟨hlt, -⟩ := List.getElem?_eq_some_iff.mp hi
  obtain ⟨id', hget, -, hnat, hmem⟩ := hsound.getElem?_handles hlt
  obtain rfl : id' = id := Option.some.inj (hget.symm.trans hi)
  have hplace : i < x.builder.document.nodes.length := hsound.length_handles ▸ hlt
  refine ⟨_, ?_, given_of_run horigins (fun handle => ?_) (List.getElem?_eq_getElem hplace)⟩
  · rw [Document.node?, hnat]
    exact List.getElem?_eq_getElem hplace
  · have hempty : (start root).builder.document.held handle = ([], "") := by
      cases handle <;> rfl
    rw [hheld, hempty]
    simp

end Building

namespace Sample

/-- Two fragments that are filled by turns, with attributes and texts for nodes that have children. -/
def byTurns : List Operation := [
  .addChild 0 (.core "Fragment"),
  .addChild 0 (.core "Fragment"),
  .addText 0 "a",
  .addChild 2 (.core "Property"),
  .addChild 1 (.core "Property"),
  .addAttribute 3 (.unqualified "Id") "X",
  .addChild 2 (.core "Property"),
  .addAttribute 1 (.unqualified "Id") "F",
  .addAttribute 3 (.unqualified "Value") "x",
  .addText 0 "b"]

end Sample

/-- Numbers that are not in the order of the document. -/
theorem finish_isTree_byTurns :
    Operation.Takes 1 Sample.byTurns ∧ (Sample.byTurns.filterMap Operation.added?).length < 2 ^ 32 ∧
      ∃ x, (Building.start (.core "Wix")).run? Sample.byTurns = some x ∧
        x.builder.finish.IsTree ∧ x.builder.finish.Walk [0] [0, 1, 4, 2, 3, 5] ∧
        x.handles.map x.builder.finish.position = [0, 0, 1, 0, 0, 1] := by
  have htakes : Operation.Takes 1 Sample.byTurns := by decide
  have hsize : (Sample.byTurns.filterMap Operation.added?).length < 2 ^ 32 := by decide
  obtain ⟨x, hrun, -, -, htree, -⟩ := Building.finish_isTree (.core "Wix") Sample.byTurns htakes hsize
  refine ⟨htakes, hsize, x, hrun, htree, ?_⟩
  cases hrun
  exact ⟨.visit (.visit (.visit (.visit (.visit (.visit .done))))), by decide +kernel⟩

end Installer
