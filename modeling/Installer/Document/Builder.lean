import Installer.Document.Arena

/-! # Building documents

A document can be put together node by node, without a text. A builder gives a handle for its root and
for each child that is added, and what is done next is done to the node of a handle. -/

namespace Installer

/-- A document that is being built. -/
structure Builder where
  document : Document

namespace Builder

/-- The handle of the root. -/
def root : NodeId := 0

def ofRoot (qname : QName) : Builder := ⟨⟨[{ qname, range := TextRange.none }]⟩⟩

/-- Add a child. The result has its handle. -/
def addChild? (b : Builder) (parent : NodeId) (qname : QName) : Option (Builder × NodeId) :=
  (b.document.push? (some parent) qname TextRange.none).map fun (d, id) => (⟨d⟩, id)

def addAttribute? (b : Builder) (node : NodeId) (qname : QName) (value : String) : Option Builder :=
  (b.document.pushAttribute? node ⟨qname, value, TextRange.none⟩).map (⟨·⟩)

def addText? (b : Builder) (node : NodeId) (s : String) : Option Builder :=
  (b.document.pushText? node s).map (⟨·⟩)

def finish (b : Builder) : Document := b.document

end Builder

/-! ### Programs that build a document -/

/-- What is done to a document that is being built. A node is told by its handle: handles are counted
as they were given, that of the root first. -/
inductive Operation where
  | addChild (parent : Nat) (qname : QName)
  | addAttribute (target : Nat) (qname : QName) (value : String)
  | addText (target : Nat) (s : String)

/-- A builder, and the handles that it has given. -/
structure Building where
  builder : Builder
  handles : List NodeId

namespace Building

def start (root : QName) : Building := ⟨.ofRoot root, [Builder.root]⟩

def perform? (x : Building) : Operation → Option Building
  | .addChild parent qname => do
    let (builder, id) ← x.builder.addChild? (← x.handles[parent]?) qname
    return ⟨builder, x.handles ++ [id]⟩
  | .addAttribute target qname value => do
    return { x with builder := ← x.builder.addAttribute? (← x.handles[target]?) qname value }
  | .addText target s => do
    return { x with builder := ← x.builder.addText? (← x.handles[target]?) s }

/-- Do one operation after the other. -/
def run? (x : Building) (ops : List Operation) : Option Building := ops.foldlM perform? x

end Building

end Installer
