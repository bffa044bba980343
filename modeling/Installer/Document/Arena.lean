import Installer.Document

/-! # Documents as they are kept

The nodes of a document are kept in one list. The number of a node is its place in the list, and a node
knows its parent and its children by their numbers. Nodes are only added at the end, and an access to a
node that is not there has no result. The compiler walks through the elements of the nodes
(`Document.root?`). -/

namespace Installer

/-- The number of a node. -/
abbrev NodeId := UInt32

/-- A node of a document, with the numbers of its children and of its parent. -/
structure Node where
  qname : QName
  range : TextRange
  attributes : List Attribute := []
  children : List NodeId := []
  parent : Option NodeId := none
  text : String := ""

/-- The tag of a node with the given number. -/
def Node.tag (node : Node) (number : Nat) : Tag :=
  ⟨number, node.qname, node.range, node.attributes, node.text⟩

/-- The nodes of a document by their numbers. -/
structure Document where
  nodes : List Node := []

namespace Document

def node? (d : Document) (id : NodeId) : Option Node := d.nodes[id.toNat]?

/-! ### Changes -/

/-- Change the node with the given number. -/
def modify? (d : Document) (id : NodeId) (f : Node → Node) : Option Document :=
  if id.toNat < d.nodes.length then some { d with nodes := d.nodes.modify id.toNat f } else none

/-- Add a node, and its number to the children of its parent. -/
def push? (d : Document) (parent : Option NodeId) (qname : QName) (range : TextRange) :
    Option (Document × NodeId) :=
  let id : NodeId := .ofNat d.nodes.length
  let grown : Document := { d with nodes := d.nodes ++ [{ qname, range, parent }] }
  match parent with
  | none => some (grown, id)
  | some p =>
    (grown.modify? p fun node => { node with children := node.children ++ [id] }).map (·, id)

def pushAttribute? (d : Document) (id : NodeId) (a : Attribute) : Option Document :=
  d.modify? id fun node => { node with attributes := node.attributes ++ [a] }

def pushText? (d : Document) (id : NodeId) (s : String) : Option Document :=
  d.modify? id fun node => { node with text := node.text ++ s }

/-! ### Views -/

def parent? (d : Document) (id : NodeId) : Option NodeId := (d.node? id).bind (·.parent)

def children (d : Document) (id : NodeId) : List NodeId :=
  ((d.node? id).map (·.children)).getD []

/-- The position of a node among the children of its parent, and 0 for a node without one. -/
def position (d : Document) (id : NodeId) : Nat :=
  ((d.parent? id).bind fun p => (d.children p).idxOf? id).getD 0

/-- The elements of nodes from the given number on. The children of a node come after it. -/
def elementsFrom (number : Nat) : List Node → List Element
  | [] => []
  | node :: nodes =>
    let later := elementsFrom (number + 1) nodes
    .node (node.tag number) (node.children.filterMap fun id =>
      if number < id.toNat then later[id.toNat - (number + 1)]? else none) :: later

/-- The document element, if there is one, with all elements below it. -/
def root? (d : Document) : Option Element := (elementsFrom 0 d.nodes).head?

end Document

end Installer
