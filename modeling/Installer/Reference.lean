import Installer.Symbol

/-! # References

A reference to a symbol promises that some section defines it. A group reference puts a child into
a group, at the place after another child if it has one. A `GroupCursor` hands out the references of
the children of one group in order. -/

namespace Installer

/-- A promise that a symbol of this kind and name exists. -/
structure SymbolReference where
  kind : SymbolKind
  id : String
  deriving DecidableEq, Repr

instance : ToJson SymbolReference :=
  ⟨fun r => .record [("kind", toJson r.kind), ("id", toJson r.id)]⟩

/-- The kinds of groups. -/
inductive GroupKind where
  | layout
  | container
  | packageGroup
  | payloadGroup
  | package
  deriving DecidableEq, Repr

namespace GroupKind

def all : List GroupKind := [layout, container, packageGroup, payloadGroup, package]

def name : GroupKind → String
  | layout => "Layout"
  | container => "Container"
  | packageGroup => "PackageGroup"
  | payloadGroup => "PayloadGroup"
  | package => "Package"

def ofName? (s : String) : Option GroupKind := all.find? (·.name == s)

instance : ToJson GroupKind := ⟨fun kind => .text kind.name⟩

end GroupKind

/-- The kinds of children that groups have. -/
inductive MemberKind where
  | package
  | packageGroup
  | payload
  | payloadGroup
  deriving DecidableEq, Repr

namespace MemberKind

def all : List MemberKind := [package, packageGroup, payload, payloadGroup]

def name : MemberKind → String
  | package => "Package"
  | packageGroup => "PackageGroup"
  | payload => "Payload"
  | payloadGroup => "PayloadGroup"

def ofName? (s : String) : Option MemberKind := all.find? (·.name == s)

instance : ToJson MemberKind := ⟨fun kind => .text kind.name⟩

end MemberKind

/-- A group, by kind and name. -/
structure Group where
  kind : GroupKind
  id : String
  deriving DecidableEq, Repr

/-- A child of groups, by kind and name. -/
structure Member where
  kind : MemberKind
  id : String
  deriving DecidableEq, Repr

def Group.text (g : Group) : String := g.kind.name ++ ":" ++ g.id

def Member.text (m : Member) : String := m.kind.name ++ ":" ++ m.id

/-- The place of a child in a group. -/
structure GroupReference where
  parent : Group
  child : Member
  previous : Option Member
  deriving DecidableEq, Repr

def GroupReference.text (r : GroupReference) : String :=
  r.parent.text ++ " -> " ++ r.child.text ++
    match r.previous with
    | some m => " after " ++ m.text
    | none => ""

instance : ToJson GroupReference :=
  ⟨fun r => .record [
    ("parent_kind", toJson r.parent.kind), ("parent_id", toJson r.parent.id),
    ("child_kind", toJson r.child.kind), ("child_id", toJson r.child.id),
    ("previous", match r.previous with
      | some m => .list [toJson m.kind, toJson m.id]
      | none => .null)]⟩

/-- Where the next child of a group goes. A group is ordered if its children follow each other. -/
structure GroupCursor where
  group : Group
  ordered : Bool
  last : Option Member := none
  deriving DecidableEq, Repr

namespace GroupCursor

/-- The cursor at the start of a group whose children follow each other. -/
def inOrder (kind : GroupKind) (id : String) : GroupCursor := ⟨⟨kind, id⟩, true, none⟩

/-- The cursor of a group whose children have no order. -/
def unordered (kind : GroupKind) (id : String) : GroupCursor := ⟨⟨kind, id⟩, false, none⟩

/-- The place of the next child: after `after` if that is given, else after the last child. The
cursor moves to the child in either case. -/
def next (c : GroupCursor) (child : Member) (after : Option Member) : GroupReference × GroupCursor :=
  if c.ordered then (⟨c.group, child, after.or c.last⟩, { c with last := some child })
  else (⟨c.group, child, none⟩, c)

/-- The places of a list of children. -/
def place (c : GroupCursor) : List (Member × Option Member) → List GroupReference
  | [] => []
  | (child, after) :: children =>
    let (reference, c) := c.next child after
    reference :: c.place children

end GroupCursor

end Installer
