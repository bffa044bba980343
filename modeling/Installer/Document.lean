import Installer.Diagnostic
import Installer.Text.Blank

/-! # Documents

A document is a tree of elements with attributes and text. An element is core if its name is in the
namespace of the installer language, and an attribute if its name is in that namespace or in none;
everything else is foreign and belongs to extensions. -/

namespace Installer

/-- The namespace of the installer language. -/
def coreNamespace : String := "http://wixtoolset.org/schemas/v4/wxs"

/-- A name in a namespace, or in none. -/
structure QName where
  space : Option String
  name : String
  deriving DecidableEq, Repr

namespace QName

def core (name : String) : QName := ⟨some coreNamespace, name⟩

def unqualified (name : String) : QName := ⟨none, name⟩

def text (q : QName) : String :=
  match q.space with
  | some space => "\x7b" ++ space ++ "\x7d" ++ q.name
  | none => q.name

end QName

/-- An attribute. Its range is that of its name. -/
structure Attribute where
  qname : QName
  value : String
  range : TextRange
  deriving DecidableEq, Repr

namespace Attribute

def name (a : Attribute) : String := a.qname.name

def isCore (a : Attribute) : Bool :=
  match a.qname.space with
  | none => true
  | some space => space == coreNamespace

end Attribute

/-- What an element has beside its children. The number tells the elements of a document apart, and
the text is that of all pieces directly inside of the element. -/
structure Tag where
  number : Nat
  qname : QName
  range : TextRange
  attributes : List Attribute
  text : String
  deriving DecidableEq, Repr

/-- An element with its children. -/
inductive Element where
  | node (tag : Tag) (children : List Element)

namespace Element

def tag : Element → Tag
  | node tag _ => tag

def children : Element → List Element
  | node _ children => children

def qname (e : Element) : QName := e.tag.qname

def name (e : Element) : String := e.tag.qname.name

def range (e : Element) : TextRange := e.tag.range

def isCore (e : Element) : Bool := e.tag.qname.space == some coreNamespace

/-- The text of the element without blanks at its ends. -/
def text (e : Element) : String := Text.trimmed e.tag.text

def attributes (e : Element) : List Attribute := e.tag.attributes

def coreAttributes (e : Element) : List Attribute := e.attributes.filter (·.isCore)

def foreignAttributes (e : Element) : List Attribute := e.attributes.filter (!·.isCore)

/-- The first core attribute of the given name. -/
def attribute? (e : Element) (name : String) : Option Attribute :=
  e.coreAttributes.find? (·.name == name)

/-- Whether the element has a core attribute of the given name. -/
def has (e : Element) (name : String) : Bool := (e.attribute? name).isSome

mutual

/-- The number of levels of the tree. -/
def height : Element → Nat
  | node _ children => heightOfList children + 1

/-- The number of levels of the highest of the trees. -/
def heightOfList : List Element → Nat
  | [] => 0
  | e :: es => max e.height (heightOfList es)

end

end Element

/-- An element in its document: its position among its siblings and the elements around it, the
innermost first. -/
structure Site where
  element : Element
  position : Nat
  ancestors : List Element

namespace Site

/-- The site of the root of a document. -/
def root (e : Element) : Site := ⟨e, 0, []⟩

/-- The site of the child at the given position. -/
def child (s : Site) (position : Nat) (e : Element) : Site :=
  ⟨e, position, s.element :: s.ancestors⟩

/-- The element around this one, or the element itself if it is the root. -/
def parent (s : Site) : Element := s.ancestors.headD s.element

end Site

namespace Element

mutual

/-- The element and all elements below it, in the order of their start tags. -/
def sitesAt (position : Nat) (ancestors : List Element) : Element → List Site
  | node tag children =>
    ⟨node tag children, position, ancestors⟩ ::
      sitesOfList 0 (node tag children :: ancestors) children

/-- The elements of a list of siblings and all elements below them. -/
def sitesOfList (position : Nat) (ancestors : List Element) : List Element → List Site
  | [] => []
  | e :: es => sitesAt position ancestors e ++ sitesOfList (position + 1) ancestors es

end

/-- All elements of the document with the root `e`. -/
def sites (e : Element) : List Site := sitesAt 0 [] e

end Element

end Installer
