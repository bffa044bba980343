import Installer.Markup.Event

/-! # Reading documents

The events of a text are put together to a tree: `Assembly` holds the elements that are open and the
root if it is complete, and `Assembly.step` adds one event. Elements are numbered in the order of
their start tags. `Element.parse` reads a text. -/

namespace Installer

open Markup

/-! ### Attributes -/

/-- The place of a key in the rest of a tag: the byte at which it starts, and what follows it. -/
def locateKey (key : List Char) : Nat → List Char → Option (Nat × List Char)
  | _, [] => none
  | position, c :: cs =>
    if key.isPrefixOf (c :: cs) then some (position, (c :: cs).drop key.length)
    else locateKey key (position + c.utf8Size) cs

/-- The attributes of a tag that starts at the byte `start`. Each key is looked for behind the one
before it, from `position` on in `rest`; bindings of namespaces are no attributes. -/
def readAttributes (start : Nat) (bindings : Bindings) :
    Nat → List Char → List RawAttribute → Except Fault (List Attribute)
  | _, _, [] => .ok []
  | position, rest, a :: attributes =>
    if bindsWord a.key then readAttributes start bindings position rest attributes
    else
      match unescape a.value with
      | .error fault => .error fault
      | .ok value =>
        let (found, rest) := (locateKey a.key position rest).getD (position, rest.drop a.key.length)
        let stop := found + Text.byteLength a.key
        match readAttributes start bindings stop rest attributes with
        | .error fault => .error fault
        | .ok others =>
          .ok (⟨bindings.attributeName a.key, String.ofList value,
            .ofBytes (start + 1 + found) (start + 1 + stop)⟩ :: others)

/-- The tag of an element with the given number, without its text. -/
def Tag.ofStart (number : Nat) (t : StartTag) : Except Fault Tag :=
  let name := tagName t.content
  let (raw, fault) := rawAttributes t.content
  match readAttributes t.start t.bindings (Text.byteLength name) (t.content.drop name.length) raw with
  | .error fault => .error fault
  | .ok attributes =>
    match fault with
    | some fault => .error fault
    | none => .ok ⟨number, t.bindings.elementName name, .ofBytes t.start t.stop, attributes, ""⟩

/-! ### Elements -/

/-- An element that is open, with its children so far. -/
structure OpenElement where
  tag : Tag
  children : List Element

/-- What has been read of a document: the open elements, the innermost first, the root if it is
complete, and the number of elements. -/
structure Assembly where
  stack : List OpenElement := []
  root : Option Element := none
  count : Nat := 0

namespace Assembly

/-- Put a complete element into the innermost open one, or make it the root. -/
def attach (a : Assembly) (e : Element) : Assembly :=
  match a.stack with
  | [] => { a with root := some e }
  | top :: stack => { a with stack := { top with children := top.children ++ [e] } :: stack }

/-- Add text to the innermost open element. Text outside of the root is left out. -/
def addText (a : Assembly) (cs : List Char) : Assembly :=
  match a.stack with
  | [] => a
  | top :: stack =>
    { a with stack :=
        { top with tag := { top.tag with text := top.tag.text ++ String.ofList cs } } :: stack }

/-- The tag of a new element, if there is a place for it. -/
def newTag (a : Assembly) (t : StartTag) : Except ReadError Tag :=
  if a.stack.isEmpty && 0 < a.count then .error ⟨t.start, .severalRoots⟩
  else
    match Tag.ofStart a.count t with
    | .error fault => .error ⟨t.start, fault⟩
    | .ok tag => .ok tag

/-- Add one event. -/
def step (a : Assembly) : Event → Except ReadError Assembly
  | .opened t =>
    (a.newTag t).map fun tag => { a with stack := ⟨tag, []⟩ :: a.stack, count := a.count + 1 }
  | .empty t =>
    (a.newTag t).map fun tag => { a with count := a.count + 1 }.attach (.node tag [])
  | .closed =>
    match a.stack with
    | [] => .ok a
    | top :: stack => .ok ({ a with stack }.attach (.node top.tag top.children))
  | .text cs => .ok (a.addText cs)
  | .reference name stop =>
    match Entity.inContent name with
    | .error fault => .error ⟨stop, fault⟩
    | .ok c => .ok (a.addText [c])
  | .aside => .ok a

end Assembly

namespace Element

/-- The root of the document with the given events, of a text with `size` bytes. -/
def ofEvents (size : Nat) (events : Reading Event) : Except ReadError Element :=
  match events.items.foldlM Assembly.step {} with
  | .error e => .error e
  | .ok a =>
    match events.error with
    | some e => .error e
    | none =>
      if !a.stack.isEmpty then .error ⟨size, .openElement⟩
      else
        match a.root with
        | some root => .ok root
        | none => .error ⟨0, .noRoot⟩

/-- Read a document. -/
def parse (source : String) : Except ReadError Element :=
  ofEvents source.utf8ByteSize (events source.toList)

end Element

end Installer
