import Installer.Markup.Namespace

/-! # Events

The events of a text are its tokens with the bindings of namespaces in force at each start tag; end
tags are checked against the start tags that are open. -/

namespace Installer.Markup

/-- A start tag: its content, whether it is that of an empty element, the byte behind it and the
bindings inside of it. -/
structure StartTag where
  content : List Char
  isEmpty : Bool
  stop : Nat
  bindings : Bindings

/-- The byte at which a start tag starts. The tag is as long as its content and its brackets, with a
slash for an empty element. -/
def StartTag.start (t : StartTag) : Nat :=
  t.stop - (Text.byteLength t.content + if t.isEmpty then 3 else 2)

/-- An event. A reference comes with the byte after it. -/
inductive Event where
  | opened (tag : StartTag)
  | empty (tag : StartTag)
  | closed
  | text (cs : List Char)
  | reference (name : List Char) (stop : Nat)
  | aside

/-- An open start tag. -/
structure OpenTag where
  name : List Char
  bindings : Bindings

/-- The bindings in force inside of open tags. -/
def bindingsOf : List OpenTag → Bindings
  | [] => Bindings.standard
  | tag :: _ => tag.bindings

/-- The event of a token inside of the given open tags, and the tags that are open after it. -/
def eventOf (stack : List OpenTag) (t : PlacedToken) : Except Fault (Event × List OpenTag) :=
  match t.token with
  | .text cs | .literal cs => .ok (.text cs, stack)
  | .reference name => .ok (.reference name t.stop, stack)
  | .aside => .ok (.aside, stack)
  | .startTag content empty =>
    match (bindingsOf stack).enter content with
    | .error fault => .error fault
    | .ok bindings =>
      let tag : StartTag := ⟨content, empty, t.stop, bindings⟩
      if empty then .ok (.empty tag, stack)
      else .ok (.opened tag, ⟨tagName content, bindings⟩ :: stack)
  | .endTag name =>
    match stack with
    | [] => .error (.unmatchedEnd (String.ofList name))
    | top :: stack =>
      if name = top.name then .ok (.closed, stack)
      else .error (.mismatchedEnd (String.ofList top.name) (String.ofList name))

/-- The events of tokens inside of the given open tags. -/
def eventsFrom (stack : List OpenTag) (error : Option ReadError) :
    List PlacedToken → Reading Event
  | [] => ⟨[], error⟩
  | t :: ts =>
    match eventOf stack t with
    | .error fault => .fail t.start fault
    | .ok (event, stack) => .cons event (eventsFrom stack error ts)

/-- The events of a text. -/
def events (cs : List Char) : Reading Event :=
  let ts := tokens cs
  eventsFrom [] ts.error ts.items

end Installer.Markup
