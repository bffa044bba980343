import Installer.Text.Number

/-! # Faults of markup

Why a text is not a document. `Fault.message` has the wording, and a `ReadError` is a fault at a
place of the text. -/

namespace Installer.Markup

/-- Why a character reference in an attribute value denotes no character. -/
inductive NumberFault where
  | sign
  | empty
  | digit
  | tooLarge
  | notScalar (n : Nat)
  | zero
  deriving DecidableEq, Repr

def NumberFault.message : NumberFault → String
  | sign => "unexpected number sign"
  | empty => "cannot parse integer from empty string"
  | digit => "invalid digit found in string"
  | tooLarge => "number too large to fit in target type"
  | notScalar n => "`" ++ toString n ++ "` is not a valid codepoint"
  | zero => "0x0 character is not permitted in XML"

/-- Why a text is not a document. Positions inside of tags are counted from the name of the tag. -/
inductive Fault where
  -- Pieces without an end
  | openReference
  | openTag
  | openValue (quote : Char)
  | openComment
  | openLiteral
  | openDoctype
  | openInstruction
  | openDeclaration
  | unknownMarkup
  | namelessDoctype
  -- Tags that do not match
  | mismatchedEnd (expected found : String)
  | unmatchedEnd (found : String)
  -- Attributes
  | expectedEquals (position : Nat)
  | expectedValue (position : Nat)
  | unquotedValue (position : Nat)
  | expectedQuote (position : Nat) (quote : Char)
  | duplicate (position previous : Nat)
  | unknownEntityInValue (start stop : Nat) (name : String)
  | openReferenceInValue (start stop : Nat)
  | badNumber (fault : NumberFault)
  -- Namespaces, with the bytes of the names
  | xmlRebound (space : List UInt8)
  | xmlnsRebound (space : List UInt8)
  | boundToXml (word : List UInt8)
  | boundToXmlns (word : List UInt8)
  -- The tree
  | invalidReference (name : String)
  | unknownEntity (name : String)
  | severalRoots
  | openElement
  | noRoot
  deriving DecidableEq, Repr

/-- A byte as it is shown in messages. -/
def showByte (b : UInt8) : String :=
  if b = 34 then "\\\""
  else if 32 ≤ b && b ≤ 126 then String.singleton (Char.ofNat b.toNat)
  else
    let digits := if b < 16 then Text.hexDigits 1 b.toNat else Text.hexDigits 2 b.toNat
    "0x" ++ String.ofList (digits.map Char.toUpper)

/-- Bytes as they are shown in messages. -/
def showBytes (bs : List UInt8) : String := "\"" ++ String.join (bs.map showByte) ++ "\""

/-- The namespace of the names that start with `xml:`. -/
def xmlNamespace : String := "http://www.w3.org/XML/1998/namespace"

/-- The namespace of the names that start with `xmlns:`. -/
def xmlnsNamespace : String := "http://www.w3.org/2000/xmlns/"

namespace Fault

/-- A piece that does not end, by what it is and by what ends it. -/
def unclosed (what closer : String) : String :=
  what ++ " not closed: `" ++ closer ++ "` not found before end of input"

def message : Fault → String
  | openReference => "ill-formed document: " ++ unclosed "entity or character reference" ";"
  | openTag => "syntax error: " ++ unclosed "tag" ">"
  | openValue quote => "syntax error: " ++ unclosed "attribute value" (String.singleton quote)
  | openComment => "syntax error: " ++ unclosed "comment" "-->"
  | openLiteral => "syntax error: " ++ unclosed "CDATA" "]]>"
  | openDoctype => "syntax error: " ++ unclosed "DOCTYPE" ">"
  | openInstruction => "syntax error: " ++ unclosed "processing instruction" "?>"
  | openDeclaration => "syntax error: " ++ unclosed "XML declaration" "?>"
  | unknownMarkup => "syntax error: unknown or missed symbol in markup"
  | namelessDoctype =>
    "ill-formed document: `<!DOCTYPE>` declaration does not contain a name of a document type"
  | mismatchedEnd expected found =>
    "ill-formed document: expected `</" ++ expected ++ ">`, but `</" ++ found ++ ">` was found"
  | unmatchedEnd found =>
    "ill-formed document: close tag `</" ++ found ++ ">` does not match any open tag"
  | expectedEquals position =>
    "position " ++ toString position ++ ": attribute key must be directly followed by `=` or space"
  | expectedValue position =>
    "position " ++ toString position ++ ": `=` must be followed by an attribute value"
  | unquotedValue position =>
    "position " ++ toString position ++ ": attribute value must be enclosed in `\"` or `'`"
  | expectedQuote position quote =>
    "position " ++ toString position ++ ": missing closing quote `" ++ String.singleton quote ++
      "` in attribute value"
  | duplicate position previous =>
    "position " ++ toString position ++ ": duplicated attribute, previous declaration at position " ++
      toString previous
  | unknownEntityInValue start stop name =>
    "at " ++ toString start ++ ".." ++ toString stop ++ ": unrecognized entity `" ++ name ++ "`"
  | openReferenceInValue start stop =>
    "Error while escaping character at range " ++ toString start ++ ".." ++ toString stop ++
      ": Cannot find ';' after '&'"
  | badNumber fault => "invalid character reference: " ++ fault.message
  | xmlRebound space =>
    "the namespace prefix 'xml' cannot be bound to '" ++ showBytes space ++ "'"
  | xmlnsRebound space =>
    "the namespace prefix 'xmlns' cannot be bound to '" ++ showBytes space ++ "'"
  | boundToXml word =>
    "the namespace prefix '" ++ showBytes word ++ "' cannot be bound to '" ++ xmlNamespace ++ "'"
  | boundToXmlns word =>
    "the namespace prefix '" ++ showBytes word ++ "' cannot be bound to '" ++ xmlnsNamespace ++ "'"
  | invalidReference name => "invalid character reference `&" ++ name ++ ";`"
  | unknownEntity name => "unknown entity `&" ++ name ++ ";`"
  | severalRoots => "more than one document element"
  | openElement => "unexpected end of input inside an element"
  | noRoot => "no document element"

end Fault

/-- A fault at a place of the text. -/
structure ReadError where
  offset : Nat
  fault : Fault
  deriving DecidableEq, Repr

def ReadError.message (e : ReadError) : String :=
  "malformed XML at byte " ++ toString e.offset ++ ": " ++ e.fault.message

/-- What was read from a text up to its end or up to the first fault. -/
structure Reading (α : Type) where
  items : List α
  error : Option ReadError

namespace Reading

variable {α : Type}

def done : Reading α := ⟨[], none⟩

def fail (offset : Nat) (fault : Fault) : Reading α := ⟨[], some ⟨offset, fault⟩⟩

/-- One more item in front. -/
def cons (item : α) (r : Reading α) : Reading α := ⟨item :: r.items, r.error⟩

end Reading

end Installer.Markup
