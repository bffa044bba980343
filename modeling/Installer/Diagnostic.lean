/-! # Diagnostics

A diagnostic is a problem at a place of a document. Its kind decides whether it is an error or only
a warning, and how its message reads. -/

namespace Installer

/-- The bytes from `start` up to and without `stop`. -/
structure TextRange where
  start : UInt32
  stop : UInt32
  deriving DecidableEq, Repr

/-- The range of bytes of a text. Only the lower 32 bits of a place are kept, and what would end before
its start is empty. -/
def TextRange.ofBytes (start stop : Nat) : TextRange :=
  let start := UInt32.ofNat start
  ⟨start, max (UInt32.ofNat stop) start⟩

/-- The empty range at the start, which stands for places that are not known. -/
def TextRange.none : TextRange := ⟨0, 0⟩

def TextRange.text (r : TextRange) : String := toString r.start ++ ".." ++ toString r.stop

inductive Severity where
  | error
  | warning
  deriving DecidableEq, Repr

def Severity.name : Severity → String
  | error => "error"
  | warning => "warning"

/-- The kinds of problems: with attributes, with the structure of elements, and warnings. -/
inductive DiagnosticKind where
  | missingRequiredAttribute
  | illegalAttributeValue
  | illegalEmptyAttributeValue
  | illegalIdentifier
  | reservedValue
  | mutuallyExclusive
  | expectedAttributes
  | unexpectedAttribute
  | unexpectedElement
  | tooManyChildren
  | unexpectedElementWithAttribute
  | expectedAttributeOrElement
  | unhandledExtensionElement
  | unhandledExtensionAttribute
  | deprecatedConstruct
  deriving DecidableEq, Repr

namespace DiagnosticKind

def all : List DiagnosticKind := [
  missingRequiredAttribute, illegalAttributeValue, illegalEmptyAttributeValue, illegalIdentifier,
  reservedValue, mutuallyExclusive, expectedAttributes, unexpectedAttribute, unexpectedElement,
  tooManyChildren, unexpectedElementWithAttribute, expectedAttributeOrElement,
  unhandledExtensionElement, unhandledExtensionAttribute, deprecatedConstruct]

def name : DiagnosticKind → String
  | missingRequiredAttribute => "MissingRequiredAttribute"
  | illegalAttributeValue => "IllegalAttributeValue"
  | illegalEmptyAttributeValue => "IllegalEmptyAttributeValue"
  | illegalIdentifier => "IllegalIdentifier"
  | reservedValue => "ReservedValue"
  | mutuallyExclusive => "MutuallyExclusive"
  | expectedAttributes => "ExpectedAttributes"
  | unexpectedAttribute => "UnexpectedAttribute"
  | unexpectedElement => "UnexpectedElement"
  | tooManyChildren => "TooManyChildren"
  | unexpectedElementWithAttribute => "UnexpectedElementWithAttribute"
  | expectedAttributeOrElement => "ExpectedAttributeOrElement"
  | unhandledExtensionElement => "UnhandledExtensionElement"
  | unhandledExtensionAttribute => "UnhandledExtensionAttribute"
  | deprecatedConstruct => "DeprecatedConstruct"

def ofName? (s : String) : Option DiagnosticKind := all.find? (·.name == s)

def severity : DiagnosticKind → Severity
  | unhandledExtensionElement | unhandledExtensionAttribute | deprecatedConstruct => .warning
  | _ => .error

/-- What the kind says without any details. -/
def summary : DiagnosticKind → String
  | missingRequiredAttribute => "missing required attribute"
  | illegalAttributeValue => "illegal attribute value"
  | illegalEmptyAttributeValue => "attribute value cannot be empty"
  | illegalIdentifier => "illegal identifier"
  | reservedValue => "value is reserved"
  | mutuallyExclusive => "attributes cannot be used together"
  | expectedAttributes => "expected at least one of the attributes"
  | unexpectedAttribute => "unexpected attribute"
  | unexpectedElement => "unexpected element"
  | tooManyChildren => "element may appear only once"
  | unexpectedElementWithAttribute => "element conflicts with attribute"
  | expectedAttributeOrElement => "expected an attribute or a child element"
  | unhandledExtensionElement => "no extension handles this element"
  | unhandledExtensionAttribute => "no extension handles this attribute"
  | deprecatedConstruct => "deprecated"

/-- The message with a detail worked in. Kinds about a single name quote it inside of a sentence,
the others put the detail after the summary. -/
def message (kind : DiagnosticKind) (detail : String) : String :=
  match kind with
  | missingRequiredAttribute => "`" ++ detail ++ "` is required"
  | illegalEmptyAttributeValue => "`" ++ detail ++ "` cannot be empty"
  | illegalIdentifier => "`" ++ detail ++ "` is not a legal identifier"
  | reservedValue => "`" ++ detail ++ "` is reserved"
  | unexpectedAttribute => "unexpected attribute `" ++ detail ++ "`"
  | unexpectedElement => "unexpected element `" ++ detail ++ "`"
  | tooManyChildren => "`" ++ detail ++ "` may appear only once"
  | unhandledExtensionElement => "no extension handles element `" ++ detail ++ "`"
  | unhandledExtensionAttribute => "no extension handles attribute `" ++ detail ++ "`"
  | _ => kind.summary ++ ": " ++ detail

end DiagnosticKind

/-- Another place that explains a problem. -/
structure RelatedNote where
  message : String
  range : TextRange
  deriving DecidableEq, Repr

/-- A problem, with the names and values that its message speaks of as arguments. -/
structure Diagnostic where
  kind : DiagnosticKind
  range : TextRange
  message : String
  args : List String := []
  related : List RelatedNote := []
  hints : List String := []
  deriving DecidableEq, Repr

namespace Diagnostic

/-- The problem of a kind at a place, with the given detail in its message. -/
def of (kind : DiagnosticKind) (range : TextRange) (detail : Option String) (args : List String)
    (related : List RelatedNote := []) (hints : List String := []) : Diagnostic :=
  ⟨kind, range, match detail with
    | some detail => kind.message detail
    | none => kind.summary, args, related, hints⟩

def severity (d : Diagnostic) : Severity := d.kind.severity

def isError (d : Diagnostic) : Bool := d.severity == .error

/-- The diagnostic on one line. -/
def text (d : Diagnostic) : String :=
  d.severity.name ++ " at " ++ d.range.text ++ ": " ++ d.message ++
    String.join (d.related.map fun n => " (related: " ++ n.message ++ " at " ++ n.range.text ++ ")") ++
    String.join (d.hints.map fun h => " (hint: " ++ h ++ ")")

/-- Whether there is an error among diagnostics. -/
def hasErrors (ds : List Diagnostic) : Bool := ds.any isError

/-- The number of diagnostics of a severity. -/
def count (severity : Severity) (ds : List Diagnostic) : Nat :=
  (ds.filter (·.severity == severity)).length

/-- Diagnostics one a line. -/
def textOfList (ds : List Diagnostic) : String := "\n".intercalate (ds.map text)

end Diagnostic

end Installer
