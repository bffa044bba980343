import Installer.Snippet.Layout

/-! # Showing diagnostics

A diagnostic is shown as a line, or with the text that it is about as a snippet: the lines that it
points at with the marked places in them, and its hints below. -/

namespace Installer

open Snippet

/-- How diagnostics are shown. -/
structure Display where
  source : Option String := none
  path : Option String := none
  coloured : Bool := false
  warnings : Bool := true

namespace Diagnostic

/-- The bytes of a text of the given size that a range points at. An empty range points at the byte
behind it. -/
def bytesWithin (size : Nat) (r : TextRange) : Nat × Nat :=
  let start := min r.start.toNat size
  let stop := max start (min r.stop.toNat size)
  if start = stop then (start, min (start + 1) size) else (start, stop)

/-- A place of a text as a snippet shows it. -/
def placeOf (lines : List SourceLine) (size : Nat) (r : TextRange) (primary : Bool)
    (label : String) : Place :=
  let (start, stop) := bytesWithin size r
  let (start, stop) := locate lines start stop
  ⟨start, stop, primary, label⟩

/-- A title with its word in front. The lines behind the first one are indented by its width. -/
def titleRows (word : String) (wordInk textInk : Ink) (text : List Char) : Canvas :=
  match (String.ofList text).splitOn "\n" with
  | [] => []
  | first :: rest =>
    (inked wordInk word ++ inked textInk (": " ++ first)) ::
      rest.map fun line => List.replicate (word.length + 2) Cell.blank ++ inked textInk line

/-- The rows of a diagnostic with the text that it is about. -/
def snippetRows (path : Option String) (source : String) (d : Diagnostic) : Canvas :=
  let lines := sourceLines source
  let size := source.utf8ByteSize
  let primary := placeOf lines size d.range true d.kind.summary
  let places := primary :: d.related.map fun n => placeOf lines size n.range false n.message
  let numberWidth :=
    (toString ((places.map fun p => max p.start.line p.stop.line).foldl max 0)).length
  let divider : Row := Row.put [] (numberWidth + 1) ⟨'|', .accent⟩
  let origin : Canvas := path.toList.map fun path =>
    List.replicate numberWidth Cell.blank ++ inked .accent "--> " ++
      inked .plain (path ++ ":" ++ toString primary.start.line ++ ":" ++
        toString (primary.start.chars + 1))
  titleRows d.severity.name (.level d.severity) .bold (d.message.toList.flatMap shown) ++ origin ++
    divider :: drawPlaces d.severity lines numberWidth places ++
    (if d.hints.isEmpty then [] else [divider]) ++
    d.hints.flatMap fun hint => titleRows "help" .help .plain hint.toList

/-- A diagnostic as it is shown. -/
def display (options : Display) (d : Diagnostic) : String :=
  match options.source with
  | some source =>
    "\n".intercalate ((snippetRows options.path source d).map (Row.text options.coloured))
  | none =>
    (match options.path with
    | some path => path ++ ": "
    | none => "") ++ d.text

/-- Diagnostics as they are shown, one after the other. -/
def displayAll (options : Display) (ds : List Diagnostic) : String :=
  "\n".intercalate ((ds.filter fun d => options.warnings || d.isError).map (display options))

end Diagnostic

end Installer
