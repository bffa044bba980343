import Installer.Diagnostic
import Installer.Snippet.SourceLine

/-! # Marks

The places that a diagnostic points at become marks on lines. A place on one line is one mark. A place
over several lines is opened on its first line, passes some of the lines between and is closed on its
last one; places that overlap get different depths, so that their bars stand beside each other. -/

namespace Installer.Snippet

/-- A labelled place of a text. The primary place is that of the problem itself. -/
structure Place where
  start : Spot
  stop : Spot
  primary : Bool
  label : String
  deriving DecidableEq, Repr

/-- What a mark is: a place on one line, or a part of a place over several lines. -/
inductive Shape where
  | whole
  | opens (depth : Nat)
  | passes (depth : Nat)
  | closes (depth : Nat)
  deriving DecidableEq, Repr

/-- A mark from the column `start` up to and without the column `stop`, behind `chars` characters. -/
structure Mark where
  start : Nat
  stop : Nat
  chars : Nat
  primary : Bool
  label : String
  shape : Shape
  deriving DecidableEq, Repr

namespace Mark

def hasLabel (m : Mark) : Bool := !m.label.isEmpty

/-- Whether a horizontal line leads from the mark to the left. -/
def takesSpace (m : Mark) : Bool :=
  match m.shape with
  | .opens _ | .closes _ => true
  | .whole | .passes _ => false

def isPassing (m : Mark) : Bool :=
  match m.shape with
  | .passes _ => true
  | _ => false

end Mark

/-! ### Places over several lines -/

/-- A place over several lines with its depth. It is doubled if another one is at the same place. -/
structure TallPlace where
  place : Place
  depth : Nat := 1
  doubled : Bool := false
  deriving DecidableEq, Repr

def Place.sameSpots (p q : Place) : Bool := p.start == q.start && p.stop == q.stop

/-- Whether two places have a line in common. -/
def Place.sharesLine (p q : Place) : Bool :=
  (q.start.line ≤ p.start.line && p.start.line ≤ q.stop.line) ||
  (p.start.line ≤ q.start.line && q.start.line ≤ p.stop.line)

/-- Move the places before `p`, which has the number `own`, out of its way, and mark those that are
at the same place. What is primary at one place makes all others there primary. -/
def makeRoom (primaries : List Place) (p : Place) (own : Nat) : Nat → List TallPlace → List TallPlace
  | _, [] => []
  | number, t :: rest =>
    if !p.sameSpots t.place && p.sharesLine t.place then
      { t with depth := t.depth + 1 } :: makeRoom primaries p own (number + 1) rest
    else if p.sameSpots t.place && own ≠ number then
      { t with doubled := true } :: makeRoom primaries p own (number + 1) rest
    else
      let primary := t.place.primary || primaries.any (·.sameSpots t.place)
      { t with place := { t.place with primary } } :: rest

/-- Give depths to places over several lines. They come in the order of their first lines, and of
those with the same first line the longest comes first. -/
def withDepths (places : List Place) : List TallPlace :=
  let sorted := places.mergeSort fun p q =>
    p.start.line < q.start.line || (p.start.line == q.start.line && q.stop.line ≤ p.stop.line)
  let primaries (n : Nat) := (sorted.take (n + 1)).filter (·.primary)
  let talls := sorted.zipIdx.foldl (fun talls p => makeRoom (primaries p.2) p.1 p.2 0 talls)
    (sorted.map fun place => { place })
  let deepest := (talls.map (·.depth)).foldl max 0
  talls.map fun t => { t with depth := deepest - t.depth + 1 }

/-- The lines of brackets that tell nothing, and the empty one. -/
def loneBrackets : List String := ["", "\x7b", "\x7d", "(", ")", "[", "]"]

/-- Whether a line has something to show: more than blanks, a lone bracket or a comment. -/
def isTelling (l : SourceLine) : Bool :=
  let s := String.ofList (Text.trim l.chars)
  !(s.startsWith "//" && !(s.startsWith "///" || s.startsWith "//!")) &&
    !loneBrackets.contains s

/-- Whether the line with the given number has something to show. -/
def tells (lines : List SourceLine) (number : Nat) : Bool :=
  (lines.find? (·.number == number)).any isTelling

/-- The lines between the first and the last one of a place that are shown: up to three behind the
first one without those at their end that tell nothing, and the one before the last one. -/
def passedLines (lines : List SourceLine) (first last : Nat) : List Nat :=
  let middle := min (first + 4) last
  let upTo := ((List.range' first (middle - first)).reverse.find? (tells lines)).getD first
  List.range' (first + 1) (upTo - first) ++
    (if middle < last - 1 && tells lines (last - 1) then [last - 1] else [])

/-- The marks of a place over several lines, by line. -/
def TallPlace.marks (lines : List SourceLine) (t : TallPlace) : List (Nat × Mark) :=
  let p := t.place
  let close (shape : Shape) : Nat × Mark := (p.stop.line, {
    start := p.stop.column - 1, stop := p.stop.column, chars := p.stop.chars - 1
    primary := p.primary, label := p.label, shape })
  if t.doubled then [close .whole]
  else
    (p.start.line, {
      start := p.start.column, stop := p.start.column + 1, chars := p.start.chars
      primary := p.primary, label := "", shape := .opens t.depth }) ::
    (passedLines lines p.start.line p.stop.line).map (fun line => (line, {
      start := 0, stop := 0, chars := 0
      primary := p.primary, label := "", shape := .passes t.depth })) ++
    [close (.closes t.depth)]

/-- The mark of a place on one line. An empty place is one column wide. -/
def Place.mark (p : Place) : Nat × Mark := (p.start.line, {
  start := p.start.column
  stop := if p.stop.column = p.start.column then p.start.column + 1 else p.stop.column
  chars := p.start.chars
  primary := p.primary, label := p.label, shape := .whole })

/-- A line with its marks. -/
structure MarkedLine where
  line : SourceLine
  marks : List Mark

/-- The lines with marks, and the greatest depth. -/
def markedLines (lines : List SourceLine) (places : List Place) : List MarkedLine × Nat :=
  let talls := withDepths (places.filter fun p => p.start.line ≠ p.stop.line)
  let marks := (places.filter fun p => p.start.line = p.stop.line).map Place.mark ++
    talls.flatMap (TallPlace.marks lines)
  (lines.filterMap fun line =>
    match (marks.filter (·.1 == line.number)).map (·.2) with
    | [] => none
    | marks => some ⟨line, marks⟩,
   (talls.map (·.depth)).foldl max 0)

end Installer.Snippet
