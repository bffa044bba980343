import Installer.Snippet.Canvas
import Installer.Snippet.Mark

/-! # The layout of marked lines

A marked line is shown with its number and the underlined marks below it. The label of the rightmost
mark stands behind it where there is room; the other labels hang below their marks. Bars on the left
join the parts of a place over several lines. -/

namespace Installer.Snippet

/-- The measures of a snippet: the width of the line numbers, the greatest depth of places, the
severity that colours primary marks, and the columns that are shown. -/
structure Frame where
  numberWidth : Nat
  depth : Nat
  severity : Severity
  left : Nat
  right : Nat

/-- The number of columns of a screen. -/
def screenWidth : Nat := 140

namespace Frame

/-- The column of the bars on the left. -/
def barColumn (f : Frame) : Nat := f.numberWidth + 3

/-- The column where the text of a line starts. -/
def codeColumn (f : Frame) : Nat := if f.depth = 0 then f.barColumn else f.barColumn + f.depth + 1

/-- The number of columns for the text. -/
def codeWidth (f : Frame) : Nat := screenWidth - f.codeColumn

def ink (f : Frame) (m : Mark) : Ink := if m.primary then .level f.severity else .accent

end Frame

/-- The character that underlines a mark. -/
def Mark.underline (m : Mark) : Char := if m.primary then '^' else '-'

/-- A number with blanks in front of it. -/
def padNumber (size n : Nat) : String :=
  let digits := (toString n).toList
  String.ofList (List.replicate (size - digits.length) ' ' ++ digits)

/-- The line between the numbers and the text. -/
def drawDivider (f : Frame) (canvas : Canvas) (row : Nat) : Canvas :=
  canvas.put row (f.numberWidth + 1) '|' .accent

/-! ### Lines of text -/

/-- Leave out characters that lie in the first `n` columns. -/
def dropColumns (n : Nat) (used : Nat) : List Char → List Char
  | [] => []
  | c :: cs => if used + columns c ≤ n then dropColumns n (used + columns c) cs else c :: cs

/-- The characters that lie in the first `n` columns. -/
def takeColumns (n : Nat) (used : Nat) : List Char → List Char
  | [] => []
  | c :: cs =>
    if used + columns c ≤ n then c :: takeColumns n (used + columns c) cs else []

/-- The number of characters at the start of a text that fill three columns. -/
def dotsLength (used : Nat) : List Char → Nat
  | [] => 0
  | c :: cs => if 3 ≤ used + columns c then 1 else dotsLength (used + columns c) cs + 1

/-- The row of a line: its number and its text. Dots stand for what is left out at the sides. -/
def drawLine (f : Frame) (l : SourceLine) : Row :=
  let code := l.chars.flatMap shown
  let total := width code
  let left := min f.left total
  let right := if total - f.left ≤ f.codeWidth then total else min total f.right
  let part := takeColumns (right - left) 0 (dropColumns left 0 code)
  let cut := if f.left = 0 then 0 else dotsLength 0 part
  let row : Row := Row.puts [] (f.codeColumn + width (part.take cut))
    (inked .plain (String.ofList (part.drop cut)))
  let row := if f.left = 0 then row else Row.puts row f.codeColumn (inked .accent "...")
  let row :=
    if total ≤ right then row
    else
      Row.puts row
        (f.codeColumn + width (part.take cut) + (part.length - cut) - dotsLength 0 part.reverse)
        (inked .accent "...")
  Row.put (Row.puts row 0 (inked .accent (padNumber f.numberWidth l.number)))
    (f.numberWidth + 1) ⟨'|', .accent⟩

/-! ### The places of labels -/

/-- Whether two marks overlap, if `padding` columns are added to the first one. -/
def overlaps (m n : Mark) (padding : Nat) : Bool :=
  (n.start ≤ m.start && m.start < n.stop) || (m.start ≤ n.start && n.start < m.stop + padding)

/-- Whether the label of a mark has to move down because of a mark to the left of it. -/
def crowds (m next : Mark) : Bool :=
  overlaps next m 0 && m.hasLabel &&
    !(next.start == m.start && next.stop == m.stop && !next.hasLabel)

/-- Whether the next mark to the left needs a row further down than `m`, which is in the row `p`. -/
def pushesDown (p : Nat) (m next : Mark) : Bool :=
  let padding := if next.hasLabel then next.label.utf8ByteSize + 2 else 0
  (overlaps next m padding && m.hasLabel && next.hasLabel) ||
  (m.takesSpace && next.hasLabel) ||
  (m.hasLabel && next.takesSpace) ||
  (m.takesSpace && next.takesSpace) ||
  (overlaps next m padding && next.stop ≤ m.stop && next.hasLabel && p == 0)

/-- Give rows to the labels of marks, which come from right to left. -/
def labelRows : Nat → List Mark → List (Nat × Mark)
  | _, [] => []
  | p, m :: rest =>
    let p := if p == 0 && rest.any (crowds m) then 1 else p
    (p, m) :: labelRows (if rest.any (pushesDown p m) then p + 1 else p) rest

/-- The greatest row that is reached when rows are given to labels. -/
def lastRow : Nat → List Mark → Nat
  | p, [] => p
  | p, m :: rest =>
    let p := if p == 0 && rest.any (crowds m) then 1 else p
    lastRow (if rest.any (pushesDown p m) then p + 1 else p) rest

/-! ### Marks -/

/-- The column of a mark on the canvas. -/
def markColumn (f : Frame) (left : Nat) (column : Nat) : Nat := f.codeColumn + column - left

/-- The horizontal line that leads from a mark to the bar on the left. -/
def drawReach (f : Frame) (left : Nat) (canvas : Canvas) (pm : Nat × Mark) : Canvas :=
  match pm.2.shape with
  | .opens depth | .closes depth =>
    canvas.fill (pm.1 + 1) (f.barColumn + depth) (markColumn f left pm.2.start) '_' (f.ink pm.2)
  | .whole | .passes _ => canvas

/-- The line that leads down from a mark to its label. -/
def drawStem (f : Frame) (left : Nat) (canvas : Canvas) (pm : Nat × Mark) : Canvas :=
  if 0 < pm.1 && (pm.2.hasLabel || pm.2.takesSpace) then
    canvas.column 1 (pm.1 + 2) (markColumn f left pm.2.start) '|' (f.ink pm.2)
  else canvas

/-- The bar on the left of a mark, where `rows` is the number of rows below the text. -/
def drawBar (f : Frame) (rows : Nat) (canvas : Canvas) (pm : Nat × Mark) : Canvas :=
  match pm.2.shape with
  | .opens depth =>
    (canvas.put (pm.1 + 1) (f.barColumn + depth - 1) ' ' (f.ink pm.2)).column (pm.1 + 2) (rows + 2)
      (f.barColumn + depth - 1) '|' (f.ink pm.2)
  | .closes depth => canvas.column 0 (pm.1 + 2) (f.barColumn + depth - 1) '|' (f.ink pm.2)
  | .whole | .passes _ => canvas

/-- The label of a mark. -/
def drawLabel (f : Frame) (left : Nat) (canvas : Canvas) (pm : Nat × Mark) : Canvas :=
  let m := pm.2
  let (row, column) :=
    if pm.1 = 0 then (1, (if m.stop = 0 then 2 else m.stop + 1) - left)
    else (pm.1 + 2, m.start - left)
  if m.hasLabel then canvas.puts row (f.codeColumn + column) (inked (f.ink m) m.label) else canvas

/-- The line under a mark. -/
def drawUnderline (f : Frame) (left : Nat) (canvas : Canvas) (pm : Nat × Mark) : Canvas :=
  let m := pm.2
  let canvas := (List.range' m.start (m.stop - m.start)).foldl (fun canvas column =>
    canvas.put 1 (markColumn f left column) m.underline (f.ink m)) canvas
  if m.takesSpace || (0 < pm.1 && m.hasLabel) then
    canvas.put 1 (markColumn f left m.start) m.underline (f.ink m)
  else canvas

/-- A bar that runs along some rows. -/
structure Bar where
  depth : Nat
  ink : Ink
  deriving DecidableEq, Repr

def drawBars (f : Frame) (bars : List Bar) (canvas : Canvas) : Canvas :=
  bars.foldl (fun canvas bar =>
    canvas.column 0 canvas.length (f.barColumn + bar.depth - 1) '|' bar.ink) canvas

def Mark.opening? (m : Mark) : Option Nat :=
  match m.shape with
  | .opens depth => some depth
  | _ => none

/-- Whether a line needs no rows for its marks: all that happens is that places open at its first
character. Such places open with a slash beside the line. -/
def opensPlainly (l : MarkedLine) : Bool :=
  l.marks.all fun m =>
    match m.shape with
    | .opens _ => (l.line.chars.take m.chars).all Text.isBlank
    | .passes _ => true
    | .whole | .closes _ => false

/-- Marks from right to left. -/
def rightToLeft (marks : List Mark) : List Mark := marks.mergeSort fun m n => n.start ≤ m.start

/-- Marks from the longest to the shortest, so that short ones are drawn over long ones. Of marks of
one length primary ones come last. -/
def longestFirst (marks : List (Nat × Mark)) : List (Nat × Mark) :=
  marks.mergeSort fun x y =>
    let m := x.2
    let n := y.2
    n.stop - n.start < m.stop - m.start ||
      (n.stop - n.start == m.stop - m.start && (!m.primary || n.primary))

/-- The rows of a marked line and the bars that start or end there. -/
def drawMarked (f : Frame) (l : MarkedLine) : Canvas × List Bar :=
  let code := drawLine f l.line
  if opensPlainly l then
    l.marks.foldl (fun (canvas, bars) m =>
      match m.opening? with
      | some depth =>
        (canvas.put 0 (f.barColumn + depth - 1) '/' (f.ink m), bars ++ [⟨depth, f.ink m⟩])
      | none => (canvas, bars)) ([code], [])
  else if l.marks.all (·.isPassing) then ([code], [])
  else
    let left := min f.left (width (l.line.chars.flatMap shown))
    let sorted := rightToLeft l.marks
    let placed := labelRows 0 sorted
    let last := lastRow 0 sorted
    let rows := if last = 0 then 0 else last + 1
    let deepest := (placed.map (·.1)).foldl max 0
    let allOpen := l.marks.all (·.opening?.isSome)
    let placed := if allOpen then placed.map (fun pm => (deepest - pm.1, pm.2)) else placed
    let rows := if allOpen then rows - 1 else rows
    let canvas : Canvas := (List.range (rows + 1)).foldl (fun canvas n => drawDivider f canvas (n + 1))
      [code]
    let canvas := placed.foldl (drawReach f left) canvas
    let canvas := placed.foldl (fun canvas pm => drawBar f rows (drawStem f left canvas pm) pm) canvas
    let canvas := placed.foldl (drawLabel f left) canvas
    let canvas := (longestFirst placed).foldl (drawUnderline f left) canvas
    (canvas, placed.filterMap fun pm =>
      match pm.2.shape with
      | .opens depth | .closes depth => some ⟨depth, f.ink pm.2⟩
      | .whole | .passes _ => none)

/-- The bars behind a line with the given changes: those that end are left out, those that start are
added. -/
def changeBars (running changes : List Bar) : List Bar × List Bar :=
  (running.filter fun b => !changes.any (·.depth == b.depth),
   changes.filter fun b => !running.any (·.depth == b.depth))

/-- The rows of marked lines. A single line between two of them is shown, more lines are left out. -/
def drawAll (f : Frame) (lines : List SourceLine) : List Bar → List MarkedLine → Canvas
  | _, [] => []
  | bars, l :: rest =>
    let (canvas, changes) := drawMarked f l
    let (kept, added) := changeBars bars changes
    let opened := l.marks.filterMap fun m => m.opening?.map fun depth => (⟨depth, f.ink m⟩ : Bar)
    let between : Canvas :=
      match rest with
      | [] => []
      | next :: _ =>
        if l.line.number + 2 < next.line.number then
          drawBars f (kept ++ opened) [inked .accent "..."]
        else if l.line.number + 2 = next.line.number then
          drawBars f (kept ++ opened)
            (((lines.find? (·.number == l.line.number + 1)).map (drawLine f)).toList)
        else []
    drawBars f kept canvas ++ between ++ drawAll f lines (kept ++ added) rest

/-! ### What is shown of long lines -/

/-- The columns that are shown: some blanks at the left are left out if all lines start with many,
and lines that are too long are cut around their marks. -/
def visibleColumns (codeWidth : Nat) (lines : List MarkedLine) : Nat × Nat :=
  let marks := lines.flatMap (·.marks)
  let indents := (lines.filter (!·.line.chars.all Text.isBlank)).map fun l =>
    width (l.line.chars.takeWhile Text.isBlank)
  let indent := indents.min?.getD 0 - 6
  let firstColumn := ((marks.flatMap fun m => [m.start, m.stop]).min?.getD 0) - 6
  let lastColumn := ((marks.flatMap fun m => [m.start, m.stop]).max?.getD 0) + 6
  let labelEnd := ((marks.map fun m =>
    m.stop + if m.hasLabel then width m.label.toList + 1 else 0).max?.getD 0) + 6
  let left := if 20 < indent then indent - 16 else 0
  let right := max (((lines.map fun l => width l.line.chars).max?).getD 0) left
  if right - left ≤ codeWidth then (left, right)
  else if labelEnd - indent ≤ codeWidth then (indent, indent + codeWidth)
  else if labelEnd - firstColumn ≤ codeWidth then
    let left := firstColumn - (codeWidth - (labelEnd - firstColumn)) / 2
    (left, left + codeWidth)
  else if lastColumn - firstColumn ≤ codeWidth then
    let left := firstColumn - (codeWidth - (lastColumn - firstColumn)) / 5 * 2
    (left, left + codeWidth)
  else (firstColumn, lastColumn)

/-- The rows of the lines that the places of a diagnostic mark. -/
def drawPlaces (severity : Severity) (lines : List SourceLine) (numberWidth : Nat)
    (places : List Place) : Canvas :=
  let (marked, depth) := markedLines lines places
  let f : Frame := { numberWidth, depth, severity, left := 0, right := 0 }
  let (left, right) := visibleColumns f.codeWidth marked
  drawAll { f with left, right } lines [] marked

end Installer.Snippet
