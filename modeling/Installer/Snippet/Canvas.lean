import Installer.Diagnostic

/-! # Canvases

A canvas is a list of rows of coloured characters. Characters are put at any place; what is not
written is blank. Rows are written without the blanks at their ends. -/

namespace Installer.Snippet

/-- The colour of a character. -/
inductive Ink where
  | plain
  | bold
  | accent
  | help
  | level (severity : Severity)
  deriving DecidableEq, Repr

/-- The control sequence that turns a colour on. -/
def Ink.code : Ink → String
  | plain => ""
  | bold => "\x1b[1m"
  | accent => "\x1b[1m\x1b[94m"
  | help => "\x1b[1m\x1b[96m"
  | level .error => "\x1b[1m\x1b[91m"
  | level .warning => "\x1b[1m\x1b[33m"

/-- The control sequence that turns a colour off. -/
def Ink.reset : Ink → String
  | plain => ""
  | _ => "\x1b[0m"

structure Cell where
  char : Char
  ink : Ink
  deriving DecidableEq, Repr

abbrev Row := List Cell

abbrev Canvas := List Row

def Cell.blank : Cell := ⟨' ', .plain⟩

/-- The cells of a text in one colour. -/
def inked (ink : Ink) (s : String) : Row := s.toList.map (⟨·, ink⟩)

namespace Row

/-- Write a cell into a row. -/
def put : Row → Nat → Cell → Row
  | [], 0, c => [c]
  | [], n + 1, c => Cell.blank :: put [] n c
  | _ :: row, 0, c => c :: row
  | d :: row, n + 1, c => d :: put row n c

/-- Write cells into a row, from a column on. -/
def puts (row : Row) (column : Nat) (cells : Row) : Row :=
  (cells.zipIdx column).foldl (fun row c => row.put c.2 c.1) row

/-- The text of a row in colours, where `ink` is the colour that is on. -/
def colouredFrom (ink : Ink) : Row → String
  | [] => ink.reset
  | c :: row =>
    (if c.ink = ink then "" else ink.reset ++ c.ink.code) ++ c.char.toString ++
      colouredFrom c.ink row

/-- A row without the blanks at its end. -/
def trimEnd (row : Row) : Row := (row.reverse.dropWhile (·.char == ' ')).reverse

/-- The text of a row. -/
def text (coloured : Bool) (row : Row) : String :=
  if coloured then colouredFrom .plain row.trimEnd
  else String.ofList (row.trimEnd.map (·.char))

end Row

namespace Canvas

/-- Change the row with the given number. -/
def modifyRow (f : Row → Row) : Nat → Canvas → Canvas
  | 0, [] => [f []]
  | n + 1, [] => [] :: modifyRow f n []
  | 0, row :: rows => f row :: rows
  | n + 1, row :: rows => row :: modifyRow f n rows

def put (canvas : Canvas) (row column : Nat) (c : Char) (ink : Ink) : Canvas :=
  canvas.modifyRow (fun r => Row.put r column ⟨c, ink⟩) row

def puts (canvas : Canvas) (row column : Nat) (cells : Row) : Canvas :=
  canvas.modifyRow (fun r => Row.puts r column cells) row

/-- Fill the columns from `start` up to and without `stop`. -/
def fill (canvas : Canvas) (row start stop : Nat) (c : Char) (ink : Ink) : Canvas :=
  canvas.puts row start (List.replicate (stop - start) ⟨c, ink⟩)

/-- Put a character into one column of the rows from `start` up to and without `stop`. -/
def column (canvas : Canvas) (start stop column : Nat) (c : Char) (ink : Ink) : Canvas :=
  (List.range' start (stop - start)).foldl (fun canvas row => canvas.put row column c ink) canvas

end Canvas

end Installer.Snippet
