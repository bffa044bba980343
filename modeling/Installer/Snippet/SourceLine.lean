import Installer.Text.Blank
import Installer.Text.Width

/-! # Lines of a text

The lines of a text with the bytes that they take, and the places in them. Line breaks are a line
feed, maybe behind a carriage return, and belong to the line before them. -/

namespace Installer.Snippet

/-- A line, without its line break. Its bytes are those from `start` up to and without `stop`, of
which the line break takes the last `breakSize`. -/
structure SourceLine where
  number : Nat
  chars : List Char
  start : Nat
  stop : Nat
  breakSize : Nat
  deriving DecidableEq, Repr

/-- A line that ends with a line feed. -/
def SourceLine.broken (number start : Nat) (chars : List Char) : SourceLine :=
  let stop := start + Text.byteLength chars + 1
  if chars.getLast? = some '\r' then ⟨number, chars.dropLast, start, stop, 2⟩
  else ⟨number, chars, start, stop, 1⟩

/-- The lines of a text from the given line number and byte on, where `line` holds the characters of
the current line, the last one first. -/
def linesFrom (number start : Nat) (line : List Char) : List Char → List SourceLine
  | [] =>
    if line.isEmpty then []
    else [⟨number, line.reverse, start, start + Text.byteLength line, 0⟩]
  | c :: cs =>
    if c = '\n' then
      let done := SourceLine.broken number start line.reverse
      done :: linesFrom (number + 1) done.stop [] cs
    else linesFrom number start (c :: line) cs

/-- The lines of a text. An empty text has one empty line. -/
def sourceLines (source : String) : List SourceLine :=
  if source.isEmpty then [⟨1, [], 0, 1, 0⟩] else linesFrom 1 0 [] source.toList

/-! ### Columns -/

/-- What is shown for a character: tabs are four blanks, control characters have pictures, and
characters that change the direction of text are replaced. -/
def shown (c : Char) : List Char :=
  let n := c.toNat
  if c = '\t' then [' ', ' ', ' ', ' ']
  else if c = '\n' then [c]
  else if n < 0x20 then [Char.ofNat (0x2400 + n)]
  else if n = 0x7f then [Char.ofNat 0x2421]
  else if n = 0x200d then []
  else if (0x202a ≤ n && n ≤ 0x202e) || (0x2066 ≤ n && n ≤ 0x2069) then [Char.ofNat 0xfffd]
  else [c]

/-- The number of columns that a character takes. -/
def columns (c : Char) : Nat :=
  let n := c.toNat
  if c = '\t' then 4
  else if n < 0x20 || n = 0x7f || (0x202a ≤ n && n ≤ 0x202e) || (0x2066 ≤ n && n ≤ 0x2069) then 1
  else Text.charWidth c

/-- The number of columns that a text takes. -/
def width (cs : List Char) : Nat := cs.foldr (fun c n => columns c + n) 0

/-- A place in a text: its line, the number of characters before it in the line, and its column. -/
structure Spot where
  line : Nat
  chars : Nat
  column : Nat
  deriving DecidableEq, Repr

/-- The characters of a text that lie in its first `n` bytes. -/
def takeBytes : Nat → List Char → List Char
  | _, [] => []
  | n, c :: cs => if c.utf8Size ≤ n then c :: takeBytes (n - c.utf8Size) cs else []

/-- The line of a byte: the last line for what lies behind the text. -/
def lineOf? (lines : List SourceLine) (byte : Nat) : Option SourceLine :=
  (lines.find? fun l => l.start ≤ byte && byte < l.stop).or lines.getLast?

/-- The place of the first byte of a range. Behind the line there is one more character. -/
def SourceLine.startSpot (l : SourceLine) (byte : Nat) : Spot :=
  let before := takeBytes (byte - l.start) l.chars
  let behind := Text.byteLength l.chars < byte - l.start
  ⟨l.number, before.length + (if behind then 1 else 0), width before⟩

/-- The place behind the last byte of a range that starts in the line `first`. -/
def SourceLine.stopSpot (l : SourceLine) (first byte : Nat) : Spot :=
  let before := takeBytes (byte - l.start) l.chars
  let extra := if l.number ≠ first && l.stop - l.breakSize < byte then 1 else 0
  ⟨l.number, before.length + extra, width before + extra⟩

/-- The places where a range of bytes starts and stops. -/
def locate (lines : List SourceLine) (start stop : Nat) : Spot × Spot :=
  match lineOf? lines start, lineOf? lines stop with
  | some first, some last =>
    let a := first.startSpot start
    (a, if start = stop then a else last.stopSpot first.number stop)
  | _, _ => (⟨1, 0, 0⟩, ⟨1, 0, 0⟩)

end Installer.Snippet
