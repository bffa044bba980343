import Installer.Text.Blank

/-! # File names

A long file name has at most 259 bytes and none of the characters that separate or match names; a
relative path is a sequence of long file names; a short file name has at most eight characters and
an extension of at most three. -/

namespace Installer.FileName

/-- The characters that no file name has, beside control characters. -/
def illegalChars : List Char := ['\\', '?', '|', '>', '<', ':', '/', '*', '"']

def isSeparator (c : Char) : Bool := c == '\\' || c == '/'

/-- Whether a text is a long file name. -/
def isLongChars (cs : List Char) : Bool :=
  Text.byteLength cs ≤ 259 && cs != ['.'] && cs != ['.', '.'] && !cs.all Text.isBlank &&
    !cs.any fun c => Text.isControl c || illegalChars.contains c

/-- Whether a text is a long file name, or a path of such names if `relative` allows it. -/
def isLong (relative : Bool) (s : String) : Bool :=
  if relative then (s.toList.splitOnP isSeparator).all isLongChars else isLongChars s.toList

/-- The characters of short file names beside letters and digits. -/
def shortExtras : List Char := "!#$%&'()-@^_`\x7b\x7d~".toList

def isShortChar (c : Char) : Bool := c.isAlphanum || shortExtras.contains c

/-- One part of a short file name, of at most `most` bytes. Its characters have one byte each. -/
def isShortPart (most : Nat) (cs : List Char) : Bool :=
  1 ≤ Text.byteLength cs && Text.byteLength cs ≤ most && cs.all isShortChar

/-- Whether a text is a short file name. -/
def isShort (s : String) : Bool :=
  let base := s.toList.takeWhile (· != '.')
  match s.toList.dropWhile (· != '.') with
  | [] => isShortPart 8 base
  | _ :: extension => isShortPart 8 base && isShortPart 3 extension

/-- The last name of a path. -/
def lastName (path : String) : String :=
  String.ofList (path.toList.reverse.takeWhile (!isSeparator ·)).reverse

end Installer.FileName
