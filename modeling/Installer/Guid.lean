import Installer.Text.Number

/-! # Globally unique identifiers

A GUID is a number of 128 bits. It is written as 32 hexadecimal digits, as five groups of digits
with hyphens between them, and as these groups in braces or behind `urn:uuid:`, in any letter case.
`Guid.normalize?` gives the one normal form: groups in upper case, in braces. -/

namespace Installer.Guid

/-- The numbers of digits of the five groups. -/
def groupSizes : List Nat := [8, 4, 4, 4, 12]

/-- Split a text into groups of the given sizes with hyphens between them. -/
def groups? : List Nat → List Char → Option (List (List Char))
  | [], _ => none
  | [n], cs => if cs.length = n then some [cs] else none
  | n :: sizes, cs =>
    match cs.drop n with
    | '-' :: rest => (groups? sizes rest).map (cs.take n :: ·)
    | _ => none

/-- The text with all of `word` in front removed, in any letter case. That the letter case of this word
does not matter is an assumption about the package `uuid`, whose reader of GUIDs this stands for. -/
def dropWord? : List Char → List Char → Option (List Char)
  | [], cs => some cs
  | w :: word, c :: cs => if c.toLower = w then dropWord? word cs else none
  | _ :: _, [] => none

/-- The text inside of a pair of braces. -/
def unbrace? : List Char → Option (List Char)
  | '{' :: cs => if cs.getLast? = some '}' then some cs.dropLast else none
  | _ => none

/-- The 32 digits of a GUID in one of its notations. -/
def digits? (cs : List Char) : Option (List Char) :=
  let ds :=
    if cs.length = 32 then some cs
    else if cs.length = 36 then (groups? groupSizes cs).map List.flatten
    else if cs.length = 38 then ((unbrace? cs).bind (groups? groupSizes)).map List.flatten
    else ((dropWord? "urn:uuid:".toList cs).bind (groups? groupSizes)).map List.flatten
  ds.filter fun ds => ds.all fun c => (Text.digit? c).isSome

/-- The number that a text denotes. -/
def value? (s : String) : Option Nat := (digits? s.toList).bind (Text.natural? 16)

/-- Write digits as groups with hyphens between them. -/
def hyphenate : List Nat → List Char → List Char
  | [], _ => []
  | [n], ds => ds.take n
  | n :: sizes, ds => ds.take n ++ '-' :: hyphenate sizes (ds.drop n)

/-- The normal form of the GUID with the given digits. -/
def braced (ds : List Char) : String :=
  String.ofList ('{' :: hyphenate groupSizes (ds.map Char.toUpper) ++ ['}'])

/-- The normal form of a GUID in any of its notations. -/
def normalize? (s : String) : Option String := (digits? s.toList).map braced

end Installer.Guid
