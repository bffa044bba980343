import Installer.Markup.Fault
import Installer.Text.Blank

/-! # References

The text that a reference `&name;` stands for. There are five named entities; a name that starts with
`#` gives the number of a character. In an attribute value (`inValue`) the number has no sign, the
letter of hexadecimal numbers is a small `x` and the number zero is refused; in the content of an
element (`inContent`) a plus sign, a capital `X` and zero are accepted. -/

namespace Installer.Markup.Entity

/-- The entities with a name. -/
def named : List (String × Char) :=
  [("lt", '<'), ("gt", '>'), ("amp", '&'), ("apos", '\''), ("quot", '"')]

/-- The character with the given number. -/
def scalar? (n : Nat) : Option Char := if h : n.isValidChar then some (Char.ofNatAux n h) else none

/-- The value of digits after those that were read with value `n`; the first digit that is wrong or
too much decides the fault. -/
def readDigits (base : Nat) : Nat → List Char → Except NumberFault Nat
  | n, [] => .ok n
  | n, c :: cs =>
    match Text.digitIn? base c with
    | none => .error .digit
    | some d =>
      if n * base + d < 4294967296 then readDigits base (n * base + d) cs else .error .tooLarge

/-- A number of 32 bits without a sign. -/
def readNumber (base : Nat) (cs : List Char) : Except NumberFault Nat :=
  match cs with
  | [] => .error .empty
  | '+' :: _ | '-' :: _ => .error .sign
  | _ => readDigits base 0 cs

/-- The character that the number in an attribute value stands for. -/
def numbered (cs : List Char) : Except NumberFault Char :=
  let number :=
    match cs with
    | 'x' :: hex => readNumber 16 hex
    | _ => readNumber 10 cs
  match number with
  | .error fault => .error fault
  | .ok n =>
    if n = 0 then .error .zero
    else
      match scalar? n with
      | some c => .ok c
      | none => .error (.notScalar n)

/-- The character that a name in an attribute value stands for. The name starts at the byte `start`
of the value. -/
def inValue (start : Nat) (name : List Char) : Except Fault Char :=
  match name with
  | '#' :: number =>
    match numbered number with
    | .ok c => .ok c
    | .error fault => .error (.badNumber fault)
  | _ =>
    match named.lookup (String.ofList name) with
    | some c => .ok c
    | none =>
      .error (.unknownEntityInValue start (start + Text.byteLength name) (String.ofList name))

/-- A number of 32 bits, with a plus sign or without one. -/
def lenientNumber? (base : Nat) (cs : List Char) : Option Nat :=
  let digits :=
    match cs with
    | '+' :: digits => digits
    | _ => cs
  (Text.natural? base digits).filter (· < 4294967296)

/-- The character that a name in the content of an element stands for. -/
def inContent (name : List Char) : Except Fault Char :=
  match named.lookup (String.ofList name) with
  | some c => .ok c
  | none =>
    match name with
    | '#' :: number =>
      let code :=
        match number with
        | 'x' :: hex | 'X' :: hex => lenientNumber? 16 hex
        | _ => lenientNumber? 10 number
      match code.bind scalar? with
      | some c => .ok c
      | none => .error (.invalidReference (String.ofList name))
    | _ => .error (.unknownEntity (String.ofList name))

end Installer.Markup.Entity
