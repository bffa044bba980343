import Installer.Text.Number

/-! # Versions

A version is one to four numbers of 32 bits with dots between them. Where a version is authored, a
variable that is bound later, `!(…)`, may stand for it. -/

namespace Installer.Version

/-- One number of a version. -/
def isPart (cs : List Char) : Bool :=
  match Text.natural? 10 cs with
  | some n => n < 4294967296
  | none => false

/-- Whether a text is a version. -/
def isVersionChars (cs : List Char) : Bool :=
  let parts := cs.splitOnP (· == '.')
  parts.length ≤ 4 && parts.all isPart

def isVersion (s : String) : Bool := isVersionChars s.toList

/-- Whether a text is a version behind a letter `v`. -/
def isMarked (s : String) : Bool :=
  match s.toList with
  | 'v' :: cs | 'V' :: cs => isVersionChars cs
  | _ => false

/-- Whether a text is a variable that is bound later. -/
def isBound (s : String) : Bool :=
  match s.toList with
  | '!' :: '(' :: cs => cs.getLast? == some ')'
  | _ => false

end Installer.Version
