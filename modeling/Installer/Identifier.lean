import Installer.Text.Blank

/-! # Identifiers

An identifier is a name with an access that says where the name may be used. The names are the
words `[A-Za-z_][A-Za-z0-9_.]*`; a few of them are reserved. `Identifier.parse` reads an authored
identifier, which may have the keyword of its access in front, and `Identifier.text` writes it. -/

namespace Installer

/-- Where an identifier may be used. `invalid` marks the identifier that stands in for one that was
authored wrongly or not at all. -/
inductive Access where
  | global
  | sectionWide
  | filePrivate
  | overridable
  | invalid
  deriving DecidableEq, Repr

namespace Access

/-- The word for an access in texts. -/
def keyword : Access → String
  | global => "global"
  | sectionWide => "section"
  | filePrivate => "private"
  | overridable => "virtual"
  | invalid => "invalid"

/-- The accesses that an author can ask for. -/
def authored : List Access := [global, sectionWide, filePrivate, overridable]

/-- The access that a keyword asks for. -/
def ofKeyword? (word : String) : Option Access := authored.find? (·.keyword == word)

end Access

/-- A name and its access. -/
structure Identifier where
  access : Access
  id : String
  deriving DecidableEq, Repr

/-- Why a text is not an identifier. -/
inductive IdentifierError where
  | empty
  | illegal
  | reserved
  deriving DecidableEq, Repr

namespace Identifier

/-- The identifier of a name that may be used everywhere. -/
def ofName (id : String) : Identifier := ⟨.global, id⟩

/-- The identifier that stands in for a missing one. -/
def invalid : Identifier := ⟨.invalid, ""⟩

def isInvalid (i : Identifier) : Bool := i.access == .invalid

/-- Two identifiers name the same thing if their names are equal, whatever their access. -/
def sameName (i j : Identifier) : Bool := i.id == j.id

/-- The identifier as an author writes it. -/
def text (i : Identifier) : String :=
  match i.access with
  | .global | .invalid => i.id
  | access => access.keyword ++ " " ++ i.id

/-! ### Names -/

/-- The characters a name starts with. -/
def isNameStart (c : Char) : Bool := c.isAlpha || c == '_'

/-- The characters a name consists of. -/
def isNameChar (c : Char) : Bool := c.isAlphanum || c == '_' || c == '.'

/-- Whether a text is a name. -/
def isLegal (s : String) : Bool :=
  match s.toList with
  | [] => false
  | c :: cs => isNameStart c && cs.all isNameChar

/-- The package group that every item of a chain belongs to. -/
def chainGroup : String := "WixChain"

/-- The rollback boundary in front of a chain that starts without one. -/
def defaultBoundary : String := "WixDefaultBoundary"

/-- The container of the payloads of the bootstrapper application. -/
def interfaceContainer : String := "WixUXContainer"

/-- The container attached to the bundle itself. -/
def attachedContainer : String := "WixAttachedContainer"

/-- The payloads of a bundle that appear in its layout only. -/
def layoutOnlyPayloads : String := "BundleLayoutOnlyPayloads"

/-- The names that have a fixed meaning and cannot be authored. -/
def reservedNames : List String :=
  [chainGroup, defaultBoundary, interfaceContainer, attachedContainer, layoutOnlyPayloads]

def isReserved (id : String) : Bool := reservedNames.contains id

/-! ### Authored identifiers -/

/-- The name `id` with the access `access`, if it is a name that can be authored. -/
def check (access : Access) (id : List Char) : Except IdentifierError Identifier :=
  let id := String.ofList id
  if !isLegal id then .error .illegal
  else if isReserved id then .error .reserved
  else .ok ⟨access, id⟩

/-- Read an identifier: a name, or a keyword, blanks and a name. Blanks at the ends do not matter. -/
def parse (value : String) : Except IdentifierError Identifier :=
  let cs := Text.trim value.toList
  if cs.isEmpty then .error .empty
  else
    let word := cs.takeWhile (!Text.isBlank ·)
    match cs.dropWhile (!Text.isBlank ·) with
    | [] => check .global word
    | rest =>
      match Access.ofKeyword? (String.ofList word) with
      | some access => check access (Text.trimStart rest)
      | none => .error .illegal

/-! ### Names from file names -/

/-- The character of a name that stands for a character of a file name. -/
def nameCharOf (c : Char) : Char := if isNameChar c then c.toLower else '_'

/-- The name that stands for a file name: in lower case, and with underscores for the characters
that no name has. -/
def ofFileName (file : String) : String :=
  let cs := file.toList.map nameCharOf
  match cs with
  | c :: _ => if isNameStart c then String.ofList cs else String.ofList ('_' :: cs)
  | [] => "_"

end Identifier

end Installer
