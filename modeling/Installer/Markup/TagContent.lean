import Installer.Markup.Entity
import Installer.Markup.Token

/-! # The content of start tags

A start tag has a name, which ends at the first blank, and attributes with quoted values. Positions
are counted in bytes from the start of the name. `rawAttributes` reads the attributes up to the
first fault; `unescape` resolves the references in a value. -/

namespace Installer.Markup

/-- The name at the start of a tag. -/
def tagName (content : List Char) : List Char := content.takeWhile (!isSpace ·)

/-- An attribute as it stands in a tag. -/
structure RawAttribute where
  position : Nat
  key : List Char
  value : List Char
  deriving DecidableEq, Repr

/-- What comes next in a tag. -/
inductive NextAttribute where
  | none
  | fault (fault : Fault)
  | found (item : RawAttribute) (position : Nat) (rest : List Char)

/-- The value behind an equals sign. -/
def takeValue (start : Nat) (key : List Char) (position : Nat) (cs : List Char) : NextAttribute :=
  let spaces := cs.takeWhile isSpace
  let position := position + Text.byteLength spaces
  match cs.dropWhile isSpace with
  | [] => .fault (.expectedValue position)
  | q :: cs =>
    if isQuote q then
      let value := cs.takeWhile (· != q)
      match cs.dropWhile (· != q) with
      | [] => .fault (.expectedQuote (position + 1 + Text.byteLength value) q)
      | _ :: rest => .found ⟨start, key, value⟩ (position + Text.byteLength value + 2) rest
    else .fault (.unquotedValue position)

def isKeyEnd (c : Char) : Bool := c == '=' || isSpace c

/-- The next attribute of a tag. `earlier` are the attributes before it. -/
def nextAttribute (earlier : List RawAttribute) (position : Nat) (cs : List Char) : NextAttribute :=
  let start := position + Text.byteLength (cs.takeWhile isSpace)
  match cs.dropWhile isSpace with
  | [] => .none
  | c :: cs =>
    let key := c :: cs.takeWhile (!isKeyEnd ·)
    let cs := cs.dropWhile (!isKeyEnd ·)
    let position := start + Text.byteLength key + Text.byteLength (cs.takeWhile isSpace)
    match cs.dropWhile isSpace with
    | '=' :: rest =>
      match earlier.find? (·.key == key) with
      | some previous => .fault (.duplicate start previous.position)
      | none => takeValue start key (position + 1) rest
    | _ => .fault (.expectedEquals position)

theorem length_takeValue {start position p : Nat} {key cs rest : List Char} {a : RawAttribute}
    (h : takeValue start key position cs = .found a p rest) : rest.length < cs.length := by
  simp only [takeValue] at h
  split at h
  · cases h
  · rename_i q ds hd
    have h1 := (List.dropWhile_sublist isSpace (l := cs)).length_le
    rw [hd] at h1
    split at h
    · split at h
      · cases h
      · rename_i he
        cases h
        have h2 := (List.dropWhile_sublist (· != q) (l := ds)).length_le
        rw [he] at h2
        simp only [List.length_cons] at h1 h2
        omega
    · cases h

/-- Reading an attribute leaves a shorter rest of the tag. -/
theorem length_nextAttribute {earlier : List RawAttribute} {position p : Nat}
    {cs rest : List Char} {a : RawAttribute}
    (h : nextAttribute earlier position cs = .found a p rest) : rest.length < cs.length := by
  simp only [nextAttribute] at h
  split at h
  · cases h
  · rename_i c ds hd
    have h1 := (List.dropWhile_sublist isSpace (l := cs)).length_le
    rw [hd] at h1
    split at h
    · rename_i es he
      split at h
      · cases h
      · have h2 := (List.dropWhile_sublist (!isKeyEnd ·) (l := ds)).length_le
        have h3 := (List.dropWhile_sublist isSpace
          (l := ds.dropWhile (!isKeyEnd ·))).length_le
        rw [he] at h3
        have := length_takeValue h
        simp only [List.length_cons] at h1 h3
        omega
    · cases h

/-- The attributes of a tag from a position on, up to the first fault. -/
def rawAttributesFrom (earlier : List RawAttribute) (position : Nat) (cs : List Char) :
    List RawAttribute × Option Fault :=
  match h : nextAttribute earlier position cs with
  | .none => ([], none)
  | .fault fault => ([], some fault)
  | .found a p rest =>
    have := length_nextAttribute h
    let r := rawAttributesFrom (earlier ++ [a]) p rest
    (a :: r.1, r.2)
termination_by cs.length

/-- The attributes of a tag, up to the first fault. -/
def rawAttributes (content : List Char) : List RawAttribute × Option Fault :=
  let name := tagName content
  rawAttributesFrom [] (Text.byteLength name) (content.drop name.length)

/-- The attributes of a tag up to the first one that is malformed, where a key may be repeated. -/
def repeatedAttributesFrom (position : Nat) (cs : List Char) : List RawAttribute :=
  match h : nextAttribute [] position cs with
  | .found a p rest =>
    have := length_nextAttribute h
    a :: repeatedAttributesFrom p rest
  | _ => []
termination_by cs.length

def repeatedAttributes (content : List Char) : List RawAttribute :=
  let name := tagName content
  repeatedAttributesFrom (Text.byteLength name) (content.drop name.length)

/-! ### Values -/

def isReferenceMark (c : Char) : Bool := c == '&' || c == ';'

/-- The text of a value from the byte `position` on, with its references resolved. `size` is the
number of bytes of the whole value. -/
def unescapeFrom (size position : Nat) (cs : List Char) : Except Fault (List Char) :=
  match cs with
  | [] => .ok []
  | '&' :: cs =>
    let name := cs.takeWhile (!isReferenceMark ·)
    match h : cs.dropWhile (!isReferenceMark ·) with
    | ';' :: rest =>
      have : rest.length < cs.length := by
        have h1 := (List.dropWhile_sublist (!isReferenceMark ·) (l := cs)).length_le
        rw [h] at h1
        simp only [List.length_cons] at h1
        omega
      match Entity.inValue (position + 1) name with
      | .error fault => .error fault
      | .ok c =>
        (unescapeFrom size (position + Text.byteLength name + 2) rest).map (c :: ·)
    | _ => .error (.openReferenceInValue position size)
  | c :: cs => (unescapeFrom size (position + c.utf8Size) cs).map (c :: ·)
termination_by cs.length

/-- The text of a value with its references resolved. -/
def unescape (value : List Char) : Except Fault (List Char) :=
  unescapeFrom (Text.byteLength value) 0 value

end Installer.Markup
