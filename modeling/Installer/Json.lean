import Installer.Text.Number

/-! # JSON

Values of the data format JSON, with whole numbers only and with the members of a record in order.
`Json.pretty` writes a value with one item a line, indented by two blanks a level, and `Json.compact`
without any blanks. Strings are written as they are, apart from quotes, backslashes and control
characters. -/

namespace Installer

/-- A JSON value. -/
inductive Json where
  | null
  | bool (b : Bool)
  | number (n : Int)
  | text (s : String)
  | list (items : List Json)
  | record (members : List (String × Json))
  deriving Repr

namespace Json

/-! ### Writing -/

/-- A character inside of a string. -/
def escapeChar (c : Char) : List Char :=
  if c = '"' then ['\\', '"']
  else if c = '\\' then ['\\', '\\']
  else if c = '\n' then ['\\', 'n']
  else if c = '\r' then ['\\', 'r']
  else if c = '\t' then ['\\', 't']
  else if c = Char.ofNat 8 then ['\\', 'b']
  else if c = Char.ofNat 12 then ['\\', 'f']
  else if c.toNat < 0x20 then '\\' :: 'u' :: Text.hexDigits 4 c.toNat
  else [c]

/-- A string with its quotes. -/
def quote (s : String) : List Char := '"' :: s.toList.flatMap escapeChar ++ ['"']

/-- The start of a line at the given level. -/
def newLine (level : Nat) : List Char := '\n' :: List.replicate (2 * level) ' '

mutual

/-- A value whose closing bracket stands at the given level. -/
def pretty (level : Nat) : Json → List Char
  | null => "null".toList
  | bool true => "true".toList
  | bool false => "false".toList
  | number n => (toString n).toList
  | text s => quote s
  | list [] => "[]".toList
  | list items => '[' :: prettyItems (level + 1) items ++ newLine level ++ [']']
  | record [] => "\x7b\x7d".toList
  | record members => '{' :: prettyMembers (level + 1) members ++ newLine level ++ ['}']

/-- Items with commas between them, each on a line of its own. -/
def prettyItems (level : Nat) : List Json → List Char
  | [] => []
  | [item] => newLine level ++ pretty level item
  | item :: items => newLine level ++ pretty level item ++ ',' :: prettyItems level items

/-- Members with commas between them, each on a line of its own. -/
def prettyMembers (level : Nat) : List (String × Json) → List Char
  | [] => []
  | [(name, value)] => newLine level ++ quote name ++ ':' :: ' ' :: pretty level value
  | (name, value) :: members =>
    newLine level ++ quote name ++ ':' :: ' ' :: pretty level value ++ ',' ::
      prettyMembers level members

end

/-- The text of a value. -/
def render (value : Json) : String := String.ofList (pretty 0 value)

mutual

/-- A value on a line of its own, without blanks. -/
def compact : Json → List Char
  | null => "null".toList
  | bool true => "true".toList
  | bool false => "false".toList
  | number n => (toString n).toList
  | text s => quote s
  | list items => '[' :: compactItems items ++ [']']
  | record members => '{' :: compactMembers members ++ ['}']

/-- Items with commas between them. -/
def compactItems : List Json → List Char
  | [] => []
  | [item] => compact item
  | item :: items => compact item ++ ',' :: compactItems items

/-- Members with commas between them. -/
def compactMembers : List (String × Json) → List Char
  | [] => []
  | [(name, value)] => quote name ++ ':' :: compact value
  | (name, value) :: members => quote name ++ ':' :: compact value ++ ',' :: compactMembers members

end

/-! ### Flattening -/

mutual

/-- The members of records as pairs of a path and a text: the names of nested members are joined by
dots, strings stand for themselves, null is left out and lists are written compactly. -/
def flatten (path : String) : Json → List (String × String)
  | null => []
  | text s => [(path, s)]
  | record members => flattenMembers (path ++ ".") members
  | bool b => [(path, if b then "true" else "false")]
  | number n => [(path, toString n)]
  | list items => [(path, String.ofList (compact (list items)))]

/-- The members of a record whose names stand behind `stem`. -/
def flattenMembers (stem : String) : List (String × Json) → List (String × String)
  | [] => []
  | (name, value) :: members => flatten (stem ++ name) value ++ flattenMembers stem members

end

end Json

/-- Types with a form as a JSON value. -/
class ToJson (α : Type) where
  toJson : α → Json

export ToJson (toJson)

instance : ToJson String := ⟨.text⟩
instance : ToJson Bool := ⟨.bool⟩
instance : ToJson Int := ⟨.number⟩
instance : ToJson Nat := ⟨fun n => .number n⟩
instance : ToJson UInt32 := ⟨fun n => .number n.toNat⟩

instance {α : Type} [ToJson α] : ToJson (Option α) where
  toJson
    | some a => toJson a
    | none => .null

instance {α : Type} [ToJson α] : ToJson (List α) := ⟨fun xs => .list (xs.map toJson)⟩

end Installer
