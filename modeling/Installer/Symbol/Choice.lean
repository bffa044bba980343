import Installer.Json

/-! # Choices

A choice is a value out of a short list, authored by its keyword. The keyword is also its form in
JSON. -/

namespace Installer

/-- A type whose values are known by keywords. `choices` lists those that can be authored, in the
order in which they are offered to the author. -/
class Choice (α : Type) where
  keyword : α → String
  choices : List α

namespace Choice

/-- The authored value with the given keyword. -/
def find? (α : Type) [Choice α] (word : String) : Option α :=
  (choices : List α).find? (keyword · == word)

/-- The keywords that can be authored. -/
def keywords (α : Type) [Choice α] : List String := (choices : List α).map keyword

end Choice

instance (priority := low) {α : Type} [Choice α] : ToJson α := ⟨fun a => .text (Choice.keyword a)⟩

end Installer
