import Installer.Document
import Installer.Markup.TagContent

/-! # Namespaces

A name may have a word and a colon in front; the word is bound to a namespace by the tag itself or
by one around it. Names of elements without such a word are in the default namespace, names of
attributes without one are in none. -/

namespace Installer.Markup

/-- A word bound to a namespace; the empty word is the one of the default namespace. A word that is
bound to the empty text is not bound. -/
structure Binding where
  word : List Char
  space : List Char
  deriving DecidableEq, Repr

/-- The bindings in force, the nearest first. -/
abbrev Bindings := List Binding

/-- The bindings that hold everywhere. -/
def Bindings.standard : Bindings :=
  [⟨"xmlns".toList, xmlnsNamespace.toList⟩, ⟨"xml".toList, xmlNamespace.toList⟩]

/-- The namespace that a word is bound to. -/
def Bindings.find? (bindings : Bindings) (word : List Char) : Option String :=
  match List.find? (·.word == word) bindings with
  | some binding => if binding.space.isEmpty then none else some (String.ofList binding.space)
  | none => none

/-- The part of a name in front of the first colon, if there is one. -/
def nameWord? (name : List Char) : Option (List Char) :=
  if name.contains ':' then some (name.takeWhile (· != ':')) else none

/-- The part of a name after the first colon, or all of it. -/
def localPart (name : List Char) : List Char :=
  if name.contains ':' then (name.dropWhile (· != ':')).drop 1 else name

/-- The namespace of a name with a word in front. No name is in the namespace of the empty word. -/
def Bindings.resolveWord? (bindings : Bindings) (word : List Char) : Option String :=
  if word.isEmpty then none else bindings.find? word

/-- The name of an element. -/
def Bindings.elementName (bindings : Bindings) (name : List Char) : QName where
  space :=
    match nameWord? name with
    | some word => bindings.resolveWord? word
    | none => bindings.find? []
  name := String.ofList (localPart name)

/-- The name of an attribute. -/
def Bindings.attributeName (bindings : Bindings) (name : List Char) : QName where
  space := (nameWord? name).bind bindings.resolveWord?
  name := String.ofList (localPart name)

/-- The word that an attribute binds to a namespace, if it does. -/
def boundWord? (key : List Char) : Option (List Char) :=
  if key = "xmlns".toList then some []
  else if "xmlns:".toList.isPrefixOf key then some (key.drop 6)
  else none

/-- Whether an attribute binds a word to a namespace. -/
def bindsWord (key : List Char) : Bool := (boundWord? key).isSome

/-- The bytes of a text. -/
def bytesOf (cs : List Char) : List UInt8 := cs.flatMap String.utf8EncodeChar

/-- Add the binding that an attribute makes. -/
def Bindings.add (bindings : Bindings) (a : RawAttribute) : Except Fault Bindings :=
  if a.key = "xmlns".toList then .ok (⟨[], a.value⟩ :: bindings)
  else
    match boundWord? a.key with
    | none => .ok bindings
    | some word =>
      if word = "xml".toList then
        if a.value = xmlNamespace.toList then .ok bindings else .error (.xmlRebound (bytesOf a.value))
      else if word = "xmlns".toList then .error (.xmlnsRebound (bytesOf a.value))
      else if a.value = xmlNamespace.toList then .error (.boundToXml (bytesOf word))
      else if a.value = xmlnsNamespace.toList then .error (.boundToXmlns (bytesOf word))
      else .ok (⟨word, a.value⟩ :: bindings)

/-- The bindings inside of a tag. -/
def Bindings.enter (bindings : Bindings) (content : List Char) : Except Fault Bindings :=
  (repeatedAttributes content).foldlM Bindings.add bindings

end Installer.Markup
