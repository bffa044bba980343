import Installer.Compile.Rule.PayloadSource
import Mathlib.Tactic.Common

/-! # What is gathered about a payload

The attributes that describe a payload are taken one by one. Each of them has a field, so that gathering
never gives up, and in the end each field has the value of the last attribute of its name
(`PayloadFields.gather_eq`). Which attributes were there is kept apart from which of them could be
read. -/

namespace Installer

open Compile

namespace Compile

/-! ### Taking attributes -/

/-- The last one of some attributes that has the given name. -/
def lastNamed? (l : List Attribute) (name : String) : Option Attribute :=
  (l.filter ([name].contains ·.name)).getLast?

/-- The value of a field if some attributes were read. -/
def lastValue? {α : Type} (e : Element) (l : List Attribute) (f : Field α) : Option α :=
  (lastNamed? l f.name).bind fun a => (f.read e a).value

namespace PayloadFields

/-- What is known after some attributes: each field has the value of the last one of its name. -/
def ofList (e : Element) (l : List Attribute) : PayloadFields where
  id := (lastNamed? l "Id").map fun a => (Reader.identifier.orInvalid e a).value
  values := {
    name := lastValue? e l (.relativePath "Name")
    sourceFile := lastValue? e l (.text "SourceFile")
    downloadUrl := lastValue? e l (.text "DownloadUrl")
    compressed := lastValue? e l (.yesNo "Compressed")
    hash := lastValue? e l (.text "Hash")
    size := lastValue? e l sizeField
    certificatePublicKey := lastValue? e l (.text "CertificatePublicKey")
    certificateThumbprint := lastValue? e l (.text "CertificateThumbprint")
    description := lastValue? e l (.text "Description")
    productName := lastValue? e l (.text "ProductName")
    version := lastValue? e l (.version "Version") }
  seen := l.map (·.name)

/-- There is a field for each attribute that describes a payload. -/
theorem isSome_take {e : Element} {fields : PayloadFields} {a : Attribute}
    (h : a.name ∈ PayloadForm.own.names) : (fields.take e a).isSome := by
  simp only [PayloadForm.names, sourceNames, remoteNames, List.cons_append, List.nil_append,
    List.mem_cons, List.not_mem_nil, or_false] at h
  rcases h with h | h | h | h | h | h | h | h | h | h | h | h <;> simp [take, h]

/-- **One attribute.** There is a field for it, and no other field changes. -/
theorem take_ofList {e : Element} {l : List Attribute} {a : Attribute}
    (h : a.name ∈ PayloadForm.own.names) : (ofList e l).take e a = some (ofList e (l ++ [a])) := by
  simp only [PayloadForm.names, sourceNames, remoteNames, List.cons_append, List.nil_append,
    List.mem_cons, List.not_mem_nil, or_false] at h
  rcases h with h | h | h | h | h | h | h | h | h | h | h | h <;>
    simp [take, h, ofList, lastValue?, lastNamed?, List.filter_append, Field.relativePath, Field.text,
      Field.yesNo, Field.version, sizeField, Field.long]

theorem foldlM_take (e : Element) (before : List Attribute) {l : List Attribute}
    (h : ∀ a ∈ l, a.name ∈ PayloadForm.own.names) :
    l.foldlM (take · e) (ofList e before) = some (ofList e (before ++ l)) := by
  induction l generalizing before with
  | nil => simp
  | cons a l ih =>
    rw [List.foldlM_cons, take_ofList (h a (by simp)), Option.bind_eq_bind, Option.bind_some,
      ih (before ++ [a]) fun a' ha' => h a' (by simp [ha'])]
    simp

end PayloadFields

end Compile

/-! ### What an element says -/

/-- What the attributes of an element say about a payload that is described in the given form. -/
def Element.payloadFields (e : Element) (form : PayloadForm) : PayloadFields where
  id := if form.names.contains "Id" then e.identifier? .id else none
  values := {
    name := e.valueIn? form.names (.relativePath "Name")
    sourceFile := e.valueIn? form.names (.text "SourceFile")
    downloadUrl := e.valueIn? form.names (.text "DownloadUrl")
    compressed := e.valueIn? form.names (.yesNo "Compressed")
    hash := e.valueIn? form.names (.text "Hash")
    size := e.valueIn? form.names sizeField
    certificatePublicKey := e.valueIn? form.names (.text "CertificatePublicKey")
    certificateThumbprint := e.valueIn? form.names (.text "CertificateThumbprint")
    description := e.valueIn? form.names (.text "Description")
    productName := e.valueIn? form.names (.text "ProductName")
    version := e.valueIn? form.names (.version "Version") }
  seen := (e.coreAttributes.filter (form.names.contains ·.name)).map (·.name)

section
variable {e : Element} {names : List String}

theorem Element.valueIn?_eq {α : Type} {f : Field α} (h : f.name ∈ names) :
    e.valueIn? names f = e.value? f :=
  if_pos (List.contains_iff_mem.mpr h)

theorem Element.valueIn?_eq_none {α : Type} {f : Field α} (h : f.name ∉ names) :
    e.valueIn? names f = none :=
  if_neg fun hc => h (List.contains_iff_mem.mp hc)

theorem Element.value?_of_valueIn? {α : Type} {f : Field α} {v : α}
    (h : e.valueIn? names f = some v) : e.value? f = some v := by
  unfold Element.valueIn? at h
  split_ifs at h
  exact h

theorem Compile.lastNamed?_filter (e : Element) (names : List String) (name : String) :
    lastNamed? (e.coreAttributes.filter (names.contains ·.name)) name =
      if names.contains name then e.last? [name] else none := by
  rw [lastNamed?, List.filter_filter, Element.last?]
  split_ifs with h
  · congr 1
    refine List.filter_congr fun a _ => ?_
    by_cases hn : a.name = name <;> simp_all
  · rw [List.filter_eq_nil_iff.mpr]
    · rfl
    · intro a _ ha
      obtain ⟨rfl, hmem⟩ : a.name = name ∧ a.name ∈ names := by simpa using ha
      exact h (List.contains_iff_mem.mpr hmem)

theorem Compile.lastValue?_filter {α : Type} (e : Element) (names : List String) (f : Field α) :
    lastValue? e (e.coreAttributes.filter (names.contains ·.name)) f = e.valueIn? names f := by
  rw [lastValue?, lastNamed?_filter, Element.valueIn?, Element.value?]
  split_ifs <;> rfl

end

namespace Compile

theorem PayloadForm.names_subset (form : PayloadForm) : form.names ⊆ PayloadForm.own.names := by
  cases form with
  | own => exact List.Subset.refl _
  | typed kind => cases kind <;> decide
  | inline => decide

namespace PayloadFields

/-- **Gathering** gives each field the value of the last attribute of its name, and never gives up. -/
@[simp] theorem gather_eq (e : Element) (form : PayloadForm) :
    gather e form = pure (e.payloadFields form) := by
  have hfold := foldlM_take e [] (l := e.coreAttributes.filter (form.names.contains ·.name))
    fun a ha => form.names_subset (by simpa using (List.mem_filter.mp ha).2)
  have hfields : ofList e (e.coreAttributes.filter (form.names.contains ·.name)) =
      e.payloadFields form := by
    simp only [ofList, Element.payloadFields, lastValue?_filter, lastNamed?_filter]
    split_ifs <;> rfl
  rw [List.nil_append, hfields] at hfold
  rw [gather, show ({} : PayloadFields) = ofList e [] from rfl, hfold]

end PayloadFields

end Compile

namespace Element

variable {e : Element} {form : PayloadForm}

@[simp] theorem id_payloadFields_own : (e.payloadFields .own).id = e.identifier? .id := rfl

@[simp] theorem id_payloadFields_typed (kind : Symbol.PackageKind) :
    (e.payloadFields (.typed kind)).id = e.identifier? .id := rfl

theorem mem_seen_payloadFields {name : String} : name ∈ (e.payloadFields form).seen ↔
    name ∈ form.names ∧ e.has name := by
  simp only [payloadFields, List.mem_map, List.mem_filter, List.contains_iff_mem, has, attribute?,
    List.isSome_find?, List.any_eq_true, beq_iff_eq]
  constructor
  · rintro ⟨a, ⟨ha, hn⟩, rfl⟩
    exact ⟨hn, a, ha, rfl⟩
  · rintro ⟨hn, a, ha, rfl⟩
    exact ⟨a, ⟨ha, hn⟩, rfl⟩

theorem saw_payloadFields {name : String} (h : name ∈ form.names) :
    (e.payloadFields form).saw name = e.has name := by
  rw [PayloadFields.saw, Bool.eq_iff_iff, List.contains_iff_mem, mem_seen_payloadFields]
  exact and_iff_right h

end Element

end Installer
