import Installer.Intermediate
import Installer.Proofs.JsonText

/-! # The text that is handed to the linker

The JSON text of an intermediate tells everything that is in it: intermediates with the same text
have the same sections, symbols, references and group references
(`Intermediate.json_eq_iff_parts`). The types of the fields are gone through from the inside out:
`Told` are those whose values are known by their JSON values, and `Solid` those that have no value
that is written as null, so that a field of such a type may also be unset. -/

namespace Installer

/-- Types whose values are known by their JSON values. -/
class Told (α : Type) [ToJson α] : Prop where
  toJson_injective : Function.Injective (toJson : α → Json)

/-- Types whose values are known by their JSON values, none of which is null. -/
class Solid (α : Type) [ToJson α] : Prop where
  toJson_injective : Function.Injective (toJson : α → Json)
  toJson_ne_null : ∀ a : α, toJson a ≠ .null

instance {α : Type} [ToJson α] [Solid α] : Told α := ⟨Solid.toJson_injective⟩

@[simp] theorem toJson_inj {α : Type} [ToJson α] [Told α] {a b : α} :
    toJson a = toJson b ↔ a = b :=
  Told.toJson_injective.eq_iff

/-! ### Values of one word or number -/

instance : Solid String := ⟨fun _ _ => Json.text.inj, fun _ => Json.noConfusion⟩

instance : Solid Bool := ⟨fun _ _ => Json.bool.inj, fun _ => Json.noConfusion⟩

instance : Solid Int := ⟨fun _ _ => Json.number.inj, fun _ => Json.noConfusion⟩

instance : Solid Nat := ⟨fun _ _ h => Int.ofNat.inj (Json.number.inj h), fun _ => Json.noConfusion⟩

instance : Solid UInt32 :=
  ⟨fun _ _ h => UInt32.toNat.inj (Int.ofNat.inj (Json.number.inj h)), fun _ => Json.noConfusion⟩

/-- An unset field is not a set one, and in particular not one that is set to the empty text. -/
instance {α : Type} [ToJson α] [Solid α] : Told (Option α) where
  toJson_injective a b h := by
    cases a with
    | none =>
      cases b with
      | none => rfl
      | some b => exact absurd h.symm (Solid.toJson_ne_null b)
    | some a =>
      cases b with
      | none => exact absurd h (Solid.toJson_ne_null a)
      | some b => exact congrArg some (Solid.toJson_injective h)

instance {α : Type} [ToJson α] [Told α] : Solid (List α) :=
  ⟨fun _ _ h => Told.toJson_injective.list_map (Json.list.inj h), fun _ => Json.noConfusion⟩

/-! ### Choices and kinds -/

/-- Types whose values are written as their names, all of which are different. -/
theorem Solid.of_name {α : Type} [ToJson α] (name : α → String)
    (h : ∀ a, toJson a = .text (name a)) (hname : Function.Injective name) : Solid α where
  toJson_injective a b hab := hname (Json.text.inj (by rw [← h, ← h, hab]))
  toJson_ne_null a := by rw [h]; exact Json.noConfusion

/-- Choices are written as their keywords. -/
theorem Solid.of_keyword {α : Type} [Choice α]
    (h : Function.Injective (Choice.keyword : α → String)) : Solid α :=
  .of_name Choice.keyword (fun _ => rfl) h

namespace Symbol

instance : Solid DisableModify := .of_keyword (by rintro ⟨⟩ ⟨⟩ <;> decide)

instance : Solid RelatedAction := .of_keyword (by rintro ⟨⟩ ⟨⟩ <;> decide)

instance : Solid ContainerType := .of_keyword (by rintro ⟨⟩ ⟨⟩ <;> decide)

instance : Solid VariableType := .of_keyword (by rintro ⟨⟩ ⟨⟩ <;> decide)

instance : Solid CacheType := .of_keyword (by rintro ⟨⟩ ⟨⟩ <;> decide)

instance : Solid YesNoDefault := .of_keyword (by rintro ⟨⟩ ⟨⟩ <;> decide)

instance : Solid ExeProtocol := .of_keyword (by rintro ⟨⟩ ⟨⟩ <;> decide)

instance : Solid ExitCodeBehavior := .of_keyword (by rintro ⟨⟩ ⟨⟩ <;> decide)

instance : Solid InstallScope := .of_keyword (by rintro ⟨⟩ ⟨⟩ <;> decide)

instance : Solid Bitness := .of_keyword (by rintro ⟨⟩ ⟨⟩ <;> decide)

instance : Solid RegistryRoot := .of_keyword (by rintro ⟨⟩ ⟨⟩ <;> decide)

instance : Solid RegistryValueType := .of_keyword (by rintro ⟨⟩ ⟨⟩ <;> decide)

instance : Solid ActionTarget := .of_keyword (by rintro ⟨⟩ ⟨⟩ <;> decide)

instance : Solid ExecuteType := .of_keyword (by rintro ⟨⟩ ⟨⟩ <;> decide)

instance : Solid ReturnType := .of_keyword (by rintro ⟨⟩ ⟨⟩ <;> decide)

instance : Solid PackageKind :=
  .of_name PackageKind.name (fun _ => rfl) (by rintro ⟨⟩ ⟨⟩ <;> decide)

instance : Solid SequenceTable :=
  .of_name SequenceTable.name (fun _ => rfl) (by rintro ⟨⟨⟩, ⟨⟩⟩ ⟨⟨⟩, ⟨⟩⟩ <;> decide)

instance : Solid ActionSource where
  toJson_injective := by rintro ⟨⟩ ⟨⟩ h <;> simp_all [toJson]
  toJson_ne_null := by rintro ⟨⟩ <;> exact Json.noConfusion

end Symbol

instance : Solid SectionKind :=
  .of_name SectionKind.name (fun _ => rfl) (by rintro ⟨⟩ ⟨⟩ <;> decide)

instance : Solid GroupKind :=
  .of_name GroupKind.name (fun _ => rfl) (by rintro ⟨⟩ ⟨⟩ <;> decide)

instance : Solid MemberKind :=
  .of_name MemberKind.name (fun _ => rfl) (by rintro ⟨⟩ ⟨⟩ <;> decide)

theorem SymbolKind.name_injective : Function.Injective SymbolKind.name := by
  have hof : ∀ kind, ofName? kind.name = some kind := by rintro ⟨⟩ <;> decide
  intro a b h
  exact Option.some.inj (by rw [← hof a, ← hof b, h])

instance : Solid SymbolKind := .of_name SymbolKind.name (fun _ => rfl) SymbolKind.name_injective

/-! ### Records

A record is known by its members, since their names and their order are the same for all records of
a type. -/

namespace Symbol

instance : Told Detection where
  toJson_injective := by
    rintro ⟨⟩ ⟨⟩ h <;> have hmembers := Json.record.inj h <;> simp_all

@[simp] theorem Arguments.members_inj {a b : Arguments} : a.members = b.members ↔ a = b := by
  cases a; cases b; simp [members]

@[simp] theorem Arguments.members_append_inj {a b : Arguments} {l l' : List (String × Json)} :
    a.members ++ l = b.members ++ l' ↔ a = b ∧ l = l' := by
  cases a; cases b; simp [members, and_assoc]

instance : Told PackageDetails where
  toJson_injective := by rintro ⟨⟩ ⟨⟩ h <;> simpa using Json.record.inj h

@[simp] theorem Bundle.members_inj {a b : Bundle} : a.members = b.members ↔ a = b := by
  cases a; cases b; simp [members]

@[simp] theorem Chain.members_inj {a b : Chain} : a.members = b.members ↔ a = b := by
  cases a; cases b; simp [members]

@[simp] theorem BootstrapperApplication.members_inj {a b : BootstrapperApplication} :
    a.members = b.members ↔ a = b := by
  cases a; cases b; simp [members]

@[simp] theorem RelatedBundle.members_inj {a b : RelatedBundle} :
    a.members = b.members ↔ a = b := by
  cases a; cases b; simp [members]

@[simp] theorem Log.members_inj {a b : Log} : a.members = b.members ↔ a = b := by
  cases a; cases b; simp [members]

@[simp] theorem Update.members_inj {a b : Update} : a.members = b.members ↔ a = b := by
  cases a; cases b; simp [members]

@[simp] theorem Container.members_inj {a b : Container} : a.members = b.members ↔ a = b := by
  cases a; cases b; simp [members]

@[simp] theorem RollbackBoundary.members_inj {a b : RollbackBoundary} :
    a.members = b.members ↔ a = b := by
  cases a; cases b; simp [members]

@[simp] theorem Package.members_inj {a b : Package} : a.members = b.members ↔ a = b := by
  cases a; cases b; simp [members]

@[simp] theorem Payload.members_inj {a b : Payload} : a.members = b.members ↔ a = b := by
  cases a; cases b; simp [members]

@[simp] theorem MsiProperty.members_inj {a b : MsiProperty} : a.members = b.members ↔ a = b := by
  cases a; cases b; simp [members]

@[simp] theorem SlipstreamMsp.members_inj {a b : SlipstreamMsp} :
    a.members = b.members ↔ a = b := by
  cases a; cases b; simp [members]

@[simp] theorem ExitCode.members_inj {a b : ExitCode} : a.members = b.members ↔ a = b := by
  cases a; cases b; simp [members]

@[simp] theorem Variable.members_inj {a b : Variable} : a.members = b.members ↔ a = b := by
  cases a; cases b; simp [members]

@[simp] theorem DependencyProvider.members_inj {a b : DependencyProvider} :
    a.members = b.members ↔ a = b := by
  cases a; cases b; simp [members]

@[simp] theorem PackageSummary.members_inj {a b : PackageSummary} :
    a.members = b.members ↔ a = b := by
  cases a; cases b; simp [members]

@[simp] theorem ModuleSignature.members_inj {a b : ModuleSignature} :
    a.members = b.members ↔ a = b := by
  cases a; cases b; simp [members]

@[simp] theorem Patch.members_inj {a b : Patch} : a.members = b.members ↔ a = b := by
  cases a; cases b; simp [members]

@[simp] theorem PatchProperty.members_inj {a b : PatchProperty} :
    a.members = b.members ↔ a = b := by
  cases a; cases b; simp [members]

@[simp] theorem Property.members_inj {a b : Property} : a.members = b.members ↔ a = b := by
  cases a; cases b; simp [members]

@[simp] theorem Component.members_inj {a b : Component} : a.members = b.members ↔ a = b := by
  cases a; cases b; simp [members]

@[simp] theorem Registry.members_inj {a b : Registry} : a.members = b.members ↔ a = b := by
  cases a; cases b; simp [members]

@[simp] theorem CustomAction.members_inj {a b : CustomAction} : a.members = b.members ↔ a = b := by
  cases a; cases b; simp [members]

@[simp] theorem Action.members_inj {a b : Action} : a.members = b.members ↔ a = b := by
  cases a; cases b; simp [members]

@[simp] theorem SuppressAction.members_inj {a b : SuppressAction} :
    a.members = b.members ↔ a = b := by
  cases a; cases b; simp [members]

/-- The fields that an extension chose are written under their names. -/
theorem Fields.record_inj {a b : Fields}
    (h : a.toList.map (fun f => (f.1, toJson f.2)) = b.toList.map (fun f => (f.1, toJson f.2))) :
    a = b := by
  have hpair : Function.Injective fun f : String × String => (f.1, (toJson f.2 : Json)) := by
    intro f g hfg
    obtain ⟨hname, hvalue⟩ := Prod.mk.inj hfg
    exact Prod.ext hname (toJson_inj.mp hvalue)
  obtain ⟨as, ha⟩ := a
  obtain ⟨bs, hb⟩ := b
  obtain rfl : as = bs := hpair.list_map h
  rfl

/-- Definitions of one kind are known by their members. -/
theorem Data.eq_of_members_eq {a b : Data} (hkind : a.kind = b.kind) (h : a.members = b.members) :
    a = b := by
  cases a <;> cases b <;> cases hkind
  case packageGroup.packageGroup.refl => rfl
  case payloadGroup.payloadGroup.refl => rfl
  case extensionData.extensionData.refl =>
    simp only [members, List.cons.injEq, Prod.mk.injEq, toJson_inj, true_and, Json.record.injEq,
      and_true] at h
    rw [h.1, Fields.record_inj h.2]
  all_goals simpa [members] using h

instance : Told Data where
  toJson_injective a b h := by
    obtain ⟨hkind, hmembers⟩ := List.cons.inj (Json.record.inj h)
    exact Data.eq_of_members_eq (toJson_inj.mp (Prod.mk.inj hkind).2) hmembers

end Symbol

theorem Access.keyword_injective : Function.Injective Access.keyword := by
  rintro ⟨⟩ ⟨⟩ <;> decide

instance : Told Identifier where
  toJson_injective := by
    rintro ⟨access, id⟩ ⟨access', id'⟩ h
    simpa [Access.keyword_injective.eq_iff] using Json.record.inj h

instance : Told Symbol where
  toJson_injective := by
    rintro ⟨id, index, data⟩ ⟨id', index', data'⟩ h
    simpa using Json.record.inj h

instance : Told Section where
  toJson_injective := by
    rintro ⟨id, kind, compilation⟩ ⟨id', kind', compilation'⟩ h
    simpa using Json.record.inj h

instance : Told SymbolReference where
  toJson_injective := by
    rintro ⟨kind, id⟩ ⟨kind', id'⟩ h
    simpa using Json.record.inj h

instance : Told GroupReference where
  toJson_injective := by
    rintro ⟨⟨kind, id⟩, ⟨childKind, childId⟩, _ | ⟨previousKind, previousId⟩⟩
      ⟨⟨kind', id'⟩, ⟨childKind', childId'⟩, _ | ⟨previousKind', previousId'⟩⟩ h <;>
      simpa [and_assoc] using Json.record.inj h

instance : Told Intermediate where
  toJson_injective := by
    rintro ⟨sections, symbols, references, groups⟩ ⟨sections', symbols', references', groups'⟩ h
    simpa using Json.record.inj h

/-- **The text tells the intermediate.** Intermediates have the same JSON text if and only if they
have the same sections, the same symbols with all that these define, the same references and the
same group references. -/
theorem Intermediate.json_eq_iff_parts (a b : Intermediate) :
    a.json = b.json ↔
      a.sections = b.sections ∧ a.symbols = b.symbols ∧ a.references = b.references ∧
        a.groups = b.groups := by
  rw [json, json, Json.render_injective.eq_iff, toJson_inj]
  cases a
  cases b
  simp

end Installer
