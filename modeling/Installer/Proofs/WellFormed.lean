import Installer.Proofs.Checked

/-! # Well-formed symbols

A symbol is well-formed if its identifier does not stand in for another one (`Symbol.Data.Named`) and
what it holds lies in the domains of the attributes it comes from (`Symbol.Data.InDomain`). Rules go on
with something made up where an attribute is missing or wrong, but they report that as an error: if
the steps of an opening are clean, everything that it defines is well-formed (`Careful`). Two things
are handed on from one element to another and have to be sound for that (`Scope.Sound`): the entry that
a package is detected by, and the key that registry elements are below. -/

namespace Installer

open Compile Planned Element

namespace Symbol

/-- The entry by which an executable package is detected has an identifier and a version. -/
def Detection.InDomain : Detection → Prop
  | .entry id version _ => Text.HasInk id ∧ Version.IsAuthored version
  | .condition _ | .none => True

def PackageDetails.InDomain : PackageDetails → Prop
  | .exe _ _ _ detection => detection.InDomain
  | .msi .. | .msp _ | .msu _ | .bundle _ => True

/-- A number of 32 bits, maybe behind a number sign. -/
def IsRegistryNumber (s : String) : Prop :=
  ∃ (n : Int) (digits : List Char), -2147483648 ≤ n ∧ n ≤ 2147483647 ∧ Text.signed? digits = some n ∧
    (s.toList = digits ∨ s.toList = '#' :: digits)

/-- **What is defined lies in the domains** of the attributes that it is read from. -/
def Data.InDomain : Data → Prop
  | .bundle b => Version.IsAuthored b.version ∧ ∀ code ∈ b.upgradeCode, Guid.IsNormal code
  | .relatedBundle b => Guid.IsNormal b.code
  | .bundleUpdate u => Text.HasInk u.location
  | .package p => p.details.InDomain
  | .payload p => (∀ n ∈ p.size, 0 ≤ n) ∧ ∀ v ∈ p.version, Version.IsAuthored v
  | .msiProperty p => Text.HasInk p.name
  | .slipstreamMsp s => Identifier.IsName s.mspPackage
  | .exitCode c => ∀ n ∈ c.code, -2147483648 ≤ n ∧ n ≤ 2147483647
  | .dependencyProvider p => Text.HasInk p.key
  | .packageSummary p =>
    Text.HasInk p.name ∧ Text.HasInk p.manufacturer ∧ Version.IsAuthored p.version ∧
      CodePage.InRange p.language ∧ (∀ n ∈ p.codepage, CodePage.InRange n) ∧
      (∀ code ∈ p.upgradeCode, Guid.IsNormal code) ∧
      (p.productCode = "*" ∨ Guid.IsNormal p.productCode) ∧ 0 ≤ p.installerVersion
  | .moduleSignature m =>
    CodePage.InRange m.language ∧ Version.IsAuthored m.version ∧
      (∀ n ∈ m.codepage, CodePage.InRange n) ∧ ∀ guid ∈ m.guid, Guid.IsNormal guid
  | .patchProperty p => Text.HasInk p.name
  | .component c =>
    (∀ guid ∈ c.guid, guid = "*" ∨ Guid.IsNormal guid) ∧
      ∃ d, c.directory = some d ∧ Identifier.IsName d
  | .registry r =>
    Text.HasInk r.key ∧ (r.valueType = .integer → ∀ v ∈ r.value, IsRegistryNumber v)
  | .customAction a => ∀ s ∈ a.source, Identifier.IsName s
  | .action a => Identifier.IsName a.action ∧ (∀ other ∈ a.before, Identifier.IsName other) ∧
      ∀ other ∈ a.after, Identifier.IsName other
  | .suppressAction a => Identifier.IsName a.action
  | .chain _ | .bootstrapperApplication _ | .bundleLog _ | .container _ | .packageGroup
  | .rollbackBoundary _ | .payloadGroup | .variableValue _ | .patch _ | .property _
  | .extensionData .. => True

/-- The identifier is a name that does not stand in for another one. A patch may be known by its code
instead. -/
def Data.Named (data : Data) (id : Identifier) : Prop :=
  id.access ≠ .invalid ∧
    (Identifier.IsName id.id ∨ (∃ p, data = .patch p) ∧ Guid.IsNormal id.id)

theorem Data.named_of_proper {data : Data} {id : Identifier} (h : id.Proper) : data.Named id :=
  ⟨h.1, .inl h.2⟩

end Symbol

/-- **A well-formed symbol.** -/
structure Symbol.WellFormed (s : Symbol) : Prop where
  named : s.data.Named s.id
  inDomain : s.data.InDomain

namespace Step

/-- A step that defines nothing that is not well-formed. -/
def WellFormed (s : Step) : Prop := ∀ id data, s = .emit id data → data.Named id ∧ data.InDomain

@[simp] theorem wellFormed_emit {id : Identifier} {data : Symbol.Data} :
    (Step.emit id data).WellFormed ↔ data.Named id ∧ data.InDomain := by
  simp [WellFormed]

@[simp] theorem wellFormed_report (d : Diagnostic) : (Step.report d).WellFormed := by
  simp [WellFormed]

@[simp] theorem wellFormed_openUnit (u : UnitHeader) : (Step.openUnit u).WellFormed := by
  simp [WellFormed]

@[simp] theorem wellFormed_closeUnit : Step.closeUnit.WellFormed := by simp [WellFormed]

@[simp] theorem wellFormed_refer (r : SymbolReference) : (Step.refer r).WellFormed := by
  simp [WellFormed]

@[simp] theorem wellFormed_group (r : GroupReference) : (Step.group r).WellFormed := by
  simp [WellFormed]

@[simp] theorem wellFormed_offer (node : Offer) (context : Context) :
    (Step.offer node context).WellFormed := by
  simp [WellFormed]

@[simp] theorem wellFormed_halt (h : Halt) : (Step.halt h).WellFormed := by simp [WellFormed]

end Step

/-- What is handed on to the children of an element is in its domain. -/
def Parent.Sound : Parent → Prop
  | .package _ entry => ∀ found ∈ entry, (∃ id, found.id = some id ∧ Text.HasInk id) ∧
      ∃ version, found.version = some version ∧ Version.IsAuthored version
  | .registryKey _ _ key => ∃ k, key = some k ∧ Text.HasInk k
  | .plain | .container | .component _ | .sequence _ => True

def Scope.Sound (scope : Scope) : Prop := scope.parent.Sound

/-- An opening that defines only what is well-formed and hands on only what is sound. -/
structure Careful (o : Planned Opening) : Prop where
  log : o.All Step.WellFormed
  outer : o.value.outer.Sound
  body : ∀ body, o.value.body = some body → body.scope.Sound ∧
    ∀ inner : Scope, inner.Sound → ∀ s ∈ body.close inner, s.WellFormed

section Careful
variable {scope : Scope}

attribute [local simp] Scope.Sound Parent.Sound Symbol.Data.InDomain

theorem careful_halt (hs : scope.Sound) (h : Halt) : Careful (halt scope h) :=
  ⟨by simp [halt, Logged.All], hs, by simp [halt]⟩

theorem careful_refuse (hs : scope.Sound) (d : Diagnostic) : Careful (refuse scope d) :=
  ⟨by simp, hs, by simp⟩

/-! ### Identifiers -/

@[simp] theorem wellFormed_requiredId (e : Element) : (requiredId e).All Step.WellFormed := by
  unfold requiredId
  split <;> simp

theorem proper_requiredId {e : Element} {checks : List (String × Check)}
    (hp : e.PassesAt checks "Id") (hc : Reads checks Field.id) (h : (requiredId e).All Step.Clean) :
    (requiredId e).value.Proper := by
  unfold requiredId at h ⊢
  split at h
  · next id hid => simpa [hid] using hp.proper hc hid
  · simp at h

end Careful

end Installer
