import Installer.Proofs.PackageSymbols
import Installer.Proofs.WellFormed.Units

/-! # Packages by kind

One rule reads the packages of all kinds. What it defines suits the kind of the package
(`Symbol.Package.SuitsKind`), whatever attributes and children the element has, as long as nothing is wrong
with it; the scope and the visibility that are authored are kept, and only packages of some kinds have
them; and an executable package is left without a way to detect or to remove it only if it is never
removed (`Symbol.Detection.Justified`). -/

namespace Installer

open Compile Planned Element

namespace Symbol

/-- The kind of package that details belong to. -/
def PackageDetails.kind : PackageDetails → PackageKind
  | msi .. => .msi
  | msp _ => .msp
  | msu _ => .msu
  | exe .. => .exe
  | bundle _ => .bundle

/-- A package has the details, the scope and the visibility of its kind. -/
structure Package.SuitsKind (p : Package) : Prop where
  details : p.details.kind = p.kind
  perMachine_of_msi : p.kind = .msi → p.perMachine = none
  perMachine_of_msu : p.kind = .msu → p.perMachine = some .yes
  perMachine_isSome : p.kind = .exe ∨ p.kind = .msp → p.perMachine.isSome
  visible_eq_none : p.kind = .msp ∨ p.kind = .msu ∨ p.kind = .exe → p.visible = none
  visible_isSome : p.kind = .msi ∨ p.kind = .bundle → p.permanent → p.visible.isSome

/-- How an executable package may be detected: by an entry of the installed programs if its element has no
condition, by a condition if there is a way to remove the package or it is never removed, and not at all only
if it is never removed. -/
def Detection.Justified (e : Element) (arguments : Arguments) (permanent : Bool) : Detection → Prop
  | entry id version _ => Text.HasInk id ∧ Version.IsAuthored version ∧ ¬ e.has "DetectCondition"
  | condition c => Text.HasInk c ∧ (arguments.uninstall.isSome ∨ permanent)
  | none => permanent

end Symbol

theorem kind_detailsOf (e : Element) (entry : Option ArpEntry) (kind : Symbol.PackageKind) :
    (detailsOf e entry kind).2.kind = kind := by
  cases kind <;> rfl

/-- The permanent ones among the packages that may be hidden are visible. -/
theorem isSome_visibleOf {e : Element} {kind : Symbol.PackageKind} (hk : kind = .msi ∨ kind = .bundle)
    (hp : isPermanent e) : (visibleOf e kind).isSome := by
  rcases hk with rfl | rfl <;> simp [visibleOf, hp]

/-- The way a package is detected is justified unless there is an error. -/
theorem justified_detectionOf {e : Element} {checks : List (String × Check)} (hp : e.Passes checks)
    (hc : Reads checks (Field.text "DetectCondition")) {entry : Option ArpEntry}
    (h : ∀ d ∈ (detectionOf e entry).1, d.isError = false)
    (hdomain : (detectionOf e entry).2.InDomain) :
    (detectionOf e entry).2.Justified e (argumentsOf e) (isPermanent e) := by
  cases entry with
  | some entry =>
    cases hv : e.value? (.text "DetectCondition") with
    | some condition => simp [detectionOf, hv] at h
    | none =>
      simp only [detectionOf, hv] at hdomain ⊢
      refine ⟨hdomain.1, hdomain.2, fun hhas => ?_⟩
      obtain ⟨condition, hcondition, -⟩ := hp.exists_value? hc (Field.of_text _) hhas
      rw [hv] at hcondition
      cases hcondition
  | none =>
    cases hv : e.value? (.text "DetectCondition") with
    | some condition =>
      simp only [detectionOf, hv] at h ⊢
      refine ⟨domain_of_value? (Field.of_text _) hv, ?_⟩
      by_contra hnot
      obtain ⟨huninstall, hpermanent⟩ := not_or.mp hnot
      rw [if_pos (by simp_all)] at h
      simp at h
    | none =>
      simp only [detectionOf, hv] at h ⊢
      by_contra hnot
      rw [if_neg (show ¬ isPermanent e from hnot)] at h
      simp at h

section
variable {config : Config} {kind : Symbol.PackageKind} {entry : Option ArpEntry} {site : Site}
  {package : Symbol.Package}

/-- The scope that is authored is that of the package, and only some kinds of packages have one. -/
theorem Packs.perMachine_authored (h : Packs config kind entry site package)
    (hhas : site.element.has "PerMachine") : (kind = .exe ∨ kind = .msp ∨ kind = .bundle) ∧
      ∃ scope, site.element.value? (.choice Symbol.YesNoDefault "PerMachine") = some scope ∧
        package.perMachine = some scope := by
  have hknown := h.passes.known hhas
  rw [h.perMachine_eq]
  cases kind with
  | msi | msu => cases hknown
  | exe | msp | bundle =>
    obtain ⟨scope, hscope, -⟩ := h.passes.exists_value?
      (f := .choice Symbol.YesNoDefault "PerMachine") rfl (Field.of_choice _ _) hhas
    refine ⟨by simp, scope, hscope, ?_⟩
    simp only [perMachineOf]
    rw [valueIn?_eq (by decide)]
    simp [hscope]

/-- The same of the visibility. -/
theorem Packs.visible_authored (h : Packs config kind entry site package)
    (hhas : site.element.has "Visible") : (kind = .msi ∨ kind = .bundle) ∧
      ∃ visible, site.element.value? (.yesNo "Visible") = some visible ∧
        package.visible = some visible := by
  have hknown := h.passes.known hhas
  rw [h.visible_eq]
  cases kind with
  | exe | msp | msu => cases hknown
  | msi | bundle =>
    obtain ⟨visible, hvisible, -⟩ := h.passes.exists_value? (f := .yesNo "Visible") rfl
      (Field.of_yesNo _) hhas
    refine ⟨by simp, visible, hvisible, ?_⟩
    simp only [visibleOf]
    rw [valueIn?_eq (by decide), hvisible, Option.some_or]

theorem Packs.suitsKind (h : Packs config kind entry site package) : package.SuitsKind := by
  obtain rfl := h.kind_eq
  refine ⟨?_, fun hk => ?_, fun hk => ?_, fun hk => ?_, fun hk => ?_, fun hk hp => ?_⟩
  · rw [h.details_eq, kind_detailsOf]
  · rw [h.perMachine_eq, hk]
    exact valueIn?_eq_none (by decide)
  · rw [h.perMachine_eq, hk]
    rfl
  · rw [h.perMachine_eq]
    rcases hk with hk | hk <;> rw [hk] <;> rfl
  · rw [h.visible_eq]
    rcases hk with hk | hk | hk <;> rw [hk] <;> exact valueIn?_eq_none (by decide)
  · rw [h.visible_eq]
    exact isSome_visibleOf hk (h.permanent_eq ▸ hp)

end

/-- What the element of a package, the symbol before the package and the package have to do with each
other. -/
structure Site.Presents (s : Site) (payloadId : Identifier) (package : Symbol.Package) : Prop where
  kind : Symbol.PackageKind.ofElementName? s.element.name = some package.kind
  payload : package.payload = payloadId.id
  suits : package.SuitsKind
  perMachine : s.element.has "PerMachine" →
    (package.kind = .exe ∨ package.kind = .msp ∨ package.kind = .bundle) ∧
      ∃ scope, s.element.value? (.choice Symbol.YesNoDefault "PerMachine") = some scope ∧
        package.perMachine = some scope
  visible : s.element.has "Visible" → (package.kind = .msi ∨ package.kind = .bundle) ∧
    ∃ visible, s.element.value? (.yesNo "Visible") = some visible ∧ package.visible = some visible
  detection : ∀ arguments condition protocol detection,
    package.details = .exe arguments condition protocol detection →
      detection.Justified s.element arguments package.permanent

theorem Site.Packages.presents {config : Config} {s : Site} {payloadId : Identifier}
    {payload : Symbol.Payload} {package : Symbol.Package}
    (h : s.Packages config payloadId payload package) (hd : package.details.InDomain) :
    s.Presents payloadId package := by
  obtain ⟨kind, entry, hpacks, rfl, rfl⟩ := h
  refine ⟨hpacks.kind_eq ▸ hpacks.name, hpacks.payload_eq, hpacks.suitsKind,
    hpacks.kind_eq ▸ hpacks.perMachine_authored, hpacks.kind_eq ▸ hpacks.visible_authored, ?_⟩
  intro arguments condition protocol detection hdetails
  rw [hpacks.details_eq] at hd hdetails
  cases kind with
  | exe =>
    cases hdetails
    rw [hpacks.permanent_eq]
    exact justified_detectionOf hpacks.passes rfl hpacks.findings hd
  | _ => cases hdetails

/-- **Packages suit their kind.** In a compile that succeeds without extensions each package comes right
after its payload, it is what packages of its kind are, and the way in which an executable package is
detected is justified by its element. -/
theorem Compiler.packages_suit_kind {c : Compiler} (hc : c.extensions = []) {k : UInt32}
    {root : Element} {o : Output} (h : (c.compileAs k root).result = .ok o) (hs : o.isSuccess) :
    PackagesOf (fun site payloadId _ package => site.Presents payloadId package)
      (root.reached.filter Site.isPackage) (o.intermediate.symbols.map fun s => (s.id, s.data)) := by
  have hsmooth := smooth_of_isSuccess h hs
  have hwell := wellFormed_plan fun s hs => (hsmooth s hs).clean
  rw [(yields_of_isSuccess hc h hs).symbols]
  refine (packagesOf_plan hsmooth).imp fun _ _ id _ package hmem hpackages => ?_
  obtain ⟨s, hs, heq⟩ := List.mem_filterMap.mp hmem
  have hdomain : (Symbol.Data.package package).InDomain := by
    cases s with
    | emit => cases heq; exact (hwell _ hs _ _ rfl).2
    | _ => cases heq
  exact hpackages.presents hdomain

namespace Sample

/-- Packages of all kinds, and executable ones with all ways to be detected. -/
def mixedChain : Element :=
  element "Wix" [] [
    element "Bundle" [("Id", "B"), ("Version", "1.0")] [
      element "Chain" [] [
        element "MsiPackage" [("SourceFile", "a.msi"), ("Permanent", "yes")] [],
        element "MspPackage" [("SourceFile", "b.msp")] [],
        element "MsuPackage" [("SourceFile", "c.msu")] [],
        element "BundlePackage" [("SourceFile", "d.exe"), ("Visible", "no"), ("Permanent", "yes")] [],
        element "ExePackage" [("SourceFile", "e.exe"), ("Permanent", "yes")] [],
        element "ExePackage" [("SourceFile", "f.exe"), ("DetectCondition", "F"),
          ("UninstallCommand", "-u")] [],
        element "ExePackage" [("SourceFile", "g.exe")] [
          element "ArpEntry" [("Id", "{G}"), ("Version", "1.2")] []]]]]

end Sample

/-- Its packages come after their payloads. -/
theorem packages_suit_kind_mixedChain : ∃ o,
    (Compiler.compileAs {} 0 Sample.mixedChain).result = .ok o ∧ o.isSuccess ∧
      (o.intermediate.symbols.filterMap fun s => match s.data with
        | .package p => some (p.kind, p.visible, p.perMachine)
        | _ => none) = [
          (.msi, some true, none), (.msp, none, some .default), (.msu, none, some .yes),
          (.bundle, some false, none), (.exe, none, some .default), (.exe, none, some .default),
          (.exe, none, some .default)] ∧
      PackagesOf (fun site payloadId _ package => site.Presents payloadId package)
        (Sample.mixedChain.reached.filter Site.isPackage)
        (o.intermediate.symbols.map fun s => (s.id, s.data)) := by
  have h : (Compiler.compileAs {} 0 Sample.mixedChain).result = .ok _ := rfl
  exact ⟨_, h, by decide +kernel, by decide +kernel,
    Compiler.packages_suit_kind rfl h (by decide +kernel)⟩

end Installer
