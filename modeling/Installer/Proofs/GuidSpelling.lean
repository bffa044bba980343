import Installer.Proofs.Congruence
import Installer.Proofs.GuidForms

/-! # GUIDs in other notations

A GUID may be written in any of its notations wherever a core attribute holds one (`guidAttributes`). The
rules of these elements read just its number, so that without extensions two documents that differ in the
notations of their GUIDs (`Element.Respells`) compile to the same result. With what a single GUID comes to,
this is `Guid.one_normal_form`. -/

namespace Installer

open Compile Planned

/-- The attributes with GUIDs, by the names of their elements. -/
def guidAttributes : List (String × String) := [
  ("Bundle", "UpgradeCode"), ("Package", "UpgradeCode"), ("Package", "ProductCode"),
  ("Module", "Guid"), ("Patch", "Id"), ("RelatedBundle", "Code"), ("Component", "Guid")]

/-- The rules of elements with GUIDs. -/
def guidRules : List (String × Rule) := [
  ("Bundle", .bundle), ("Package", .package), ("Module", .module), ("Patch", .patch),
  ("RelatedBundle", .relatedBundle), ("Component", .component)]

/-- The second attribute is the first one with its GUID in another notation, maybe with other blanks
around it. -/
structure Attribute.Respells (a a' : Attribute) : Prop where
  rest : { a' with value := a.value } = a
  value : ∃ v, Guid.Denotes (Text.trimmed a.value) v ∧ Guid.Denotes (Text.trimmed a'.value) v

/-- The same attribute of an element with the given name, or one with another notation of its GUID. -/
def Attribute.MayRespell (element : String) (a a' : Attribute) : Prop :=
  a' = a ∨ a.isCore ∧ (element, a.name) ∈ guidAttributes ∧ a.Respells a'

/-- The second element is the first one, where the GUIDs of core attributes may be in other notations. -/
structure Element.Respells (e e' : Element) : Prop where
  tag : { e'.tag with attributes := e.attributes } = e.tag
  attributes : List.Forall₂ (Attribute.MayRespell e.name) e.attributes e'.attributes

/-! ### Attributes -/

theorem Attribute.MayRespell.qname {element : String} {a a' : Attribute}
    (h : a.MayRespell element a') : a.qname = a'.qname := by
  rcases h with rfl | ⟨-, -, h⟩
  · rfl
  · exact (congrArg Attribute.qname h.rest).symm

/-- A GUID in any notation is read as the normal form of its number. -/
theorem Reader.guid_of_denotes {a : Attribute} {v : BitVec 128}
    (h : Guid.Denotes (Text.trimmed a.value) v) (generatable : Bool) (e : Element) :
    Reader.guid generatable e a = pure (some (Guid.normalOf v)) := by
  have hnormal : Guid.normalize? (Text.trimmed a.value) = some (Guid.normalOf v) :=
    Guid.normalize?_eq_some_iff.mpr ⟨v, h, rfl⟩
  have hnone : Guid.normalize? (Text.trimmed "") = none ∧ Guid.normalize? "*" = none := by
    decide +kernel
  have hempty : a.value.isEmpty = false := by
    rw [Bool.eq_false_iff]
    intro hv
    rw [String.isEmpty_iff.mp hv, hnone.1] at hnormal
    cases hnormal
  have hstar : Text.trimmed a.value ≠ "*" := by
    intro hv
    rw [hv, hnone.2] at hnormal
    cases hnormal
  simp [guid, nonEmpty, hempty, hstar, hnormal]

/-- The check finds nothing wrong with GUIDs. -/
def Check.PassesGuids (check : Check) : Prop :=
  ∀ e a v, Guid.Denotes (Text.trimmed a.value) v → check e a = []

theorem Reader.passesGuids_findings (generatable : Bool) :
    Check.PassesGuids (Reader.guid generatable).findings := by
  intro e a v hv
  rw [findings, guid_of_denotes hv, Logged.findings_pure]

theorem Guid.normalOf_ne_star (v : BitVec 128) : normalOf v ≠ "*" := by
  have hread := normalize?_eq_some_iff.mpr ⟨v, denotes_normalOf v, rfl⟩
  intro hstar
  rw [hstar] at hread
  cases hread

theorem Compile.passesGuids_componentGuidCheck (env : Env) :
    Check.PassesGuids (componentGuidCheck env).2 := by
  intro e a v hv
  simp [componentGuidCheck, Reader.guid_of_denotes hv, Guid.normalOf_ne_star]

namespace Element.Respells

variable {e e' : Element} (h : e.Respells e')
include h

theorem sameTag_of_name (hname : e.name ∉ guidAttributes.map Prod.fst) : e.SameTag e' := by
  refine sameTag_of_attributes h.tag (List.forall₂_eq_eq_eq ▸ h.attributes.imp ?_).symm
  rintro a a' (rfl | ⟨-, hmem, -⟩)
  · rfl
  · exact absurd (List.mem_map_of_mem hmem) hname

theorem sameHead : e.SameHead e' := sameHead_of_tag h.tag

theorem coreAttributes :
    List.Forall₂ (Attribute.MayRespell e.name) e.coreAttributes e'.coreAttributes := by
  refine (forall₂_filter h.attributes fun ha => ?_).imp fun _ _ => And.left
  rw [Attribute.isCore, Attribute.isCore, ha.qname]

theorem foreignAttributes_eq : e.foreignAttributes = e'.foreignAttributes := by
  rw [← List.forall₂_eq_eq_eq]
  refine (forall₂_filter h.attributes fun ha => ?_).imp ?_
  · rw [Attribute.isCore, Attribute.isCore, ha.qname]
  · rintro a a' ⟨rfl | ⟨hcore, -⟩, hforeign⟩
    · rfl
    · simp [hcore] at hforeign

/-- All other attributes are the same. -/
theorem agreesOn : e.AgreesOn (fun name => !guidAttributes.contains (e.name, name)) e' where
  qname := h.sameHead.qname
  range := h.sameHead.range
  text := h.sameHead.text
  attributes := by
    rw [← List.forall₂_eq_eq_eq]
    refine (forall₂_filter h.coreAttributes fun ha => ?_).imp ?_
    · rw [Attribute.name, Attribute.name, ha.qname]
    · rintro a a' ⟨rfl | ⟨-, hmem, -⟩, hother⟩
      · rfl
      · simp [hmem] at hother

theorem has_eq (name : String) : e.has name = e'.has name := by
  have hnames : e.coreAttributes.map Attribute.name = e'.coreAttributes.map Attribute.name :=
    map_eq_of_forall₂ h.coreAttributes fun ha => congrArg QName.name ha.qname
  have hhas : ∀ e : Element, e.has name = (e.coreAttributes.map Attribute.name).contains name := by
    intro e
    rw [has, attribute?, Bool.eq_iff_iff, List.find?_isSome, List.contains_iff_mem, List.mem_map]
    simp only [beq_iff_eq]
  rw [hhas, hhas, hnames]

theorem missingAttributes_eq (names : List String) :
    e.missingAttributes names = e'.missingAttributes names := by
  simp only [missingAttributes, h.agreesOn.missingAttribute_eq, h.has_eq]

/-- A field for GUIDs has the same value. -/
theorem value?_guid (name : String) (generatable : Bool) :
    e.value? ⟨name, Reader.guid generatable⟩ = e'.value? ⟨name, Reader.guid generatable⟩ := by
  have hfilter := forall₂_filter (q := ([name].contains ·.name)) h.coreAttributes fun ha => by
    rw [Attribute.name, Attribute.name, ha.qname]
  have hvalues := map_eq_of_forall₂ hfilter
    (f := fun a => (Reader.guid generatable e a).value)
    (g := fun a => (Reader.guid generatable e' a).value) fun {a a'} ha => by
      rcases ha.1 with rfl | ⟨-, -, -, v, hv, hv'⟩
      · exact congrArg _ (Reader.Local.name h.sameHead.name a')
      · rw [Reader.guid_of_denotes hv, Reader.guid_of_denotes hv']
  have hlast := congrArg List.getLast? hvalues
  rw [List.getLast?_map, List.getLast?_map] at hlast
  have hbind := congrArg (Option.bind · id) hlast
  simp only [Option.bind_map] at hbind
  exact hbind

/-- The attributes are found right or wrong alike, if the checks let GUIDs pass. -/
theorem checkAttributes_eq {checks : List (String × Check)} [Check.AllLocal checks]
    (hchecks : ∀ name, (e.name, name) ∈ guidAttributes →
      ∃ check, checks.lookup name = some check ∧ check.PassesGuids) :
    e.checkAttributes checks = e'.checkAttributes checks := by
  have hpass : ∀ a v, (e.name, a.name) ∈ guidAttributes → Guid.Denotes (Text.trimmed a.value) v →
      e.checkAttribute checks a = [] := by
    intro a v hmem hv
    obtain ⟨check, hlookup, hcheck⟩ := hchecks a.name hmem
    rw [checkAttribute, hlookup]
    exact hcheck e a v hv
  unfold checkAttributes
  rw [List.flatMap_def, List.flatMap_def, ← h.sameHead.checkAttribute_eq]
  refine congrArg List.flatten (map_eq_of_forall₂ h.coreAttributes fun {a a'} ha => ?_)
  have hqname := ha.qname
  rcases ha with rfl | ⟨-, hmem, -, v, hv, hv'⟩
  · rfl
  · rw [hpass a v hmem hv, hpass a' v (by rwa [Attribute.name, ← hqname]) hv']

end Element.Respells

theorem Element.AgreesOn.providerSteps_eq {p : String → Bool} {e e' : Element} (h : e.AgreesOn p e')
    (hp : p "ProviderKey") : providerSteps e = providerSteps e' := by
  funext parent
  unfold providerSteps
  rw [h.filter_eq (q := (· == "ProviderKey")) fun name hname => by rwa [beq_iff_eq.mp hname]]
  simp only [Reader.Local.name h.name]

/-! ### Openings -/

namespace Compile

section Sites
variable {s s' : Site} (h : s.element.Respells s'.element)
include h

theorem bare_offerAttributes_respelled (context : Context) :
    (offerAttributes s context).bare = (offerAttributes s' context).bare := by
  rw [bare_offerAttributes, bare_offerAttributes, h.foreignAttributes_eq,
    h.sameHead.unhandledAttribute_eq]

/-- **Elements with GUIDs are opened in the same way**, whatever the notation. -/
theorem bare_open_respelled {rule : Rule} (hrule : (s.element.name, rule) ∈ guidRules) (env : Env)
    (scope : Scope) : (rule.open env scope s).bare = (rule.open env scope s').bare := by
  have ha := h.agreesOn
  have hmissing := h.missingAttributes_eq
  have hoffer := bare_offerAttributes_respelled h
  have hguid : ∀ name, s.element.value? (.guid name) = s'.element.value? (.guid name) :=
    fun name => h.value?_guid name false
  have hgeneratable : ∀ name, s.element.value? (.generatableGuid name) =
      s'.element.value? (.generatableGuid name) := fun name => h.value?_guid name true
  simp only [guidRules, List.mem_cons, Prod.mk.injEq, List.not_mem_nil, or_false] at hrule
  rcases hrule with ⟨hname, rfl⟩ | ⟨hname, rfl⟩ | ⟨hname, rfl⟩ | ⟨hname, rfl⟩ | ⟨hname, rfl⟩ |
    ⟨hname, rfl⟩
  all_goals rw [hname] at ha
  · simp only [Rule.open, openBundle]
    rw [h.checkAttributes_eq]
    · simp (disch := decide) [-bare_offerAttributes, hmissing, ha.value?_eq, hguid,
        ha.identifier?_eq, ha.providerSteps_eq, hoffer]
    · intro name hmem
      obtain rfl : name = "UpgradeCode" := by simpa [hname, guidAttributes] using hmem
      exact ⟨_, rfl, Reader.passesGuids_findings false⟩
  · simp only [Rule.open, openPackage]
    rw [h.checkAttributes_eq]
    · simp (disch := decide) [-bare_offerAttributes, hmissing, ha.value?_eq, hguid, hgeneratable,
        ha.providerSteps_eq, hoffer]
    · intro name hmem
      obtain rfl | rfl : name = "UpgradeCode" ∨ name = "ProductCode" := by
        simpa [hname, guidAttributes] using hmem
      · exact ⟨_, rfl, Reader.passesGuids_findings false⟩
      · exact ⟨_, rfl, Reader.passesGuids_findings true⟩
  · simp only [Rule.open, openModule]
    rw [h.checkAttributes_eq]
    · simp (disch := decide) [-bare_offerAttributes, hmissing, ha.value?_eq, hguid,
        ha.identifier?_eq, hoffer]
    · intro name hmem
      obtain rfl : name = "Guid" := by simpa [hname, guidAttributes] using hmem
      exact ⟨_, rfl, Reader.passesGuids_findings false⟩
  · simp only [Rule.open, openPatch]
    rw [h.checkAttributes_eq]
    · simp (disch := decide) [-bare_offerAttributes, patchId, ha.value?_eq, hgeneratable, hoffer]
    · intro name hmem
      obtain rfl : name = "Id" := by simpa [hname, guidAttributes] using hmem
      exact ⟨_, rfl, Reader.passesGuids_findings true⟩
  · simp only [Rule.open, openRelatedBundle]
    rw [h.checkAttributes_eq]
    · simp (disch := decide) [-bare_offerAttributes, leaf, hmissing, ha.value?_eq, hguid, hoffer]
    · intro name hmem
      obtain rfl : name = "Code" := by simpa [hname, guidAttributes] using hmem
      exact ⟨_, rfl, Reader.passesGuids_findings false⟩
  · simp only [Rule.open, openComponent]
    rw [h.checkAttributes_eq]
    · simp (disch := decide) [-bare_offerAttributes, componentDirectory, requiredId,
        ha.identifier?_eq, ha.missingAttribute_eq, h.has_eq, ha.value?_eq, hgeneratable, hoffer]
    · intro name hmem
      obtain rfl : name = "Guid" := by simpa [hname, guidAttributes] using hmem
      exact ⟨_, rfl, passesGuids_componentGuidCheck env⟩

end Sites

/-- A payload element has no GUID. -/
theorem payloadAlike_of_respelled {kind : Symbol.PackageKind} {c c' : Element}
    (h : c.Matched Element.Respells c') : PayloadAlike kind c c' := by
  refine ⟨h.here.sameHead, fun _ hname => ⟨h.here.sameTag_of_name ?_, ?_⟩⟩
  · rw [hname]
    cases kind <;> decide
  · exact h.children.imp fun _ _ hc => hc.here.sameHead

/-- Elements whose names are those of elements with GUIDs are read by the rules for these. -/
theorem mem_guidRules_of_gives {content : Content} {name : String} {rule : Rule}
    (h : content.Gives name rule) (hname : name ∈ guidAttributes.map Prod.fst) :
    (name, rule) ∈ guidRules := by
  have hnamed : ∀ name ∈ guidAttributes.map Prod.fst, ∃ p ∈ guidRules,
      p.1 = name ∧ Rule.named? name = some p.2 := by decide +kernel
  obtain ⟨⟨_, rule'⟩, hmem, rfl, hrule'⟩ := hnamed name hname
  obtain rfl : rule' = rule := Option.some.inj (hrule'.symm.trans (Rule.named?_of_gives h))
  exact hmem

/-- The rules do not notice the notation of GUIDs. -/
theorem indiscernible_respelled (config : Config) : Indiscernible config Element.Respells where
  head h := h.sameHead
  root := by
    intro e e' h hroot
    refine h.sameTag_of_name ?_
    rw [(Element.core_of_qname hroot).2]
    decide
  opens := by
    intro rule s s' h unit scope
    have hchildren : ∀ kind, List.Forall₂ (PayloadAlike kind) s.element.children
        s'.element.children :=
      fun kind => h.element.children.imp fun _ _ => payloadAlike_of_respelled
    obtain ⟨content, hgiven⟩ := h.given
    by_cases hname : s.element.name ∈ guidAttributes.map Prod.fst
    · exact bare_open_respelled h.element.here (mem_guidRules_of_gives hgiven hname) _ scope
    · exact bare_open_of_children (h.element.here.sameTag_of_name hname) hchildren rule _ scope
        (fun _ => h.position) h.parent

end Compile

/-! ### Normal forms -/

/-- A field for GUIDs holds the normal form of the number that its last attribute denotes. -/
theorem Element.value?_of_denotes {e : Element} {a : Attribute} {name : String} {v : BitVec 128}
    (ha : e.last? [name] = some a) (hv : Guid.Denotes (Text.trimmed a.value) v)
    (generatable : Bool) : e.value? ⟨name, Reader.guid generatable⟩ = some (Guid.normalOf v) := by
  rw [value?, ha]
  exact congrArg Logged.value (Reader.guid_of_denotes hv generatable e)

/-- **A GUID has one normal form.** What a GUID is read as has the normal form, and is read as itself. The
texts that can be read are those in one of the notations, and two of them come to the same if and only if
they denote the same number. So all that denote one number give the same values to fields, and without
extensions a document with GUIDs in other notations compiles to the same result. -/
theorem Guid.one_normal_form :
    (∀ s g, normalize? s = some g → IsNormal g ∧ normalize? g = some g) ∧
    (∀ s, ((normalize? s).isSome ↔ ∃ v, Denotes s v) ∧
      ∀ v, value? s = some v.toNat ↔ Denotes s v) ∧
    (∀ s t g h, normalize? s = some g → normalize? t = some h →
      (g = h ↔ ∃ v, Denotes s v ∧ Denotes t v)) ∧
    (∀ v, ∃ g, Denotes g v ∧ (∀ s, Denotes s v → normalize? s = some g) ∧
      ∀ (e : Element) (a : Attribute) (name : String), e.last? [name] = some a →
        Denotes (Text.trimmed a.value) v →
          e.value? (.guid name) = some g ∧ e.value? (.generatableGuid name) = some g) ∧
    ∀ (c : Compiler) (k : UInt32) (root root' : Element), c.extensions = [] →
      root.Matched Element.Respells root' →
        (c.compileAs k root).result = (c.compileAs k root').result := by
  refine ⟨fun s g hg => ⟨isNormal_of_normalize? hg, ?_⟩, fun s => ⟨?_, fun v => value?_eq_some_iff⟩,
    fun s t g h hg hh => ?_, fun v => ⟨normalOf v, denotes_normalOf v, fun s hs => ?_,
      fun e a name ha hv => ?_⟩, fun c k root root' hc hroot => ?_⟩
  · obtain ⟨v, -, rfl⟩ := normalize?_eq_some_iff.mp hg
    exact normalize?_eq_some_iff.mpr ⟨v, denotes_normalOf v, rfl⟩
  · simp [Option.isSome_iff_exists, normalize?_eq_some_iff]
  · obtain ⟨v, hv, rfl⟩ := normalize?_eq_some_iff.mp hg
    obtain ⟨w, hw, rfl⟩ := normalize?_eq_some_iff.mp hh
    rw [normalOf_inj]
    constructor
    · rintro rfl
      exact ⟨v, hv, hw⟩
    · rintro ⟨u, hu, hu'⟩
      rw [hv.unique hu, hw.unique hu']
  · exact normalize?_eq_some_iff.mpr ⟨v, hs, rfl⟩
  · exact ⟨Element.value?_of_denotes ha hv false, Element.value?_of_denotes ha hv true⟩
  · exact (indiscernible_respelled c.config).result_eq hc hroot k

namespace Sample

/-- A bundle with an upgrade code, and a component with a GUID. -/
def coded (code guid : String) : Element :=
  element "Wix" [] [
    element "Bundle" [("Id", "B"), ("Version", "1.0"), ("UpgradeCode", code)] [],
    element "Fragment" [("Id", "F")] [
      element "Component" [("Id", "C"), ("Directory", "D"), ("Guid", guid)] []]]

theorem respells_coded {code code' guid guid' : String} {v w : BitVec 128}
    (hcode : Guid.Denotes (Text.trimmed code) v) (hcode' : Guid.Denotes (Text.trimmed code') v)
    (hguid : Guid.Denotes (Text.trimmed guid) w) (hguid' : Guid.Denotes (Text.trimmed guid') w) :
    (coded code guid).Matched Element.Respells (coded code' guid') := by
  have htag : ∀ tag children children', Element.Respells (.node tag children) (.node tag children') :=
    fun tag _ _ => ⟨rfl, List.forall₂_same.mpr fun _ _ => .inl rfl⟩
  have hbundle : (element "Bundle" [("Id", "B"), ("Version", "1.0"), ("UpgradeCode", code)] []).Respells
      (element "Bundle" [("Id", "B"), ("Version", "1.0"), ("UpgradeCode", code')] []) :=
    ⟨rfl, .cons (.inl rfl) (.cons (.inl rfl)
      (.cons (.inr ⟨rfl, by simp [guidAttributes, element, tag, Attribute.name, Element.name,
        QName.unqualified, Element.tag], rfl, v, hcode, hcode'⟩) .nil))⟩
  have hcomponent : (element "Component" [("Id", "C"), ("Directory", "D"), ("Guid", guid)] []).Respells
      (element "Component" [("Id", "C"), ("Directory", "D"), ("Guid", guid')] []) :=
    ⟨rfl, .cons (.inl rfl) (.cons (.inl rfl)
      (.cons (.inr ⟨rfl, by simp [guidAttributes, element, tag, Attribute.name, Element.name,
        QName.unqualified, Element.tag], rfl, w, hguid, hguid'⟩) .nil))⟩
  exact .node (htag _ _ _) (.cons (.node hbundle .nil)
    (.cons (.node (htag _ _ _) (.cons (.node hcomponent .nil) .nil)) .nil))

end Sample

/-- Digits alone, and groups behind a word in capitals with blanks around them. -/
theorem Guid.one_normal_form_coded :
    let plain := "6ba7b8109dad11d180b400c04fd430c8"
    let urn := "URN:uuid:6BA7B810-9dad-11D1-80b4-00C04FD430C8"
    normalize? plain = some "{6BA7B810-9DAD-11D1-80B4-00C04FD430C8}" ∧
      normalize? urn = normalize? plain ∧ plain ≠ urn ∧
      (Compiler.compileAs {} 0 (Sample.coded urn plain)).result.toOption.any Output.isSuccess ∧
      (Compiler.compileAs {} 0 (Sample.coded plain (" " ++ urn ++ " "))).result =
        (Compiler.compileAs {} 0 (Sample.coded urn plain)).result := by
  intro plain urn
  obtain ⟨-, hread, -, hspell, hcompile⟩ := Guid.one_normal_form
  have hplain : Denotes plain 0x6ba7b8109dad11d180b400c04fd430c8#128 :=
    ((hread plain).2 _).mp (by decide +kernel)
  have hurn : Denotes urn 0x6ba7b8109dad11d180b400c04fd430c8#128 :=
    ((hread urn).2 _).mp (by decide +kernel)
  have htrim : Text.trimmed plain = plain ∧ Text.trimmed urn = urn ∧
      Text.trimmed (" " ++ urn ++ " ") = urn := by decide +kernel
  obtain ⟨g, -, hg, -⟩ := hspell 0x6ba7b8109dad11d180b400c04fd430c8#128
  have hmatched : (Sample.coded plain (" " ++ urn ++ " ")).Matched Element.Respells
      (Sample.coded urn plain) :=
    Sample.respells_coded (by rwa [htrim.1]) (by rwa [htrim.2.1]) (by rwa [htrim.2.2])
      (by rwa [htrim.1])
  exact ⟨by decide +kernel, (hg urn hurn).trans (hg plain hplain).symm, by decide +kernel,
    by decide +kernel, hcompile {} 0 _ _ rfl hmatched⟩

end Installer
