import Installer.Proofs.Packages

/-! # The two forms of payloads

A package describes its payload by attributes of its own or by a typed payload element. The two forms
mean the same: if the attributes are moved to a new typed payload element, anywhere among the children of
the package, without extensions the document compiles to the same intermediate or fails as before
(`Compiler.payload_forms_agree`). -/

namespace Installer

open Compile Planned

open Installer.Symbol (PackageKind)

/-! ### Gists without extensions -/

theorem Step.smooth_bare {s : Step} : s.bare.Smooth ↔ s.Smooth := by
  cases s with
  | offer node context => cases node <;> exact ⟨fun _ => trivial, fun _ => rfl⟩
  | _ => exact Iff.rfl

theorem Step.filter_lasts_bare (l : List Step) :
    (l.map Step.bare).filter Step.lasts = l.filter Step.lasts := by
  induction l with
  | nil => rfl
  | cons s l ih =>
    rw [List.map_cons, List.filter_cons, List.filter_cons, ih]
    cases s <;> rfl

theorem Step.gist_bare (l : List Step) : Step.gist (l.map Step.bare) = Step.gist l := by
  unfold Step.gist
  simp only [List.forall_mem_map, Step.smooth_bare, Step.filter_lasts_bare]

/-- What is the same without extensions comes to the same. -/
theorem Logged.gist_eq_of_bare {α : Type} {x y : Logged Step α} (h : x.bare = y.bare) :
    x.gist = y.gist := by
  obtain ⟨hlog, hvalue⟩ := Logged.mk.inj h
  rw [Logged.gist, Logged.gist, ← Step.gist_bare, hlog, Step.gist_bare, hvalue]

/-- What follows a planned value comes to the same if it does for the value itself. -/
theorem Logged.gist_bind_eq {α β : Type} {x y : Logged Step α} (h : x.gist = y.gist)
    {f f' : α → Logged Step β} (hf : (f x.value).gist = (f' x.value).gist) :
    (x >>= f).gist = (y >>= f').gist := by
  obtain ⟨hlog, hvalue⟩ := Logged.gist_eq_iff.mp h
  rw [Logged.gist_bind, Logged.gist_bind, h]
  unfold Logged.gist at h ⊢
  cases hy : Step.gist y.log with
  | none => rfl
  | some l =>
    have hsame := hvalue l (hlog.trans hy)
    unfold Logged.gist at hf
    simp only [Option.map_some, Option.bind_some, ← hsame, hf]

/-! ### Documents with typed payloads -/

/-- The attributes by which a package describes its payload. -/
def payloadNames : List String := ["Name", "SourceFile", "DownloadUrl"]

/-- Whether the attribute describes the payload of a package. -/
def Attribute.isPayload (a : Attribute) : Bool := a.isCore && payloadNames.contains a.name

/-- The tag without the attributes that describe a payload, under the given number. -/
def Tag.withoutPayload (tag : Tag) (number : Nat) : Tag :=
  { tag with number, attributes := tag.attributes.filter (!·.isPayload) }

namespace Element

/-- A package that describes its payload by attributes of its own. -/
structure SelfDescribed (kind : PackageKind) (e : Element) : Prop where
  qname : e.qname = QName.core kind.elementName
  source : e.has "SourceFile" ∨ e.has "Name"
  compressed : e.has "Compressed" = false
  untyped : ∀ c ∈ e.children, c.qname ≠ QName.core kind.payloadElementName

/-- A typed payload element with the attributes that describe the payload of a package, and nothing
else. -/
structure Describes (kind : PackageKind) (e payload : Element) : Prop where
  qname : payload.qname = QName.core kind.payloadElementName
  attributes : payload.attributes = e.attributes.filter (·.isPayload)
  children : payload.children = []

/-- The second document is the first one, where the attributes that describe the payloads of some
packages are moved to typed payload elements. Since these are new elements, the others may have other
numbers. -/
inductive PayloadsMoved : Element → Element → Prop
  | same {tag : Tag} {number : Nat} {children children' : List Element}
      (h : List.Forall₂ PayloadsMoved children children') :
      PayloadsMoved (.node tag children) (.node { tag with number } children')
  | moved {kind : PackageKind} {tag : Tag} {number : Nat} {children before after : List Element}
      {payload : Element} (hpackage : SelfDescribed kind (.node tag children))
      (hpayload : Describes kind (.node tag children) payload)
      (h : List.Forall₂ PayloadsMoved children (before ++ after)) :
      PayloadsMoved (.node tag children)
        (.node (tag.withoutPayload number) (before ++ payload :: after))

/-! ### Attributes that are moved -/

theorem coreAttributes_withoutPayload (tag : Tag) (number : Nat) (children children' : List Element) :
    (node (tag.withoutPayload number) children').coreAttributes =
      (node tag children).coreAttributes.filter (!payloadNames.contains ·.name) := by
  simp only [coreAttributes, attributes, Element.tag, Tag.withoutPayload, List.filter_filter]
  refine List.filter_congr fun a _ => ?_
  cases ha : a.isCore <;> simp [Attribute.isPayload, ha]

/-- Of the other attributes nothing is changed. -/
theorem agreesOn_withoutPayload (tag : Tag) (number : Nat) (children children' : List Element) :
    (node tag children).AgreesOn (!payloadNames.contains ·)
      (node (tag.withoutPayload number) children') where
  qname := rfl
  range := rfl
  text := rfl
  attributes := by
    rw [coreAttributes_withoutPayload tag number children children', List.filter_filter]
    simp only [Bool.and_self]

theorem PayloadsMoved.sameHead {e e' : Element} (h : e.PayloadsMoved e') : e.SameHead e' := by
  cases h with
  | @same tag number children children' h =>
    have htag : (node tag children).SameTag (node { tag with number } children') :=
      ⟨rfl, rfl, rfl, rfl⟩
    exact htag.agrees.sameHead
  | moved hpackage hpayload h => exact (agreesOn_withoutPayload _ _ _ _).sameHead

namespace Describes

variable {kind : PackageKind} {e payload : Element} (h : e.Describes kind payload)
include h

theorem coreAttributes : payload.coreAttributes =
    e.coreAttributes.filter (payloadNames.contains ·.name) := by
  rw [Element.coreAttributes, h.attributes, Element.coreAttributes, List.filter_filter,
    List.filter_filter]
  refine List.filter_congr fun a _ => ?_
  cases ha : a.isCore <;> simp [Attribute.isPayload, ha]

theorem filter_eq {q : String → Bool} (hq : ∀ name, q name → name ∈ payloadNames) :
    payload.coreAttributes.filter (q ·.name) = e.coreAttributes.filter (q ·.name) := by
  rw [h.coreAttributes, List.filter_filter]
  refine List.filter_congr fun a _ => ?_
  cases ha : q a.name with
  | false => rfl
  | true => simp [hq _ ha]

theorem has_eq {name : String} (hname : name ∈ payloadNames) : payload.has name = e.has name := by
  rw [has, has, attribute?, attribute?, ← List.head?_filter, ← List.head?_filter,
    h.filter_eq (q := (· == name)) fun n hn => by rwa [beq_iff_eq.mp hn]]

theorem value?_eq {α : Type} (f : Field α) [Reader.Local f.read] (hname : f.name ∈ payloadNames) :
    payload.value? f = e.value? f := by
  have hname : ∀ n, [f.name].contains n → n ∈ payloadNames := by
    intro n hn
    obtain rfl : n = f.name := by simpa using hn
    exact hname
  rw [value?, value?, last?, last?, h.filter_eq hname]
  congr 1
  funext a
  exact (Reader.Local.value payload e rfl).value_eq

end Describes

end Element

namespace Compile

/-! ### Checks -/

/-- What describes a payload is checked in the same way in both forms. -/
theorem lookup_payloadNames (config : Config) (kind : PackageKind) :
    ∀ name ∈ payloadNames, (commonChecks ++ kindChecks config kind).lookup name =
      (PayloadForm.typed kind).checks.lookup name := by
  intro name hname
  simp only [payloadNames, List.mem_cons, List.not_mem_nil, or_false] at hname
  rcases hname with rfl | rfl | rfl <;> rfl

/-- The errors of a package are those of the attributes that stay and of those that are moved. -/
theorem hasErrors_moved {kind : PackageKind} {tag : Tag} {children : List Element}
    {payload : Element} (h : (Element.node tag children).Describes kind payload) (config : Config)
    (number : Nat) (children' : List Element) :
    Diagnostic.hasErrors ((Element.node tag children).checkAttributes
        (commonChecks ++ kindChecks config kind)) =
      (Diagnostic.hasErrors ((Element.node (tag.withoutPayload number) children').checkAttributes
          (commonChecks ++ kindChecks config kind)) ||
        Diagnostic.hasErrors (payload.checkAttributes (PayloadForm.typed kind).checks)) := by
  have hmoved : ∀ a : Attribute, a.name ∈ payloadNames →
      Diagnostic.hasErrors (payload.checkAttribute (PayloadForm.typed kind).checks a) =
        Diagnostic.hasErrors ((Element.node tag children).checkAttribute
          (commonChecks ++ kindChecks config kind) a) := by
    intro a ha
    rw [Element.hasErrors_checkAttribute payload (.node tag children) _ (rfl : a.said = a.said),
      Element.checkAttribute, Element.checkAttribute, lookup_payloadNames config kind _ ha]
  have hstays := (Element.agreesOn_withoutPayload tag number children children').checkAttribute_eq
    (commonChecks ++ kindChecks config kind)
  simp only [Diagnostic.hasErrors, Element.checkAttributes, List.any_flatMap, h.coreAttributes,
    Element.coreAttributes_withoutPayload tag number children children', ← hstays] at hmoved ⊢
  generalize (Element.node tag children).coreAttributes = l
  induction l with
  | nil => rfl
  | cons a l ih =>
    rw [List.any_cons, ih, List.filter_cons, List.filter_cons]
    by_cases ha : a.name ∈ payloadNames
    · simp [ha, hmoved a ha, Bool.or_left_comm]
    · simp [ha, Bool.or_assoc]

/-! ### Openings -/

section Moved
variable {kind : PackageKind} {tag : Tag} {number : Nat} {children before after : List Element}
  {payload : Element}
  (hpackage : (Element.node tag children).SelfDescribed kind)
  (hpayload : (Element.node tag children).Describes kind payload)
  (hchildren : List.Forall₂ Element.PayloadsMoved children (before ++ after))

include hpackage in
theorem ne_payload_of_mem {c : Element} (hc : c ∈ children) (hcore : c.isCore) :
    c.name ≠ kind.payloadElementName := by
  intro hname
  exact hpackage.untyped c hc (by rw [Element.qname_eq_core hcore, hname])

include hpackage hchildren in
theorem ne_payload_of_mem_moved {c' : Element} (hc : c' ∈ before ++ after) (hcore : c'.isCore) :
    c'.name ≠ kind.payloadElementName := by
  obtain ⟨c, hc, hmoved⟩ := exists_of_forall₂ hchildren hc
  rw [← hmoved.sameHead.name]
  exact ne_payload_of_mem hpackage hc (hmoved.sameHead.isCore.trans hcore)

include hpackage in
theorem typedPayload?_untyped : typedPayload? (.node tag children) kind = none := by
  refine Option.map_eq_none_iff.mp ((map_typedPayload? _ kind).trans (List.find?_eq_none.mpr ?_))
  intro c hc
  have hne := ne_payload_of_mem hpackage hc
  simpa using hne

include hpackage hpayload hchildren in
/-- The new element is the one that authors the payload. -/
theorem exists_typedPayload?_moved (number : Nat) : ∃ position,
    typedPayload? (.node (tag.withoutPayload number) (before ++ payload :: after)) kind =
      some (payload, position) := by
  obtain ⟨hcore, hname⟩ := Element.core_of_qname hpayload.qname
  have hbefore : before.find? (fun c => c.isCore && c.name == kind.payloadElementName) = none := by
    refine List.find?_eq_none.mpr fun c hc => ?_
    have hne := ne_payload_of_mem_moved hpackage hchildren (List.mem_append_left _ hc)
    simpa using hne
  have hfind := map_typedPayload? (.node (tag.withoutPayload number) (before ++ payload :: after)) kind
  rw [Element.children, List.find?_append, hbefore, List.find?_cons_of_pos (by simp [hcore, hname]),
    Option.none_or] at hfind
  obtain ⟨⟨c, position⟩, hc, rfl⟩ := Option.map_eq_some_iff.mp hfind
  exact ⟨position, hc⟩

/-- The payload that a package describes by attributes of its own. -/
def describedPayload (e : Element) : Symbol.Payload := (e.payloadFields .inline).resolveInline

include hpackage in
theorem value?_compressed : (Element.node tag children).value? (.yesNo "Compressed") = none := by
  refine Element.value?_eq_none_of_not_has ?_
  simp [Field.yesNo, hpackage.compressed]

theorem payloadNames_subset (kind : PackageKind) : payloadNames ⊆ (PayloadForm.typed kind).names := by
  cases kind <;> decide

include hpayload in
/-- The new element says what the package said, and nothing else. -/
theorem values_moved : ((payload.payloadFields (.typed kind)).values) = {
    name := (Element.node tag children).value? (.relativePath "Name")
    sourceFile := (Element.node tag children).value? (.text "SourceFile")
    downloadUrl := (Element.node tag children).value? (.text "DownloadUrl") } := by
  have hmoved : ∀ {α : Type} (f : Field α) [Reader.Local f.read], f.name ∈ payloadNames →
      payload.valueIn? (PayloadForm.typed kind).names f = (Element.node tag children).value? f :=
    fun f _ hf => (Element.valueIn?_eq (payloadNames_subset kind hf)).trans (hpayload.value?_eq f hf)
  have hnone : ∀ {α : Type} (f : Field α), f.name ∉ payloadNames →
      payload.valueIn? (PayloadForm.typed kind).names f = none := by
    intro α f hf
    have hvalue : payload.value? f = none := by
      refine Element.value?_eq_none_of_not_has fun hhas => hf ?_
      obtain ⟨a, ha, hname⟩ := Element.has_iff.mp hhas
      rw [hpayload.coreAttributes, List.mem_filter] at ha
      exact hname ▸ by simpa using ha.2
    rw [Element.valueIn?, hvalue, ite_self]
  simp only [Element.payloadFields]
  rw [hmoved (.relativePath "Name") (by decide), hmoved (.text "SourceFile") (by decide),
    hmoved (.text "DownloadUrl") (by decide), hnone (.yesNo "Compressed") (by decide),
    hnone (.text "Hash") (by decide), hnone sizeField (by decide),
    hnone (.text "CertificatePublicKey") (by decide), hnone (.text "CertificateThumbprint") (by decide),
    hnone (.text "Description") (by decide), hnone (.text "ProductName") (by decide),
    hnone (.version "Version") (by decide)]

include hpackage hpayload in
/-- The new element describes the same payload. -/
theorem resolve_moved (hp : payload.Passes (PayloadForm.typed kind).checks) (remoteAllowed : Bool) :
    (payload.payloadFields (.typed kind)).resolve payload remoteAllowed =
      pure (describedPayload (.node tag children)) := by
  have hremote : (payload.payloadFields (.typed kind)).firstSeen? remoteNames = none := by
    have hdisjoint : ∀ name ∈ payloadNames, name ∉ remoteNames := by decide
    refine List.find?_eq_none.mpr fun name hname => ?_
    obtain ⟨a, ha, rfl⟩ := Element.has_iff.mp (Element.mem_seen_payloadFields.mp hname).2
    rw [hpayload.coreAttributes, List.mem_filter] at ha
    simpa using hdisjoint a.name (by simpa using ha.2)
  have hsaw : ∀ name ∈ payloadNames,
      (payload.payloadFields (.typed kind)).saw name = payload.has name := by
    intro name hname
    exact Element.saw_payloadFields (payloadNames_subset kind hname)
  have hdescribed : describedPayload (.node tag children) = PayloadFields.payload { values := {
      name := (Element.node tag children).value? (.relativePath "Name")
      sourceFile := ((Element.node tag children).value? (.text "SourceFile")).or
        ((Element.node tag children).value? (.relativePath "Name"))
      downloadUrl := (Element.node tag children).value? (.text "DownloadUrl") } } false := by
    rw [← value?_compressed hpackage]
    rfl
  have hfile := hpayload.value?_eq (.text "SourceFile") (by decide)
  rw [hdescribed]
  simp only [PayloadFields.resolve, PayloadFields.payload, hremote, Option.isSome_none, Bool.and_false,
    Bool.false_eq_true, ↓reduceIte, hsaw "SourceFile" (by decide), hsaw "Name" (by decide),
    values_moved hpayload]
  by_cases hhas : payload.has "SourceFile"
  · have hreads : Element.Reads (PayloadForm.typed kind).checks (Field.text "SourceFile") := rfl
    obtain ⟨v, hv, -⟩ := hp.exists_value? hreads (Field.of_text "SourceFile") hhas
    rw [if_pos hhas, ← hfile, hv]
    rfl
  · have hnone : payload.value? (.text "SourceFile") = none :=
      Element.value?_eq_none_of_not_has hhas
    have hhasName : payload.has "Name" := by
      rw [hpayload.has_eq (by decide)] at hhas ⊢
      exact hpackage.source.resolve_left hhas
    rw [if_neg hhas, if_pos hhasName, ← hfile, hnone, Option.none_or]

include hpackage in
/-- None of the attributes that cannot stand beside a typed payload element is left. -/
theorem firstSeen?_withoutPayload (number : Nat) (children' : List Element) :
    ((Element.node (tag.withoutPayload number) children').payloadFields .inline).firstSeen? sourceNames =
      none := by
  have hnames : ∀ name ∈ sourceNames, name ∈ payloadNames ∨ name = "Compressed" := by decide
  refine List.find?_eq_none.mpr fun name hseen hsource => ?_
  obtain ⟨a, ha, rfl⟩ := Element.has_iff.mp (Element.mem_seen_payloadFields.mp hseen).2
  rw [Element.coreAttributes_withoutPayload tag number children children', List.mem_filter] at ha
  rcases hnames a.name (by simpa using hsource) with hname | hname
  · simp [hname] at ha
  · have hhas : (Element.node tag children).has "Compressed" :=
      Element.has_iff.mpr ⟨a, ha.1, hname⟩
    rw [hpackage.compressed] at hhas
    cases hhas

include hpackage hpayload in
theorem gist_readTypedPayload_moved {c : Site} (hc : c.element = payload) {children' : List Element} :
    (readTypedPayload kind (.node (tag.withoutPayload number) children')
        ((Element.node (tag.withoutPayload number) children').payloadFields .inline) c).gist =
      if Diagnostic.hasErrors (payload.checkAttributes (PayloadForm.typed kind).checks) then none
      else some (pure (none, describedPayload (.node tag children))) := by
  have hid : payload.identifier? .id = none := by
    have hlast : payload.last? ["Id"] = none := by
      refine List.getLast?_eq_none_iff.mpr (List.filter_eq_nil_iff.mpr fun a ha => ?_)
      rw [hpayload.coreAttributes, List.mem_filter] at ha
      intro hname
      obtain hname : a.name = "Id" := by simpa using hname
      simp [hname, payloadNames] at ha
    exact Option.map_eq_none_iff.mpr hlast
  have hscan : ∀ context, scanChildren c context = pure () := by
    intro context
    rw [scanChildren, hc, hpayload.children]
    rfl
  have hread : readTypedPayload kind (.node (tag.withoutPayload number) children')
      ((Element.node (tag.withoutPayload number) children').payloadFields .inline) c = (do
        report (payload.checkAttributes (PayloadForm.typed kind).checks)
        let described ← (payload.payloadFields (.typed kind)).resolve payload (allowsRemote kind)
        offerAttributes c []
        return (none, described)) := by
    simp only [readTypedPayload, firstSeen?_withoutPayload hpackage number, hc, PayloadFields.gather_eq,
      hscan]
    change (do
      report (payload.checkAttributes (PayloadForm.typed kind).checks)
      let described ← (payload.payloadFields (.typed kind)).resolve payload (allowsRemote kind)
      offerAttributes c (((payload.identifier? .id).map (·.validContext)).getD [])
      return (payload.identifier? .id, described) : Planned (Option Identifier × Symbol.Payload)) = _
    rw [hid]
    rfl
  rw [hread, Logged.gist_bind, gist_report]
  cases herrors : Diagnostic.hasErrors (payload.checkAttributes (PayloadForm.typed kind).checks) with
  | true => rfl
  | false =>
    have hp : payload.Passes (PayloadForm.typed kind).checks := by
      simpa [Diagnostic.hasErrors, Element.Passes] using herrors
    simp [resolve_moved hpackage hpayload hp]
    rfl

/-- A package and its payload, if the payload has no identifier of its own. -/
def PackagePayload.unnamed (e : Element) (payload : Symbol.Payload) : PackagePayload :=
  let packageId := (e.identifier? .id).getD <|
    match payload.name with
    | some name => .ofName (Identifier.ofFileName name)
    | none => Identifier.invalid
  ⟨packageId, packageId, payload⟩

variable {s s' : Site} (hs : s.element = .node tag children)
  (hs' : s'.element = .node (tag.withoutPayload number) (before ++ payload :: after))

include hpackage hs in
theorem gist_packagePayload_untyped : (packagePayload kind s).gist =
    some (pure (.unnamed (.node tag children) (describedPayload (.node tag children)))) := by
  have hsource : (!((Element.node tag children).payloadFields .inline).saw "SourceFile" &&
      !((Element.node tag children).payloadFields .inline).saw "Name") = false := by
    rw [Element.saw_payloadFields (by decide), Element.saw_payloadFields (by decide)]
    rcases hpackage.source with h | h <;> simp [h]
  simp only [packagePayload, hs, PayloadFields.gather_eq, typedPayload?_untyped hpackage,
    Logged.pure_bind, hsource]
  rfl

include hpackage hpayload hchildren hs' in
theorem gist_packagePayload_moved : (packagePayload kind s').gist =
    if Diagnostic.hasErrors (payload.checkAttributes (PayloadForm.typed kind).checks) then none
    else some (pure (.unnamed (.node tag children) (describedPayload (.node tag children)))) := by
  obtain ⟨position, htyped⟩ := exists_typedPayload?_moved hpackage hpayload hchildren number
  have hread : (readTypedPayload kind (.node (tag.withoutPayload number) (before ++ payload :: after))
      ((Element.node (tag.withoutPayload number) (before ++ payload :: after)).payloadFields .inline)
      (s'.child position payload)).gist = _ :=
    gist_readTypedPayload_moved hpackage hpayload rfl
  have hid := (Element.agreesOn_withoutPayload tag number children
    (before ++ payload :: after)).identifier?_eq .id (by decide)
  simp only [packagePayload, hs', PayloadFields.gather_eq, Logged.pure_bind, htyped, Logged.gist_bind,
    hread, ← hid]
  cases Diagnostic.hasErrors (payload.checkAttributes (PayloadForm.typed kind).checks) <;> rfl

include hpackage hpayload hchildren hs hs' in
/-- **A package is opened in the same way in both forms.** -/
theorem gist_openChainPackage_moved (env : Env) (scope : Scope) :
    (openChainPackage kind env scope s).gist = (openChainPackage kind env scope s').gist := by
  have hagree := Element.agreesOn_withoutPayload tag number children (before ++ payload :: after)
  have hafter := hagree.value?_eq (.reference "After") (by decide)
  have hargs : argumentsOf (.node tag children) =
      argumentsOf (.node (tag.withoutPayload number) (before ++ payload :: after)) := by
    simp only [argumentsOf]
    rw [hagree.last?_eq (by decide), hagree.last?_eq (by decide), hagree.last?_eq (by decide)]
  have hclose := closePackage_eq hagree (by decide) hargs kind
  have herrors := hasErrors_moved hpayload env.config number (before ++ payload :: after)
  cases hc : scope.cursor with
  | none => simp only [openChainPackage, hc, gist_halt]
  | some cursor =>
    simp only [openChainPackage, hc, Logged.gist_bind, gist_report, hs, hs', herrors, ← hafter,
      ← hclose, gist_packagePayload_untyped hpackage hs,
      gist_packagePayload_moved hpackage hpayload hchildren hs', gist_offerAttributes]
    cases Diagnostic.hasErrors ((Element.node (tag.withoutPayload number)
        (before ++ payload :: after)).checkAttributes (commonChecks ++ kindChecks env.config kind)) <;>
      cases Diagnostic.hasErrors (payload.checkAttributes (PayloadForm.typed kind).checks) <;> rfl

end Moved

/-- A payload element is no package, so that nothing is moved from it. -/
theorem payloadAlike_of_moved {kind : PackageKind} {c c' : Element} (h : c.PayloadsMoved c') :
    PayloadAlike kind c c' := by
  refine ⟨h.sameHead, fun hcore hname => ?_⟩
  cases h with
  | same h => exact ⟨⟨rfl, rfl, rfl, rfl⟩, h.imp fun _ _ => Element.PayloadsMoved.sameHead⟩
  | @moved kind' tag number children before after payload hpackage hpayload h =>
    have hne : kind'.elementName ≠ kind.payloadElementName := by
      cases kind' <;> cases kind <;> decide
    exact absurd ((Element.core_of_qname hpackage.qname).2.symm.trans hname) hne

/-- Sites that are opened by a rule, where payloads are moved. The position counts for the boundaries
of a chain only. -/
structure MovedSite (rule : Rule) (s s' : Site) : Prop where
  element : s.element.PayloadsMoved s'.element
  position : rule = .rollbackBoundary → s.position = s'.position
  parent : s.parent.name = s'.parent.name
  package : ∀ kind : PackageKind, s.element.qname = QName.core kind.elementName →
    rule = .chainPackage kind

theorem gist_open_movedSite {rule : Rule} {s s' : Site} (h : MovedSite rule s s') (env : Env)
    (scope : Scope) : (rule.open env scope s).gist = (rule.open env scope s').gist := by
  obtain ⟨e, position, ancestors⟩ := s
  obtain ⟨e', position', ancestors'⟩ := s'
  cases h.element with
  | @moved kind tag number children before after payload hpackage hpayload hchildren =>
    rw [h.package kind hpackage.qname]
    exact gist_openChainPackage_moved hpackage hpayload hchildren rfl rfl env scope
  | @same tag number children children' hchildren =>
    have htag : (Element.node tag children).SameTag (.node { tag with number } children') :=
      ⟨rfl, rfl, rfl, rfl⟩
    exact Logged.gist_eq_of_bare (bare_open_of_children htag
      (fun _ => hchildren.imp fun _ _ => payloadAlike_of_moved) rule env scope h.position h.parent)

/-! ### Plans -/

/-- The steps for an element come to the same if payloads are moved. -/
def Unmoved (config : Config) (e : Element) : Prop :=
  ∀ unit depth rule scope (s s' : Site), s.element = e → MovedSite rule s s' →
    (planElement config unit depth rule scope s.position s.ancestors s.element).gist =
      (planElement config unit depth rule scope s'.position s'.ancestors s'.element).gist

section Children
variable {config : Config} {unit : Option SectionKind} {depth : Nat} {content : Content}
  {s s' : Site} (hparent : s.element.name = s'.element.name)
include hparent

theorem gist_planChildren_cons {child child' : Element} (hc : child.PayloadsMoved child')
    (hchild : Unmoved config child) {rest rest' : List Element} {position position' : Nat}
    {seen seen' : List String}
    (hposition : ∀ name, content.Gives name .rollbackBoundary → position = position')
    (hseen : child.isCore → seen.contains child.name = seen'.contains child.name)
    (hforeign : ∀ scope,
      (planChildren config unit depth content s scope (position + 1) seen rest).gist =
        (planChildren config unit depth content s' scope (position' + 1) seen' rest').gist)
    (hcore : child.isCore → ∀ scope,
      (planChildren config unit depth content s scope (position + 1) (child.name :: seen) rest).gist =
        (planChildren config unit depth content s' scope (position' + 1) (child.name :: seen')
          rest').gist) (scope : Scope) :
    (planChildren config unit depth content s scope position seen (child :: rest)).gist =
      (planChildren config unit depth content s' scope position' seen' (child' :: rest')).gist := by
  have hhead := hc.sameHead
  rw [planChildren, planChildren, ← hhead.isCore]
  cases hchildCore : child.isCore with
  | false => simp [hforeign]
  | true =>
    simp only [Bool.not_true, Bool.false_eq_true, ↓reduceIte, ← hhead.name]
    rcases admissionOf_cases content s.element s'.element hhead.name
        (hseen hchildCore) with ⟨d, d', hadm, hadm', hd, hd'⟩ | ⟨hadm, hadm'⟩ | ⟨rule, hadm, hadm'⟩
    · simp [hadm, hadm', Diagnostic.hasErrors, hd, hd']
    · simp only [hadm, hadm', hcore hchildCore]
    · have hsite : MovedSite rule (s.child position child) (s'.child position' child') :=
        { element := hc
          position := by rintro rfl; exact hposition _ (gives_of_accept hadm)
          parent := hparent
          package := fun kind => chainPackage_of_gives (gives_of_accept hadm) }
      have hplan := hchild unit (depth + 1) rule scope _ _ rfl hsite
      simp only [Site.child] at hplan
      simp only [hadm, hadm', Logged.gist_ite, Logged.gist_bind, hplan, hcore hchildCore]

/-- Children come to the same from any position on, if no boundary is among them. -/
theorem gist_planChildren_moved {children children' : List Element}
    (h : List.Forall₂ Element.PayloadsMoved children children') :
    (∀ child ∈ children, Unmoved config child) → ∀ (position position' : Nat)
      (seen seen' : List String) (scope : Scope),
      (∀ name, content.Gives name .rollbackBoundary → position = position') →
      (∀ child ∈ children, child.isCore → seen.contains child.name = seen'.contains child.name) →
        (planChildren config unit depth content s scope position seen children).gist =
          (planChildren config unit depth content s' scope position' seen' children').gist := by
  induction h with
  | nil =>
    intro _ position position' seen seen' scope _ _
    rw [planChildren, planChildren]
  | @cons child child' rest rest' hc hrest ih =>
    intro hplans position position' seen seen' scope hposition hseen
    obtain ⟨hplan, hplans⟩ := List.forall_mem_cons.mp hplans
    obtain ⟨hhere, hseen⟩ := List.forall_mem_cons.mp hseen
    have hnext : ∀ name, content.Gives name .rollbackBoundary → position + 1 = position' + 1 :=
      fun name hname => congrArg (· + 1) (hposition name hname)
    refine gist_planChildren_cons hparent hc hplan hposition hhere
      (fun scope => ih hplans _ _ _ _ scope hnext hseen)
      (fun _ scope => ih hplans _ _ _ _ scope hnext fun c hmem hcore => ?_) scope
    rw [List.contains_cons, List.contains_cons, hseen c hmem hcore]

/-- The new payload element is skipped, as it was read together with the package. -/
theorem gist_planChildren_insert {kind : PackageKind} {payload : Element}
    (hpayload : payload.qname = QName.core kind.payloadElementName) {after : List Element} :
    ∀ {before children : List Element},
      List.Forall₂ Element.PayloadsMoved children (before ++ after) →
      (∀ child ∈ children, Unmoved config child) →
      (∀ child ∈ children, child.isCore → child.name ≠ kind.payloadElementName) →
      ∀ (position : Nat) (seen : List String) (scope : Scope),
        seen.contains kind.payloadElementName = false →
        (planChildren config unit depth (.package kind) s scope position seen children).gist =
          (planChildren config unit depth (.package kind) s' scope position seen
            (before ++ payload :: after)).gist := by
  intro before
  induction before with
  | nil =>
    intro children h hplans hne position seen scope hseen
    obtain ⟨hcore, hname⟩ := Element.core_of_qname hpayload
    have hentry : Content.entry? (.package kind) kind.payloadElementName = some .absorbed := by
      cases kind <;> decide
    have hboundary : ∀ name, ¬ (Content.package kind).Gives name .rollbackBoundary := by
      rintro name ⟨entry, hmem, hrule⟩
      have hall : ∀ p ∈ (Content.package kind).entries, p.2.rule? ≠ some .rollbackBoundary := by
        cases kind <;> decide
      exact hall _ hmem hrule
    have hskip : admissionOf (.package kind) seen s'.element payload = .skip := by
      simp only [admissionOf, hname, hentry, hseen, Bool.false_eq_true, ↓reduceIte]
    rw [List.nil_append, planChildren]
    simp only [hcore, Bool.not_true, Bool.false_eq_true, ↓reduceIte, hskip, hname]
    refine gist_planChildren_moved hparent h hplans _ _ _ _ scope
      (fun name hgives => absurd hgives (hboundary name)) fun c hmem hcore => ?_
    rw [List.contains_cons, beq_eq_false_iff_ne.mpr (hne c hmem hcore), Bool.false_or]
  | cons child' before ih =>
    intro children h hplans hne position seen scope hseen
    cases h with
    | @cons child _ rest _ hc hrest =>
      obtain ⟨hplan, hplans⟩ := List.forall_mem_cons.mp hplans
      obtain ⟨hhere, hne⟩ := List.forall_mem_cons.mp hne
      refine gist_planChildren_cons hparent hc hplan (fun _ _ => rfl) (fun _ => rfl)
        (fun scope => ih hrest hplans hne _ _ scope hseen)
        (fun hcore scope => ih hrest hplans hne _ _ scope ?_) scope
      rw [List.contains_cons, beq_eq_false_iff_ne.mpr (hhere hcore).symm, hseen, Bool.false_or]

end Children

theorem unmoved (config : Config) (e : Element) : Unmoved config e := by
  induction e using Element.induct with
  | node tag children ih =>
    intro unit depth rule scope s s' hs h
    obtain ⟨_, position, ancestors⟩ := s
    obtain ⟨⟨tag', children'⟩, position', ancestors'⟩ := s'
    cases hs
    rw [planElement, planElement]
    refine Logged.gist_bind_eq (gist_open_movedSite h ⟨config, unit⟩ scope) ?_
    cases hb : (rule.open ⟨config, unit⟩ scope ⟨.node tag children, position, ancestors⟩).value.body with
    | none => rfl
    | some body =>
      dsimp only
      refine Logged.gist_bind_eq ?_ rfl
      have hname := h.element.sameHead.name
      cases h.element with
      | same hchildren =>
        exact gist_planChildren_moved hname hchildren ih _ _ _ _ _ (fun _ _ => rfl)
          fun _ _ _ => rfl
      | @moved kind _ _ _ before after payload hpackage hpayload hchildren =>
        have hcontent : body.content = .package kind := by
          rw [((leads_open _ _ _ _).body body hb).1, h.package kind hpackage.qname]
          rfl
        rw [hcontent]
        exact gist_planChildren_insert hname hpayload.qname hchildren ih
          (fun _ => ne_payload_of_mem hpackage) _ _ _ rfl

/-- Documents in which payloads are moved have plans that come to the same. -/
theorem gist_plan_moved (config : Config) {root root' : Element} (h : root.PayloadsMoved root') :
    Step.gist (plan config root) = Step.gist (plan config root') := by
  have hhead := h.sameHead
  unfold plan
  rw [← hhead.qname]
  split_ifs with hroot
  · simp [wrongRoot, ← hhead.range, ← hhead.qname]
  · cases h with
    | @same tag number children children' h =>
      have htag : (Element.node tag children).SameTag (.node { tag with number } children') :=
        ⟨rfl, rfl, rfl, rfl⟩
      have hchildren : (planChildren config none 0 .document (Site.root (.node tag children)) {} 0 []
          (Element.node tag children).children).gist =
            (planChildren config none 0 .document (Site.root (.node { tag with number } children')) {} 0
              [] (Element.node { tag with number } children').children).gist :=
        gist_planChildren_moved hhead.name h (fun child _ => unmoved config child) 0 0 [] [] {}
          (fun _ _ => rfl) fun _ _ _ => rfl
      refine (Logged.gist_eq_iff.mp ?_).1
      simp [htag.agrees.checkAttributes_eq, hchildren]
    | @moved kind _ _ _ _ _ _ hpackage hpayload h =>
      rw [hpackage.qname] at hroot
      cases kind <;> exact absurd rfl hroot

end Compile

/-- **The two forms of payloads agree.** Let the attributes that describe the payloads of some packages,
none of which has a `Compressed` attribute or a typed payload element, be moved to new typed payload
elements. Without extensions the new document delivers an intermediate if and only if the old one does,
and the same one. -/
theorem Compiler.payload_forms_agree {c : Compiler} {k : UInt32} {root root' : Element}
    (hc : c.extensions = []) (h : root.PayloadsMoved root') (x : Intermediate) :
    c.Delivers k root x ↔ c.Delivers k root' x := by
  have hgist := gist_plan_moved c.config h
  exact ⟨delivers_of_gist hc hgist, delivers_of_gist hc hgist.symm⟩

namespace Sample

/-- A package with two more payloads and the given elements between them, in a group. -/
def described (attributes : List (String × String)) (between : List Element) : Element :=
  element "Wix" [] [
    element "Fragment" [("Id", "F")] [
      element "PackageGroup" [("Id", "G")] [
        element "ExePackage" attributes (
          [element "Payload" [("SourceFile", "a.txt")] []] ++ between ++
            [element "Payload" [("SourceFile", "b.txt")] []])]]]

/-- A package that describes its payload itself. -/
def selfDescribed : Element :=
  described [("Id", "E"), ("Name", "setup.exe"), ("Permanent", "yes"), ("SourceFile", "e.exe"),
    ("DownloadUrl", "http://host/e.exe")] []

/-- The package with a typed payload element. -/
def typed : Element :=
  described [("Id", "E"), ("Permanent", "yes")] [
    element "ExePackagePayload" [("Name", "setup.exe"), ("SourceFile", "e.exe"),
      ("DownloadUrl", "http://host/e.exe")] []]

theorem payloadsMoved_typed : selfDescribed.PayloadsMoved typed := by
  refine .same (.cons (.same (.cons (.same (.cons ?_ .nil)) .nil)) .nil)
  exact @Element.PayloadsMoved.moved .exe _ _ _ [element "Payload" [("SourceFile", "a.txt")] []]
    [element "Payload" [("SourceFile", "b.txt")] []] _
    ⟨rfl, .inl (by decide), by decide, by decide⟩ ⟨rfl, by decide, rfl⟩
    (.cons (.same .nil) (.cons (.same .nil) .nil))

end Sample

/-- A payload that is moved between two others, under a name of its own. -/
theorem payload_forms_agree_typed :
    Sample.selfDescribed.PayloadsMoved Sample.typed ∧
      ∃ x, Compiler.Delivers {} 0 Sample.selfDescribed x ∧ Compiler.Delivers {} 0 Sample.typed x ∧
        x.symbols.length = 5 := by
  have hx : Compiler.Delivers {} 0 Sample.selfDescribed _ := ⟨_, rfl, by decide +kernel, rfl⟩
  exact ⟨Sample.payloadsMoved_typed, _, hx,
    (Compiler.payload_forms_agree rfl Sample.payloadsMoved_typed _).mp hx, by decide +kernel⟩

end Installer
