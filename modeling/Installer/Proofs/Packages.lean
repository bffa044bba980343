import Installer.Proofs.Agreement
import Installer.Proofs.AttributeOrder
import Installer.Proofs.Walk

/-! # Packages that agree

The opening of a package depends on its attributes and on the child that authors its payload. Two packages
are opened in the same way if they agree on the attributes that are read by name, if they have the same
command lines and if their children are alike (`Compile.bare_openChainPackage`). -/

namespace Installer

open Compile Planned

namespace Element

/-- The elements have the same name, place and text. -/
abbrev SameHead (e e' : Element) : Prop := AgreesOn (fun _ => false) e e'

theorem AgreesOn.sameHead {p : String → Bool} {e e' : Element} (h : e.AgreesOn p e') :
    e.SameHead e' :=
  ⟨h.qname, h.range, h.text, by simp⟩

section Tags
variable {e e' : Element} (h : { e'.tag with attributes := e.attributes } = e.tag)
include h

/-- Tags that differ in their attributes alone have the same heads. -/
theorem sameHead_of_tag : e.SameHead e' where
  qname := by rw [qname, ← h]; rfl
  range := by rw [range, ← h]; rfl
  text := by rw [text, ← h]; rfl
  attributes := by simp

theorem sameTag_of_attributes (ha : e'.attributes = e.attributes) : e.SameTag e' :=
  have hhead := sameHead_of_tag h
  ⟨hhead.qname, hhead.range, hhead.text, ha.symm⟩

end Tags

end Element

namespace Compile

/-! ### Details -/

/-- The attributes that the details of packages are read from, command lines apart. -/
def detailNames : List String := [
  "Cache", "CacheId", "Description", "DisplayName", "InstallCondition", "LogPathVariable",
  "RollbackLogPathVariable", "Permanent", "Vital", "Visible", "PerMachine", "DisplayInternalUI",
  "EnableFeatureSelection", "ForcePerMachine", "SuppressLooseFilePayloadGeneration", "Slipstream",
  "KB", "DetectCondition", "ArpEntry", "RepairCondition", "Protocol"]

section Details
variable {p : String → Bool} {e e' : Element} (h : e.AgreesOn p e')
  (hp : ∀ name ∈ detailNames, p name) (hargs : argumentsOf e = argumentsOf e')
include h hp hargs

theorem packageSteps_eq (kind : Symbol.PackageKind) : packageSteps kind e = packageSteps kind e' := by
  have hyesNo : ∀ name ∈ detailNames, e.value? (.yesNo name) = e'.value? (.yesNo name) :=
    fun name hname => h.value?_eq _ (hp name hname)
  have htext : ∀ name ∈ detailNames, e.value? (.text name) = e'.value? (.text name) :=
    fun name hname => h.value?_eq _ (hp name hname)
  have hanyText : ∀ name ∈ detailNames, e.value? (.anyText name) = e'.value? (.anyText name) :=
    fun name hname => h.value?_eq _ (hp name hname)
  have hchoice : ∀ (α : Type) [Choice α], ∀ name ∈ detailNames,
      e.value? (.choice α name) = e'.value? (.choice α name) :=
    fun α _ name hname => h.value?_eq _ (hp name hname)
  have hexclusive := h.mutuallyExclusive_eq (hp "DetectCondition" (by decide))
    (hp "ArpEntry" (by decide))
  have hpermanent : isPermanent e = isPermanent e' := by
    simp (disch := decide) only [isPermanent, hyesNo]
  have hdetails : ∀ entry, detailsOf e entry kind = detailsOf e' entry kind := by
    intro entry
    cases kind <;> simp (disch := decide) only [detailsOf, detectionOf, hyesNo, htext, hchoice,
      hexclusive, hargs, hpermanent, h.missingAttribute_eq, h.expectedAttributeOrElement_eq]
  have hvisible : visibleOf e kind = visibleOf e' kind := by
    unfold visibleOf
    rw [hpermanent, h.valueIn?_eq _ fun _ => hp "Visible" (by decide)]
  have hmachine : perMachineOf e kind = perMachineOf e' kind := by
    unfold perMachineOf
    rw [h.valueIn?_eq _ fun _ => hp "PerMachine" (by decide)]
  funext payload entry
  simp (disch := decide) only [packageSteps, hdetails, hvisible, hmachine, hpermanent, hyesNo, htext,
    hanyText, hchoice]

theorem closePackage_eq (kind : Symbol.PackageKind) : closePackage kind e = closePackage kind e' := by
  funext payload inner
  simp only [closePackage, packageSteps_eq h hp hargs kind]

end Details

/-! ### Payloads -/

/-- Of the children of an element that has to be empty, the core ones are unexpected and the others
are not handled. -/
theorem bare_scanChildren_eq (s : Site) (context : Context) : (scanChildren s context).bare =
    report (s.element.children.map fun c =>
      if c.isCore then s.element.unexpectedElement c else s.element.unhandledElement c) := by
  have hmap : ∀ l : List (Element × Nat), (l.map fun c =>
      if c.1.isCore then Step.report (s.element.unexpectedElement c.1)
      else .offer (.ofElement s (s.child c.2 c.1)) context).map Step.bare =
        ((l.map (·.1)).map fun c => if c.isCore then s.element.unexpectedElement c
          else s.element.unhandledElement c).map .report := by
    intro l
    rw [List.map_map, List.map_map, List.map_map]
    refine List.map_congr_left fun c _ => ?_
    simp only [Function.comp_apply]
    split_ifs <;> rfl
  rw [scanChildren, Logged.bare_tell, hmap, List.zipIdx_map_fst, report]

theorem forall₂_filter {α : Type} {R : α → α → Prop} {l l' : List α} (h : List.Forall₂ R l l')
    {q : α → Bool} (hq : ∀ {a b}, R a b → q a = q b) :
    List.Forall₂ (fun a b => R a b ∧ q a) (l.filter q) (l'.filter q) := by
  induction h with
  | nil => exact .nil
  | @cons a b l l' hab _ ih =>
    rw [List.filter_cons, List.filter_cons, ← hq hab]
    split_ifs with ha
    · exact .cons ⟨hab, ha⟩ ih
    · exact ih

theorem map_eq_of_forall₂ {α β γ : Type} {R : α → β → Prop} {l : List α} {l' : List β}
    (h : List.Forall₂ R l l') {f : α → γ} {g : β → γ} (hfg : ∀ {a b}, R a b → f a = g b) :
    l.map f = l'.map g := by
  rw [← List.forall₂_eq_eq_eq, List.forall₂_map_left_iff, List.forall₂_map_right_iff]
  exact h.imp fun _ _ => hfg

theorem exists_of_forall₂ {α β : Type} {R : α → β → Prop} {l : List α} {l' : List β}
    (h : List.Forall₂ R l l') {b : β} (hb : b ∈ l') : ∃ a ∈ l, R a b := by
  induction h with
  | nil => cases hb
  | @cons a b' l l' hab hl ih =>
    rcases List.mem_cons.mp hb with rfl | hb
    · exact ⟨a, List.mem_cons_self, hab⟩
    · obtain ⟨a', ha', hr⟩ := ih hb
      exact ⟨a', List.mem_cons_of_mem _ ha', hr⟩

theorem of_typedPayload? {e c : Element} {kind : Symbol.PackageKind} {position : Nat}
    (h : typedPayload? e kind = some (c, position)) :
    c.isCore ∧ c.name = kind.payloadElementName := by
  simpa using List.find?_some h

/-- Children that are alike as far as a package looks at them: they have the same heads, and the child
that authors the payload has the same tag and children with the same heads. -/
structure PayloadAlike (kind : Symbol.PackageKind) (c c' : Element) : Prop where
  head : c.SameHead c'
  typed : c.isCore → c.name = kind.payloadElementName →
    c.SameTag c' ∧ List.Forall₂ Element.SameHead c.children c'.children

section Payloads
variable {p : String → Bool} {s s' : Site} (h : s.element.AgreesOn p s'.element)
  {kind : Symbol.PackageKind}
include h

theorem bare_readTypedPayload {c c' : Site} (hc : c.element.SameTag c'.element)
    (hchildren : List.Forall₂ Element.SameHead c.element.children c'.element.children)
    (inline : PayloadFields) : (readTypedPayload kind s.element inline c).bare =
      (readTypedPayload kind s'.element inline c').bare := by
  have ha := hc.agrees
  have hexclusive : s.element.elementWithAttribute c.element =
      s'.element.elementWithAttribute c'.element := by
    funext name
    simp only [Element.elementWithAttribute, h.qualify_eq, h.name, ha.name, ha.range]
  have hscan : ∀ context, (scanChildren c context).bare = (scanChildren c' context).bare := by
    intro context
    rw [bare_scanChildren_eq, bare_scanChildren_eq]
    refine congrArg report (map_eq_of_forall₂ hchildren fun {a b} hab => ?_)
    simp only [Element.unexpectedElement, Element.unhandledElement, Element.qualifyChild, ha.name,
      hab.name, hab.range, hab.isCore, hab.qname]
  simp only [readTypedPayload, PayloadFields.gather_eq, Logged.bare_bind, bare_report,
    Logged.bare_pure, hexclusive, ha.checkAttributes_eq, ha.payloadFields_eq _ (fun _ _ => rfl),
    resolve_eq ha, bare_offerAttributes_eq hc, hscan]

theorem bare_packagePayload_eq (hp : ∀ name ∈ "Id" :: sourceNames, p name)
    (hchildren : List.Forall₂ (PayloadAlike kind) s.element.children s'.element.children) :
    (packagePayload kind s).bare = (packagePayload kind s').bare := by
  have hid := h.identifier?_eq Field.id (hp "Id" (by decide))
  have hfields := h.payloadFields_eq .inline fun name hname => hp name (List.mem_cons_of_mem _ hname)
  unfold packagePayload
  rcases typedPayload?_cases (fun hc => ⟨hc.head.isCore, hc.head.name⟩) hchildren kind with
    ⟨ht, ht'⟩ | ⟨c, c', position, ht, ht', hc⟩
  · simp only [ht, ht', hid, PayloadFields.gather_eq, hfields,
      h.expectedAttributeOrElement_eq]
  · obtain ⟨hcore, hname⟩ := of_typedPayload? ht
    obtain ⟨htag, hheads⟩ := hc.typed hcore hname
    have hread : ∀ inline : PayloadFields,
        (readTypedPayload kind s.element inline (s.child position c)).bare =
          (readTypedPayload kind s'.element inline (s'.child position c')).bare :=
      bare_readTypedPayload h htag hheads
    simp only [ht, ht', hid, PayloadFields.gather_eq, hfields, Logged.bare_bind,
      hread, Logged.bare_pure]

end Payloads

/-- The attributes of packages that are looked for by name, command lines apart. -/
def packageNames : List String := "Id" :: "After" :: sourceNames ++ detailNames

/-- **Packages that agree are opened in the same way.** -/
theorem bare_openChainPackage {p : String → Bool} {s s' : Site}
    (h : s.element.AgreesOn p s'.element) (hp : ∀ name ∈ packageNames, p name)
    {kind : Symbol.PackageKind} {env : Env} {scope : Scope}
    (hchecks : s.element.checkAttributes (commonChecks ++ kindChecks env.config kind) =
      s'.element.checkAttributes (commonChecks ++ kindChecks env.config kind))
    (hargs : argumentsOf s.element = argumentsOf s'.element)
    (hforeign : s.element.foreignAttributes = s'.element.foreignAttributes)
    (hchildren : List.Forall₂ (PayloadAlike kind) s.element.children s'.element.children) :
    (openChainPackage kind env scope s).bare = (openChainPackage kind env scope s').bare := by
  have hsource : ∀ name ∈ "Id" :: sourceNames, name ∈ packageNames := by decide
  have hdetails : ∀ name ∈ detailNames, name ∈ packageNames := by decide
  have hpayload := bare_packagePayload_eq h (fun name hname => hp name (hsource name hname)) hchildren
  have hclose := closePackage_eq h (fun name hname => hp name (hdetails name hname)) hargs kind
  have hafter := h.value?_eq (.reference "After") (hp "After" (by decide))
  cases hc : scope.cursor with
  | none => simp only [openChainPackage, hc]
  | some cursor =>
    simp only [openChainPackage, hc, Logged.bare_bind, bare_report, hchecks, hpayload, bare_register,
      hafter, bare_offerAttributes, hforeign, h.unhandledAttribute_eq, bare_within, Logged.bare_pure,
      hclose]

/-- Elements with one tag are opened in the same way, whatever the rule, if their children are alike. -/
theorem bare_open_of_children {s s' : Site} (h : s.element.SameTag s'.element)
    (hchildren : ∀ kind, List.Forall₂ (PayloadAlike kind) s.element.children s'.element.children)
    (rule : Rule) (env : Env) (scope : Scope)
    (hposition : rule = .rollbackBoundary → s.position = s'.position)
    (hparent : s.parent.name = s'.parent.name) :
    (rule.open env scope s).bare = (rule.open env scope s').bare := by
  have ha := h.agrees
  by_cases hrule : ∃ kind, rule = .chainPackage kind
  · obtain ⟨kind, rfl⟩ := hrule
    have hargs : argumentsOf s.element = argumentsOf s'.element := by
      unfold argumentsOf
      simp only [ha.last?_eq (fun _ _ => rfl)]
    exact bare_openChainPackage ha (fun _ _ => rfl) (ha.checkAttributes_eq _) hargs
      h.foreignAttributes (hchildren kind)
  · exact bare_open_of_tag h (fun kind hkind => hrule ⟨kind, hkind⟩) env scope hposition hparent

/-- Packages are read by the rule for their kind. -/
theorem chainPackage_of_gives {content : Content} {e : Element} {rule : Rule}
    (h : content.Gives e.name rule) {kind : Symbol.PackageKind}
    (hname : e.qname = QName.core kind.elementName) : rule = .chainPackage kind := by
  have hnamed : Rule.named? kind.elementName = some (.chainPackage kind) := by
    cases kind <;> decide +kernel
  have hrule := Rule.named?_of_gives h
  rw [(Element.core_of_qname hname).2, hnamed] at hrule
  exact (Option.some.inj hrule).symm

end Compile

end Installer
