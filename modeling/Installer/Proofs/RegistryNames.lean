import Installer.Proofs.Announcements
import Installer.Proofs.Discriminators
import Installer.Proofs.Leaves
import Installer.Proofs.LetterCase

/-! # Names of registry values

A registry value without an identifier gets a name that is computed from its component, its root, the
lower-case form of its key and its name (`Symbol.Registry.discriminators`). So the case of ASCII letters in
the key does not matter, whereas a difference in one of these four changes the bytes that are hashed. This
holds of every element for which a plan defines a registry value (`Compile.registry_of_ascribed`), with
errors or without, and the values of an output are all among these (`Compiler.exists_ascribed_of_symbol`). -/

namespace Installer

open Compile Planned

open Installer.Symbol (Registry RegistryRoot)

/-- The values that tell registry values apart. -/
def Symbol.Registry.discriminators (r : Registry) : List String :=
  [r.component, Choice.keyword r.root, Text.lowerCase r.key, r.name.getD ""]

theorem Symbol.RegistryRoot.keyword_inj {a b : RegistryRoot}
    (h : Choice.keyword a = Choice.keyword b) : a = b := by
  cases a <;> cases b <;> simp [Choice.keyword] at h ⊢

theorem Symbol.Registry.discriminators_eq_iff {r r' : Registry} :
    r.discriminators = r'.discriminators ↔ r.component = r'.component ∧ r.root = r'.root ∧
      Text.lowerCase r.key = Text.lowerCase r'.key ∧ r.name.getD "" = r'.name.getD "" := by
  have hroot : Choice.keyword r.root = Choice.keyword r'.root ↔ r.root = r'.root :=
    ⟨RegistryRoot.keyword_inj, congrArg _⟩
  simp [discriminators, hroot]

/-! ### Elements that define registry values -/

namespace Compile

variable {config : Config} {root : Element} {path : List Nat} {id : Identifier} {r : Registry}

/-- The symbol that the element of a registry value defines in the end. -/
theorem close_registryValue {env : Env} {scope inner : Scope} {site : Site} {body : Body}
    (hbody : (Rule.registryValue.open env scope site).value.body = some body)
    (h : .emit id (.registry r) ∈ body.close inner) :
    id = (site.element.identifier? .id).getD
      (.ofName (Identifier.synthesize "reg" r.discriminators)) := by
  simp only [Rule.open, openRegistryValue] at hbody
  split at hbody
  · cases hbody
  · cases hbody
    cases List.mem_singleton.mp h
    rfl

/-- Registry values are defined for elements of their name, and for those without an identifier under
the name that is computed for them. -/
theorem registry_of_ascribed (h : (path, .emit id (.registry r)) ∈ ascribed config root) :
    ∃ site, (Site.root root).descend? path = some site ∧
      site.element.qname = QName.core "RegistryValue" ∧
      id = (site.element.identifier? .id).getD
        (.ofName (Identifier.synthesize "reg" r.discriminators)) := by
  obtain ⟨site, hsite, hvisit⟩ := exists_visit_of_emit h
  have hdefined : (id, .registry r) ∈ (atPath path (ascribed config root)).filterMap Step.symbol? :=
    List.mem_filterMap.mpr ⟨_, mem_atPath h, rfl⟩
  have hasides : ∀ rule : Rule, SymbolKind.registry ∉ rule.asides := by
    intro rule
    cases rule <;> simp [Rule.asides]
  refine ⟨site, hsite, ?_⟩
  generalize atPath path (ascribed config root) = steps at hvisit hdefined
  cases hvisit with
  | @left rule unit scope hcore hname hbody =>
    have hrule := introduces_open site scope rule ⟨config, unit⟩
    exact absurd (hrule.log _ hdefined) (hasides rule)
  | @entered rule unit scope inner body l hcore hname hbody hl =>
    have hrule := introduces_open site scope rule ⟨config, unit⟩
    rw [List.filterMap_append, List.filterMap_append, symbol_of_dispatches hl, List.nil_append,
      List.mem_append] at hdefined
    rcases hdefined with hlog | hclose
    · exact absurd (hrule.log _ hlog) (hasides rule)
    · have hnamesake : SymbolKind.registry ∈ rule.namesakes :=
        (hrule.kind_of_mem_close hbody hclose).resolve_left (hasides rule)
      have hleaf : Rule.registryValue.IsLeaf "RegistryValue" .registry := Rule.isLeaf_of_leaf? rfl
      obtain rfl : rule = .registryValue :=
        hleaf.other rule (List.mem_append_right _ hnamesake)
      obtain ⟨s, hs, hemit⟩ := List.mem_filterMap.mp hclose
      have hemit : s = .emit id (.registry r) := by
        cases s <;> cases hemit
        rfl
      rw [hemit] at hs
      have hvalue : site.element.name = "RegistryValue" :=
        (hleaf.name_iff hname).mpr rfl
      rw [Element.qname_eq_core hcore, hvalue]
      exact ⟨rfl, close_registryValue hbody hs⟩

end Compile

/-- Without the attribute there is no authored identifier. -/
theorem Element.identifier?_of_not_has {e : Element} (h : e.has "Id" = false) :
    e.identifier? .id = none := by
  have hlast : e.last? ["Id"] = none := by
    refine Option.eq_none_iff_forall_ne_some.mpr fun a ha => ?_
    rw [exists_last?_iff.mp ⟨a, ha⟩] at h
    cases h
  simp [identifier?, Field.id, hlast]

/-! ### Outputs -/

/-- Every symbol of an output that is not from an extension is defined for an element. -/
theorem Compiler.exists_ascribed_of_symbol {c : Compiler} {k : UInt32} {root : Element} {o : Output}
    (h : (c.compileAs k root).result = .ok o) {s : Symbol} (hmem : s ∈ o.intermediate.symbols)
    (hkind : s.data.kind ≠ .extensionData) :
    ∃ path, (path, .emit s.id s.data) ∈ ascribed c.config root := by
  by_cases hs : o.isSuccess
  · obtain ⟨hh, rfl⟩ := Run.result_eq_ok_iff.mp h
    have he : (Run.steps c.extensions { compilation := k } (plan c.config root)).hasErrors = false := by
      simpa [Output.isSuccess, Run.hasErrors] using hs
    have hrecords := Run.steps_records c.extensions (scoped_plan c.config root) (Run.ready_start k)
    rw [Run.settle_of_not_hasErrors he] at hmem
    have hasked := List.mem_map_of_mem (f := Symbol.asked) hmem
    rw [hrecords.symbols he, List.map_nil, List.nil_append] at hasked
    have hdefined : (s.id, s.data) ∈
        Run.definitions c.extensions { compilation := k } (plan c.config root) :=
      List.mem_map_of_mem (f := (·.2)) hasked
    have hplan := (Run.kind_or_mem_of_mem_definitions hh hdefined).resolve_left hkind
    obtain ⟨step, hstep, hsymbol⟩ := List.mem_filterMap.mp hplan
    rw [← map_ascribed] at hstep
    obtain ⟨⟨path, step'⟩, hascribed, rfl⟩ := List.mem_map.mp hstep
    refine ⟨path, ?_⟩
    cases step' <;> cases hsymbol
    exact hascribed
  · rw [intermediate_eq_empty h hs] at hmem
    cases hmem

/-- **The names of registry values ignore the case of ASCII letters in keys.** Registry values of outputs are
defined for elements. If two elements, of one document or of two, have no identifiers, then they get the
same one whenever their keys differ in the case of ASCII letters only. What is hashed for the identifier are
the bytes of the discriminators. If the elements differ in their components, roots, names or the lower-case
forms of their keys, and the lengths of these can be written, then these bytes are different. -/
theorem registry_names_ignore_letter_case {config config' : Config} {root root' : Element}
    {path path' : List Nat} {site site' : Site} {id id' : Identifier} {r r' : Registry}
    (h : (path, .emit id (.registry r)) ∈ ascribed config root)
    (hsite : (Site.root root).descend? path = some site) (hid : site.element.has "Id" = false)
    (h' : (path', .emit id' (.registry r')) ∈ ascribed config' root')
    (hsite' : (Site.root root').descend? path' = some site')
    (hid' : site'.element.has "Id" = false) :
    (∀ c k o, c.config = config → (Compiler.compileAs c k root).result = .ok o →
      ∀ s ∈ o.intermediate.symbols, s.kind = .registry →
        ∃ path, (path, .emit s.id s.data) ∈ ascribed config root) ∧
    site.element.qname = QName.core "RegistryValue" ∧
    id = .ofName (Identifier.synthesize "reg" r.discriminators) ∧
    Identifier.synthesize "reg" r.discriminators = "reg" ++ String.ofList (Text.hexDigits 32
      (Hash.Xxh3.digest ⟨(Identifier.discriminatorBytes r.discriminators).toArray⟩).toNat) ∧
    (r.component = r'.component → r.root = r'.root → r.name.getD "" = r'.name.getD "" →
      Text.SameLetters r.key r'.key → id = id') ∧
    ((∀ v ∈ r.discriminators ++ r'.discriminators, v.utf8ByteSize < 2 ^ 64) →
      r.component ≠ r'.component ∨ r.root ≠ r'.root ∨
        Text.lowerCase r.key ≠ Text.lowerCase r'.key ∨ r.name.getD "" ≠ r'.name.getD "" →
      Identifier.discriminatorBytes r.discriminators ≠
        Identifier.discriminatorBytes r'.discriminators) := by
  obtain ⟨_, hsome, hname, heq⟩ := registry_of_ascribed h
  obtain rfl := Option.some.inj (hsite.symm.trans hsome)
  obtain ⟨_, hsome', -, heq'⟩ := registry_of_ascribed h'
  obtain rfl := Option.some.inj (hsite'.symm.trans hsome')
  rw [Element.identifier?_of_not_has hid] at heq
  rw [Element.identifier?_of_not_has hid'] at heq'
  refine ⟨?_, hname, heq, rfl, ?_, ?_⟩
  · rintro c k o rfl hresult s hs hkind
    refine Compiler.exists_ascribed_of_symbol hresult hs ?_
    rw [← Symbol.kind, hkind]
    decide
  · intro hcomponent hroot hvalue hkey
    have hsame : r.discriminators = r'.discriminators :=
      Registry.discriminators_eq_iff.mpr ⟨hcomponent, hroot, hkey.lowerCase_eq, hvalue⟩
    rw [heq, heq', hsame]
  · intro hmeasured hdiffer hbytes
    obtain ⟨hr, hr'⟩ := List.forall_mem_append.mp hmeasured
    have hsame := Identifier.discriminatorBytes_inj hr hr' hbytes
    obtain ⟨hcomponent, hroot, hkey, hvalue⟩ := Registry.discriminators_eq_iff.mp hsame
    rcases hdiffer with hne | hne | hne | hne
    · exact hne hcomponent
    · exact hne hroot
    · exact hne hkey
    · exact hne hvalue

namespace Sample

/-- Three registry values without identifiers. The keys of the first two, one of them in two parts, are the
same but for the case of some letters around capital sigmas. -/
def unnamedValues : Element :=
  element "Wix" [] [
    element "Module" [("Id", "M"), ("Language", "1033"), ("Version", "1.0")] [
      element "Component" [("Id", "C")] [
        element "RegistryValue" [("Root", "HKLM"), ("Key", "ΣaΣ\\TOOLΣ")] [],
        element "RegistryKey" [("Root", "HKLM"), ("Key", "ΣAΣ")] [
          element "RegistryValue" [("Key", "toolΣ"), ("Name", "")] []],
        element "RegistryValue" [("Root", "HKLM"), ("Key", "ΣaΣ\\TOOLσ")] []]]]

end Sample

/-- The first two are hashed alike, and the third, with a sigma that is not a final one, is not. -/
theorem registry_names_ignore_letter_case_unnamedValues : ∃ id id' id'' r r' r'',
    ([0, 0, 0], .emit id (.registry r)) ∈ ascribed {} Sample.unnamedValues ∧
    ([0, 0, 1, 0], .emit id' (.registry r')) ∈ ascribed {} Sample.unnamedValues ∧
    ([0, 0, 2], .emit id'' (.registry r'')) ∈ ascribed {} Sample.unnamedValues ∧
    r.key = "ΣaΣ\\TOOLΣ" ∧ r'.key = "ΣAΣ\\toolΣ" ∧ r''.key = "ΣaΣ\\TOOLσ" ∧ id = id' ∧
    Identifier.discriminatorBytes r.discriminators ≠
      Identifier.discriminatorBytes r''.discriminators := by
  have h : (ascribed {} Sample.unnamedValues)[2]? = some ([0, 0, 0], .emit _ (.registry _)) := rfl
  have h' : (ascribed {} Sample.unnamedValues)[3]? = some ([0, 0, 1, 0], .emit _ (.registry _)) :=
    rfl
  have h'' : (ascribed {} Sample.unnamedValues)[4]? = some ([0, 0, 2], .emit _ (.registry _)) := rfl
  have hmem := List.mem_of_getElem? h
  have hmem' := List.mem_of_getElem? h'
  have hmem'' := List.mem_of_getElem? h''
  obtain ⟨-, -, -, -, hsame, -⟩ :=
    registry_names_ignore_letter_case hmem rfl (by decide +kernel) hmem' rfl (by decide +kernel)
  obtain ⟨-, -, -, -, -, hdiffer⟩ :=
    registry_names_ignore_letter_case hmem rfl (by decide +kernel) hmem'' rfl (by decide +kernel)
  refine ⟨_, _, _, _, _, _, hmem, hmem', hmem'', by decide +kernel, by decide +kernel,
    by decide +kernel, ?_, ?_⟩
  · exact hsame (by decide +kernel) (by decide +kernel) (by decide +kernel) (by decide +kernel)
  · exact hdiffer (by decide +kernel) (.inr (.inr (.inl (by decide +kernel))))

end Installer
