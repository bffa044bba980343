import Installer.Proofs.PackageSymbols
import Installer.Proofs.WellFormed.Bundles

/-! # Local and remote payloads

A payload is carried along or downloaded. Which of the two it is depends on the attributes that are
there, while its fields are filled from those that can be read; if nothing is wrong with the element, the two
agree (`described_resolve`). So every payload that is defined has a name and either a source file
or all that is needed to download it (`Symbol.Payload.IsSourced`), and the payloads of some kinds of packages
are never remote. -/

namespace Installer

open Compile Planned Element

namespace Symbol.Payload

/-- A payload that is carried along: it has a source file, and nothing that only remote ones have. -/
structure IsLocal (p : Payload) : Prop where
  remote : p.remote = false
  sourceFile : p.sourceFile.isSome
  hash : p.hash = none
  size : p.size = none
  certificatePublicKey : p.certificatePublicKey = none
  certificateThumbprint : p.certificateThumbprint = none
  description : p.description = none
  productName : p.productName = none
  version : p.version = none

/-- A payload that is downloaded: it has no source file, but all that it takes to find it. -/
structure IsRemote (p : Payload) : Prop where
  remote : p.remote = true
  sourceFile : p.sourceFile = none
  name : p.name.isSome
  downloadUrl : p.downloadUrl.isSome
  hash : p.hash.isSome
  size : p.size.isSome

/-- A payload that can be found. -/
structure IsSourced (p : Payload) : Prop where
  name : p.name.isSome
  source : p.IsLocal ∨ p.IsRemote

/-- A payload that can be found by what an element says about it. -/
structure DescribedBy (p : Payload) (e : Element) : Prop where
  sourced : p.IsSourced
  name : p.name = (e.value? (.relativePath "Name")).or (p.sourceFile.map FileName.lastName)
  downloadUrl : p.downloadUrl = e.value? (.text "DownloadUrl")
  sourceFile : p.remote = false →
    p.sourceFile = (e.value? (.text "SourceFile")).or (e.value? (.relativePath "Name"))

end Symbol.Payload

/-! ### Payloads of elements -/

/-- The payload that is carried along: its name stands for a missing source file. -/
def Compile.PayloadFields.carried (fields : PayloadFields) : Symbol.Payload :=
  { fields with values.sourceFile := fields.values.sourceFile.or fields.values.name }.payload false

section
variable {fields : PayloadFields}

/-- If no first one of some attributes was there then none of them was. -/
theorem saw_of_firstSeen? {names : List String} (h : fields.firstSeen? names = none) :
    ∀ name ∈ names, fields.saw name = false := by
  intro name hmem
  rw [Bool.eq_false_iff, ne_eq, PayloadFields.saw, List.contains_iff_mem]
  intro hsaw
  exact List.find?_eq_none.mp h name hsaw (List.contains_iff_mem.mpr hmem)

/-- If none of the attributes of remote payloads was there then their fields have no values. -/
theorem isLocal_payload (hs : fields.Settled) (hremote : ∀ name ∈ remoteNames, fields.saw name = false)
    {file : Option String} (hfile : file.isSome) :
    ({ fields with values.sourceFile := file }.payload false).IsLocal := by
  have hnone : ∀ {α : Type} (name : String) (o : Option α), name ∈ remoteNames →
      (name, o.isSome) ∈ fields.parsed → o = none := by
    intro α name o hname hp
    simpa using (hs _ hp).trans (hremote name hname)
  refine ⟨rfl, hfile, hnone "Hash" _ ?_ ?_, hnone "Size" _ ?_ ?_, hnone "CertificatePublicKey" _ ?_ ?_,
    hnone "CertificateThumbprint" _ ?_ ?_, hnone "Description" _ ?_ ?_, hnone "ProductName" _ ?_ ?_,
    hnone "Version" _ ?_ ?_⟩
  all_goals first | decide | simp [PayloadFields.parsed, PayloadFields.payload]

/-- If all that a remote payload needs was there, and no source file, then it can be downloaded. -/
theorem isRemote_payload (hs : fields.Settled) (hsource : fields.saw "SourceFile" = false)
    (hneeded : ∀ name ∈ remoteRequired, fields.saw name) : (fields.payload true).IsRemote := by
  have hsome : ∀ {α : Type} (name : String) (o : Option α), name ∈ remoteRequired →
      (name, o.isSome) ∈ fields.parsed → o.isSome :=
    fun name o hname hp => (hs _ hp).trans (hneeded name hname)
  have hname := hsome "Name" fields.values.name (by decide) (by simp [PayloadFields.parsed])
  have hfile : fields.values.sourceFile = none := by
    have hp : ("SourceFile", fields.values.sourceFile.isSome) ∈ fields.parsed := by
      simp [PayloadFields.parsed]
    simpa using (hs _ hp).trans hsource
  refine ⟨rfl, hfile, by simp [PayloadFields.payload, hname], hsome "DownloadUrl" _ ?_ ?_,
    hsome "Hash" _ ?_ ?_, hsome "Size" _ ?_ ?_⟩
  all_goals first | decide | simp [PayloadFields.parsed, PayloadFields.payload]

/-- **Local or remote.** What was gathered without errors describes a payload that is carried along, with
its source file or its name as the file, or one that is downloaded, if that is allowed. -/
theorem sourced_resolve (hs : fields.Settled) {e : Element} {remoteAllowed : Bool}
    (hallowed : remoteAllowed = false → ∀ name ∈ remoteNames, fields.saw name = false)
    (h : (fields.resolve e remoteAllowed).All Step.Smooth) :
    (fields.resolve e remoteAllowed).value.IsLocal ∧
        (fields.resolve e remoteAllowed).value = fields.carried ∨
      remoteAllowed ∧ (fields.resolve e remoteAllowed).value.IsRemote ∧
        (fields.resolve e remoteAllowed).value = fields.payload true := by
  unfold PayloadFields.resolve at h ⊢
  dsimp only at h ⊢
  split_ifs at h ⊢ with hsource hremote hh
  · -- the source file was there, and an attribute of remote payloads would be an error
    have hnone : fields.firstSeen? remoteNames = none := by
      cases hfirst : fields.firstSeen? remoteNames with
      | none => rfl
      | some name => simp [hfirst] at h
    obtain ⟨file, hvalue⟩ := Option.isSome_iff_exists.mp (hs.sourceFile.trans hsource)
    have heq : fields.payload false = fields.carried := by
      rw [PayloadFields.carried, hvalue, Option.some_or, ← hvalue]
    refine .inl ⟨?_, heq⟩
    show (fields.payload false).IsLocal
    rw [heq]
    exact isLocal_payload hs (saw_of_firstSeen? hnone) (by simp [hvalue])
  · simp only [Logged.all_bind] at h
    have hneeded := clean_missing.mp fun s hs => (h.1 s hs).clean
    rw [Bool.and_eq_true] at hremote
    exact .inr ⟨hremote.1, isRemote_payload hs (by simpa using hsource) hneeded, rfl⟩
  · -- no source file was there, and the name stands for it
    have hnone : ∀ name ∈ remoteNames, fields.saw name = false := by
      cases remoteAllowed with
      | false => exact hallowed rfl
      | true => exact saw_of_firstSeen? (by simpa using hremote)
    have hmissing : fields.values.sourceFile = none := by simpa [hsource] using hs.sourceFile
    refine .inl ⟨isLocal_payload hs hnone (hs.name.trans hh), ?_⟩
    rw [PayloadFields.carried, hmissing, Option.none_or]
    rfl
  · simp at h

/-- A package that describes its payload itself carries it along. -/
theorem isLocal_resolveInline (hs : fields.Settled) (h : fields.saw "SourceFile" ∨ fields.saw "Name") :
    fields.resolveInline.IsLocal := by
  refine ⟨rfl, ?_, rfl, rfl, rfl, rfl, rfl, rfl, rfl⟩
  simpa [PayloadFields.resolveInline, PayloadFields.payload, Option.isSome_or, hs.name, hs.sourceFile]
    using h

end

/-- All forms of payloads are described by these attributes. -/
theorem Compile.PayloadForm.mem_names (form : PayloadForm) :
    ∀ name ∈ ["Name", "SourceFile", "DownloadUrl"], name ∈ form.names := by
  cases form with
  | typed kind => cases kind <;> decide
  | _ => decide

theorem Compile.PayloadForm.not_mem_names {form : PayloadForm} (h : form.remoteAllowed = false) :
    ∀ name ∈ remoteNames, name ∉ form.names := by
  cases form with
  | own => cases h
  | typed kind =>
    cases kind with
    | msi | msp => decide
    | _ => cases h
  | inline => decide

/-- An element without errors describes a payload that can be found. -/
theorem described_resolve {e : Element} {form : PayloadForm} (hs : (e.payloadFields form).Settled)
    (h : ((e.payloadFields form).resolve e form.remoteAllowed).All Step.Smooth) :
    ((e.payloadFields form).resolve e form.remoteAllowed).value.DescribedBy e ∧
      (form.remoteAllowed = false →
        ((e.payloadFields form).resolve e form.remoteAllowed).value.remote = false) := by
  have hname : (e.payloadFields form).values.name = e.value? (.relativePath "Name") :=
    valueIn?_eq (form.mem_names _ (by decide))
  have hfile : (e.payloadFields form).values.sourceFile = e.value? (.text "SourceFile") :=
    valueIn?_eq (form.mem_names _ (by decide))
  have hurl : (e.payloadFields form).values.downloadUrl = e.value? (.text "DownloadUrl") :=
    valueIn?_eq (form.mem_names _ (by decide))
  have hallowed : form.remoteAllowed = false →
      ∀ name ∈ remoteNames, (e.payloadFields form).saw name = false := by
    intro hform name hmem
    rw [Bool.eq_false_iff, ne_eq, PayloadFields.saw, List.contains_iff_mem, mem_seen_payloadFields]
    exact fun hseen => PayloadForm.not_mem_names hform name hmem hseen.1
  rcases sourced_resolve hs hallowed h with ⟨hlocal, heq⟩ | ⟨hform, hremote, heq⟩
  · refine ⟨⟨⟨?_, .inl hlocal⟩, ?_, ?_, fun _ => ?_⟩, fun _ => hlocal.remote⟩
    · rw [heq] at hlocal ⊢
      exact Option.isSome_iff_exists.mpr (exists_name_payload false (.inr hlocal.sourceFile))
    · rw [heq, ← hname]
      rfl
    · rw [heq, ← hurl]
      rfl
    · rw [heq, ← hname, ← hfile]
      rfl
  · refine ⟨⟨⟨hremote.name, .inr hremote⟩, ?_, ?_, fun hfalse => ?_⟩, fun hfalse => ?_⟩
    · rw [heq, ← hname]
      rfl
    · rw [heq, ← hurl]
      rfl
    · rw [hremote.remote] at hfalse
      cases hfalse
    · rw [hform] at hfalse
      cases hfalse

/-- The element that describes the payload of a package: its typed payload element, or the package
itself. -/
def Element.describing (e : Element) (kind : Symbol.PackageKind) : Element :=
  ((typedPayload? e kind).map (·.1)).getD e

/-- The payload of a package without errors is described by the typed payload element or by the package. It
is remote only if packages of its kind may have remote payloads. -/
theorem described_packagePayload {kind : Symbol.PackageKind} {site : Site}
    {checks : List (String × Check)} (hp : site.element.Passes checks)
    (hc : PayloadForm.inline.CheckedBy checks) (h : (packagePayload kind site).All Step.Smooth) :
    (packagePayload kind site).value.payload.DescribedBy (site.element.describing kind) ∧
      (allowsRemote kind = false → (packagePayload kind site).value.payload.remote = false) := by
  unfold Element.describing
  simp only [packagePayload, PayloadFields.gather_eq, Logged.pure_bind] at h ⊢
  split at h
  · next child position htyped =>
    simp only [readTypedPayload, PayloadFields.gather_eq, Logged.pure_bind, Logged.all_bind] at h
    obtain ⟨⟨-, hchecks, hpayload, -⟩, -⟩ := h
    rw [htyped]
    simp only [readTypedPayload, PayloadFields.gather_eq, Logged.pure_bind, Logged.value_bind,
      Logged.value_pure]
    exact described_resolve ((passes_of_smooth hchecks).settled (checkedBy_typed kind)) hpayload
  · next htyped =>
    simp only [Logged.all_bind, all_reportIf, Step.smooth_report,
      isError_expectedAttributeOrElement] at h
    have hsaw : (site.element.payloadFields .inline).saw "SourceFile" ∨
        (site.element.payloadFields .inline).saw "Name" := by
      have hnot := h.1
      revert hnot
      cases (site.element.payloadFields .inline).saw "SourceFile" <;>
        cases (site.element.payloadFields .inline).saw "Name" <;> simp
    have hs := hp.settled hc
    obtain ⟨name, hname⟩ := name_resolveInline hs hsaw
    rw [htyped]
    refine ⟨⟨⟨Option.isSome_iff_exists.mpr ⟨name, hname⟩, .inl (isLocal_resolveInline hs hsaw)⟩, rfl, rfl,
      fun _ => rfl⟩, fun _ => rfl⟩

/-! ### Payloads of a plan -/

/-- All payloads of a list of definitions can be found. -/
def AllSourced (l : List Definition) : Prop := ∀ d ∈ l, ∀ p, d.2 = .payload p → p.IsSourced

theorem allSourced_of_kind {l : List Definition} (h : ∀ d ∈ l, d.2.kind ≠ .payload) :
    AllSourced l := by
  intro d hd p hp
  exact absurd (by rw [hp]; rfl) (h d hd)

theorem Packs.described {config : Config} {kind : Symbol.PackageKind} {entry : Option ArpEntry}
    {site : Site} {package : Symbol.Package} (h : Packs config kind entry site package) :
    (packagePayload kind site).value.payload.DescribedBy (site.element.describing kind) ∧
      (allowsRemote kind = false → (packagePayload kind site).value.payload.remote = false) :=
  described_packagePayload h.passes (checkedBy_inline config kind) h.payload

section Rules
variable {env : Env} {scope inner : Scope} {site : Site} {body : Body}

theorem allSourced_chainPackage {kind : Symbol.PackageKind}
    (hname : Rule.named? site.element.name = some (.chainPackage kind))
    (h : (openChainPackage kind env scope site).All Step.Smooth)
    (hb : (openChainPackage kind env scope site).value.body = some body)
    (hclose : ∀ s ∈ body.close inner, s.Smooth) :
    AllSourced ((body.close inner).filterMap Step.symbol?) := by
  obtain ⟨id, entry, package, hsymbols, hpacks⟩ := packs_of_smooth hname h hb hclose
  rw [hsymbols]
  intro d hd p hp
  simp only [List.mem_cons, List.not_mem_nil, or_false] at hd
  rcases hd with rfl | rfl
  · cases hp
    exact hpacks.described.1.sourced
  · cases hp

theorem allSourced_payload (h : (openPayload scope site).All Step.Smooth)
    (hb : (openPayload scope site).value.body = some body) :
    AllSourced ((body.close inner).filterMap Step.symbol?) := by
  cases hcursor : scope.cursor with
  | none => simp [openPayload, hcursor, halt] at hb
  | some cursor =>
    simp only [openPayload, hcursor, PayloadFields.gather_eq, Logged.pure_bind, Logged.all_bind] at h hb
    cases hb
    intro d hd p hp
    cases List.mem_singleton.mp hd
    cases hp
    exact (described_resolve ((passes_of_smooth h.1).settled checkedBy_own) h.2.1).1.sourced

/-- The file of the bootstrapper application is carried along. -/
theorem allSourced_bootstrapperApplication :
    AllSourced ((within scope (openBootstrapperApplication site)).collect Step.symbol?) := by
  intro d hd p hp
  simp only [openBootstrapperApplication, collect_within, Logged.collect_bind, collect_report,
    collect_offerAttributes, List.nil_append] at hd
  split at hd
  · simp [Step.symbol?] at hd
  · simp only [Logged.collect_bind, Logged.collect_tell, collect_register, Step.symbol?,
      List.filterMap_none, List.nil_append, Option.toList_none] at hd
    cases List.mem_singleton.mp hd
    cases hp
    exact ⟨rfl, .inl ⟨rfl, rfl, rfl, rfl, rfl, rfl, rfl, rfl, rfl⟩⟩

/-- **What elements define**: all their payloads can be found. -/
theorem allSourced_open {rule : Rule} (hname : Rule.named? site.element.name = some rule)
    (h : (rule.open env scope site).All Step.Smooth)
    (hb : (rule.open env scope site).value.body = some body)
    (hclose : ∀ s ∈ body.close inner, s.Smooth) :
    AllSourced ((rule.open env scope site).collect Step.symbol?) ∧
      AllSourced ((body.close inner).filterMap Step.symbol?) := by
  have hrule := introduces_open site scope rule env
  have hlog : SymbolKind.payload ∉ rule.asides →
      AllSourced ((rule.open env scope site).collect Step.symbol?) := fun hnot =>
    allSourced_of_kind fun d hd heq => hnot (heq ▸ hrule.log d hd)
  have hrest : SymbolKind.payload ∉ rule.asides ++ rule.namesakes →
      AllSourced ((body.close inner).filterMap Step.symbol?) := fun hnot =>
    allSourced_of_kind fun d hd heq =>
      hnot (List.mem_append.mpr (heq ▸ hrule.kind_of_mem_close hb hd))
  cases rule with
  | chainPackage kind =>
    refine ⟨?_, allSourced_chainPackage hname h hb hclose⟩
    rw [show ((Rule.chainPackage kind).open env scope site).collect Step.symbol? = [] from
      collect_chainPackage site scope kind env]
    exact allSourced_of_kind (by simp)
  | payload => exact ⟨hlog (by simp [Rule.asides]), allSourced_payload h hb⟩
  | bootstrapperApplication =>
    refine ⟨allSourced_bootstrapperApplication, ?_⟩
    simp only [Rule.open, openBootstrapperApplication] at hb
    split at hb <;> cases hb <;> exact allSourced_of_kind (by simp [Step.symbol?, Symbol.Data.kind])
  | _ => exact ⟨hlog (by simp [Rule.asides]), hrest (by simp [Rule.asides, Rule.namesakes])⟩

end Rules

/-- **All payloads below an element can be found.** -/
theorem Compile.Walk.allSourced {config : Config} {unit : Option SectionKind} {content : Content}
    {site : Site} {scope after : Scope} {position : Nat} {seen : List String}
    {children : List Element} {l : List Step}
    (h : Walk config unit content site scope position seen children l after) :
    AllSourced (l.filterMap Step.symbol?) := by
  induction h with
  | nil => exact allSourced_of_kind (by simp)
  | foreign _ _ ih => exact ih
  | absorbed _ _ _ _ _ ih => exact ih
  | @entered unit _ site scope inner _ position _ child rest rule o body l l' hcore hgives hneed
      hopen hsmooth hbody _ hclose _ ih ih' =>
    subst hopen
    have hname : Rule.named? (site.child position child).element.name = some rule :=
      Rule.named?_of_gives hgives
    obtain ⟨hlog, hend⟩ := allSourced_open hname hsmooth hbody hclose
    intro d hd
    simp only [List.filterMap_append, List.mem_append] at hd
    rcases hd with (hd | hd | hd) | hd
    · exact hlog d hd
    · exact ih d hd
    · exact hend d hd
    · exact ih' d hd

/-- What a package element says about the payload of its package. The payload is named by the package, it
can be found by what the typed payload element or the package itself says, and in packages of some kinds it
is not remote. -/
structure Site.Supplies (s : Site) (payloadId : Identifier) (payload : Symbol.Payload)
    (package : Symbol.Package) : Prop where
  kind : Symbol.PackageKind.ofElementName? s.element.name = some package.kind
  payloadId : package.payload = payloadId.id
  described : payload.DescribedBy (s.element.describing package.kind)
  carried : package.kind = .msi ∨ package.kind = .msp → payload.remote = false

theorem Site.Packages.supplies {config : Config} {s : Site} {payloadId : Identifier}
    {payload : Symbol.Payload} {package : Symbol.Package}
    (h : s.Packages config payloadId payload package) : s.Supplies payloadId payload package := by
  obtain ⟨kind, entry, hpacks, rfl, rfl⟩ := h
  obtain ⟨hdescribed, hcarried⟩ := hpacks.described
  obtain rfl := hpacks.kind_eq
  refine ⟨hpacks.name, hpacks.payload_eq, hdescribed, fun hkind => hcarried ?_⟩
  rcases hkind with hkind | hkind <;> rw [hkind] <;> rfl

/-- **Payloads are local or remote.** In a compile that succeeds without extensions every payload has a name,
and it is either carried along or downloaded. The payload of a package, which comes right before it, is
found by what the package or its typed payload element says, and it is not remote in an `MsiPackage` or
`MspPackage`. -/
theorem Compiler.payloads_local_or_remote {c : Compiler} (hc : c.extensions = []) {k : UInt32}
    {root : Element} {o : Output} (h : (c.compileAs k root).result = .ok o) (hs : o.isSuccess) :
    (∀ s ∈ o.intermediate.symbols, ∀ p, s.data = .payload p →
      p.name.isSome ∧ (p.IsLocal ∨ p.IsRemote)) ∧
    PackagesOf Site.Supplies (root.reached.filter Site.isPackage)
      (o.intermediate.symbols.map fun s => (s.id, s.data)) := by
  have hsmooth := smooth_of_isSuccess h hs
  have hyields := yields_of_isSuccess hc h hs
  refine ⟨fun s hmem p hp => ?_, ?_⟩
  · obtain ⟨-, l, after, hwalk, hsymbols⟩ := exists_walk_symbols hsmooth
    have hdefined : (s.id, s.data) ∈ l.filterMap Step.symbol? := by
      rw [← hsymbols, ← hyields.symbols]
      exact List.mem_map_of_mem (f := fun s : Symbol => (s.id, s.data)) hmem
    obtain ⟨hname, hsource⟩ := hwalk.allSourced _ hdefined p hp
    exact ⟨hname, hsource⟩
  · rw [hyields.symbols]
    exact (packagesOf_plan hsmooth).imp fun _ _ _ _ _ _ => Site.Packages.supplies

namespace Sample

/-- A bundle with an application, a package that is carried along and one that is downloaded. -/
def downloading : Element :=
  element "Wix" [] [
    element "Bundle" [("Id", "B"), ("Version", "1.0")] [
      element "BootstrapperApplication" [("SourceFile", "bin\\ui.exe")] [],
      element "Chain" [] [
        element "MsiPackage" [] [
          element "Payload" [("SourceFile", "data.cab")] [],
          element "MsiPackagePayload" [("Id", "Core"), ("Name", "core.msi"),
            ("DownloadUrl", "files/core.msi")] []],
        element "ExePackage" [("Id", "Runtime"), ("Permanent", "yes")] [
          element "ExePackagePayload" [("Name", "runtime.exe"), ("Hash", "AB12"), ("Size", "4096"),
            ("DownloadUrl", "files/runtime.exe")] []]]]]

end Sample

/-- Only the package that has a hash and a size is downloaded. -/
theorem payloads_local_or_remote_downloading : ∃ o,
    (Compiler.compileAs {} 0 Sample.downloading).result = .ok o ∧ o.isSuccess ∧
      (o.intermediate.symbols.filterMap fun s => match s.data with
        | .payload p => some (p.name, p.sourceFile, p.remote)
        | _ => none) = [
          (some "ui.exe", some "bin\\ui.exe", false), (some "data.cab", some "data.cab", false),
          (some "core.msi", some "core.msi", false), (some "runtime.exe", none, true)] ∧
      (∀ s ∈ o.intermediate.symbols, ∀ p, s.data = .payload p →
        p.name.isSome ∧ (p.IsLocal ∨ p.IsRemote)) ∧
      PackagesOf Site.Supplies (Sample.downloading.reached.filter Site.isPackage)
        (o.intermediate.symbols.map fun s => (s.id, s.data)) := by
  have h : (Compiler.compileAs {} 0 Sample.downloading).result = .ok _ := rfl
  exact ⟨_, h, by decide +kernel, by decide +kernel,
    Compiler.payloads_local_or_remote rfl h (by decide +kernel)⟩

end Installer
