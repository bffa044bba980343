import Installer.Proofs.GroupOrder
import Installer.Proofs.Reach
import Installer.Proofs.Reordering

/-! # The vocabulary of documents

The vocabulary has a table of the core elements, with the core children and the core attributes that each
of them may have (`Schema.elements`). What else is authored in a document is never ignored: if there is
no error, then all elements that are reached are in the table, with their children and their attributes
(`Site.Known`). A package has one element for its payload at most, and what is in a container does not
come after anything. -/

namespace Installer

open Compile Planned
open Installer.Symbol (PackageKind Sequence)

/-- The core children and the core attributes that an element may have, by name. -/
structure Schema where
  children : List String := []
  attributes : List String := []
  deriving DecidableEq

namespace Schema

/-! ### The table -/

def sequences : List String := [
  "InstallExecuteSequence", "InstallUISequence", "AdminExecuteSequence", "AdminUISequence",
  "AdvertiseExecuteSequence"]

/-- The actions with a fixed meaning. -/
def standardActionNames : List String := [
  "AppSearch", "LaunchConditions", "FindRelatedProducts", "CostInitialize", "FileCost",
  "CostFinalize", "InstallValidate", "InstallInitialize", "ProcessComponents", "RemoveFiles",
  "InstallFiles", "WriteRegistryValues", "RemoveRegistryValues", "RegisterProduct",
  "PublishFeatures", "PublishProduct", "InstallFinalize", "RemoveExistingProducts",
  "ExecuteAction", "MigrateFeatureStates", "ScheduleReboot", "ForceReboot"]

/-- What all sequences may have. -/
def actions : List String := "Custom" :: standardActionNames

def databaseParts : List String := ["Component", "CustomAction", "Property"] ++ sequences

def payloads : List String := ["Payload", "PayloadGroupRef"]

def chainItems : List String := [
  "BundlePackage", "ExePackage", "MsiPackage", "MspPackage", "MsuPackage", "RollbackBoundary",
  "PackageGroupRef"]

def registryParts : List String := ["RegistryKey", "RegistryValue"]

/-- Where a payload comes from. -/
def source : List String := ["Name", "SourceFile", "DownloadUrl"]

/-- What only remote payloads have. -/
def remote : List String := [
  "Hash", "Size", "CertificatePublicKey", "CertificateThumbprint", "Description", "ProductName",
  "Version"]

/-- The command lines of a package, with their deprecated names. -/
def arguments : List String := [
  "InstallArguments", "RepairArguments", "UninstallArguments", "InstallCommand", "RepairCommand",
  "UninstallCommand"]

/-- When an action is run. -/
def scheduling : List String := [
  "Sequence", "Before", "After", "Suppress", "Condition", "Overridable"]

def document : Schema where
  children := ["Bundle", "Package", "Module", "Patch", "Fragment"]

def bundle : Schema where
  children := [
    "Chain", "BootstrapperApplication", "Log", "Update", "RelatedBundle", "Variable", "Container",
    "PackageGroup", "PayloadGroup"] ++ payloads
  attributes := [
    "Id", "Name", "Version", "Manufacturer", "UpgradeCode", "Condition", "Compressed",
    "DisableModify", "DisableRemove", "AboutUrl", "HelpUrl", "Copyright", "ParentName",
    "ProviderKey"]

def package : Schema where
  children := databaseParts
  attributes := [
    "Name", "Manufacturer", "Version", "Language", "Codepage", "UpgradeCode", "ProductCode",
    "InstallerVersion", "Scope", "Compressed", "ProviderKey"]

def mergeModule : Schema where
  children := databaseParts
  attributes := ["Id", "Language", "Version", "Codepage", "Guid"]

def patch : Schema where
  children := ["PatchProperty"]
  attributes := [
    "Id", "Classification", "DisplayName", "Description", "Manufacturer", "AllowRemoval"]

def fragment : Schema where
  children := [
    "BootstrapperApplication", "Component", "Container", "CustomAction", "PackageGroup",
    "PayloadGroup", "Property", "Variable"] ++ sequences
  attributes := ["Id"]

/-- The packages of a chain. Only some kinds have properties, patches, exit codes or an entry to be
detected by. -/
def chainPackage (kind : PackageKind) : Schema :=
  let attributes := ["Id", "Compressed"] ++ source ++ [
    "After", "Cache", "CacheId", "Description", "DisplayName", "InstallCondition",
    "LogPathVariable", "RollbackLogPathVariable", "Permanent", "Vital"]
  match kind with
  | .msi => {
      children := "MsiPackagePayload" :: payloads ++ ["MsiProperty", "SlipstreamMsp"]
      attributes := attributes ++ [
        "Visible", "DisplayInternalUI", "EnableFeatureSelection", "ForcePerMachine",
        "SuppressLooseFilePayloadGeneration"] }
  | .msp => {
      children := "MspPackagePayload" :: payloads ++ ["MsiProperty"]
      attributes := attributes ++ ["PerMachine", "Slipstream"] }
  | .msu => {
      children := "MsuPackagePayload" :: payloads
      attributes := attributes ++ ["KB"] }
  | .exe => {
      children := "ExePackagePayload" :: payloads ++ ["ExitCode", "ArpEntry"]
      attributes := attributes ++
        (["PerMachine", "DetectCondition", "Protocol", "RepairCondition"] ++ arguments) }
  | .bundle => {
      children := "BundlePackagePayload" :: payloads ++ ["ExitCode"]
      attributes := attributes ++ (["Visible", "PerMachine"] ++ arguments) }

/-- The elements for the payloads of packages. The databases and patches of the installer are never
remote. -/
def typedPayload : PackageKind → Schema
  | .msi | .msp => { attributes := "Id" :: source }
  | .msu | .exe | .bundle => { attributes := "Id" :: source ++ remote }

/-- Dialogs are shown in the sequences for the user interface only. -/
def sequence : Sequence → Schema
  | .installInterface | .adminInterface => { children := "Show" :: actions }
  | .installExecute | .adminExecute | .advertiseExecute => { children := actions }

def leaf (attributes : List String) : Schema := { attributes }

/-- Standard actions are not run at the end of a sequence. -/
def action : ActionKind → Schema
  | .custom => leaf (["Action", "OnExit"] ++ scheduling)
  | .dialog => leaf (["Dialog", "OnExit"] ++ scheduling)
  | .standard => leaf scheduling

def bootstrapperApplication : Schema := ⟨payloads, ["Id", "SourceFile", "Name"]⟩

def log : Schema := leaf ["PathVariable", "Prefix", "Extension", "Disable"]

def update : Schema := leaf ["Location"]

def relatedBundle : Schema := leaf ["Code", "Action"]

def variableValue : Schema := leaf ["Name", "Value", "Type", "Hidden", "Persisted"]

def chain : Schema := ⟨chainItems, ["DisableRollback", "DisableSystemRestore", "ParallelCache"]⟩

def packageGroup : Schema := ⟨chainItems, ["Id"]⟩

def packageGroupRef : Schema := leaf ["Id", "After"]

def payloadGroup : Schema := ⟨payloads, ["Id"]⟩

def payloadGroupRef : Schema := leaf ["Id"]

def container : Schema := ⟨["PackageGroupRef"], ["Id", "Name", "Type", "DownloadUrl"]⟩

def rollbackBoundary : Schema := leaf ["Id", "Vital", "Transaction", "LogPathVariable"]

def payload : Schema := leaf (["Id", "Compressed"] ++ source ++ remote)

def msiProperty : Schema := leaf ["Name", "Value", "Condition"]

def slipstreamMsp : Schema := leaf ["Id"]

def exitCode : Schema := leaf ["Value", "Behavior"]

def arpEntry : Schema := leaf ["Id", "Version", "Win64"]

def component : Schema :=
  ⟨registryParts, ["Id", "Guid", "Directory", "Bitness", "KeyPath"]⟩

def registryKey : Schema := ⟨registryParts, ["Root", "Key"]⟩

def registryValue : Schema := leaf ["Id", "Root", "Key", "Name", "Value", "Type", "KeyPath"]

def customAction : Schema := leaf [
  "Id", "Script", "BinaryRef", "FileRef", "Property", "Directory", "DllEntry", "ExeCommand",
  "Value", "JScriptCall", "VBScriptCall", "Execute", "Return", "Impersonate", "HideTarget"]

def property : Schema := leaf ["Id", "Value", "Secure", "Hidden", "Admin"]

def patchProperty : Schema := leaf ["Name", "Value"]

/-- **The core elements.** -/
def elements : List (String × Schema) := [
  ("Wix", document), ("Bundle", bundle), ("Package", package), ("Module", mergeModule),
  ("Patch", patch), ("Fragment", fragment),
  ("BootstrapperApplication", bootstrapperApplication), ("Log", log), ("Update", update),
  ("RelatedBundle", relatedBundle), ("Variable", variableValue), ("Chain", chain),
  ("PackageGroup", packageGroup), ("PackageGroupRef", packageGroupRef),
  ("PayloadGroup", payloadGroup), ("PayloadGroupRef", payloadGroupRef), ("Container", container),
  ("RollbackBoundary", rollbackBoundary), ("Payload", payload),
  ("BundlePackage", chainPackage .bundle), ("BundlePackagePayload", typedPayload .bundle),
  ("ExePackage", chainPackage .exe), ("ExePackagePayload", typedPayload .exe),
  ("MsiPackage", chainPackage .msi), ("MsiPackagePayload", typedPayload .msi),
  ("MspPackage", chainPackage .msp), ("MspPackagePayload", typedPayload .msp),
  ("MsuPackage", chainPackage .msu), ("MsuPackagePayload", typedPayload .msu),
  ("MsiProperty", msiProperty), ("SlipstreamMsp", slipstreamMsp), ("ExitCode", exitCode),
  ("ArpEntry", arpEntry), ("Component", component), ("RegistryKey", registryKey),
  ("RegistryValue", registryValue), ("CustomAction", customAction), ("Property", property),
  ("PatchProperty", patchProperty), ("InstallExecuteSequence", sequence .installExecute),
  ("InstallUISequence", sequence .installInterface),
  ("AdminExecuteSequence", sequence .adminExecute),
  ("AdminUISequence", sequence .adminInterface),
  ("AdvertiseExecuteSequence", sequence .advertiseExecute), ("Custom", action .custom),
  ("Show", action .dialog)] ++ standardActionNames.map fun name => (name, action .standard)

end Schema

/-- The schema of the elements of a rule. -/
def Rule.schema : Rule → Schema
  | bundle => .bundle
  | package => .package
  | module => .mergeModule
  | patch => .patch
  | fragment => .fragment
  | bootstrapperApplication => .bootstrapperApplication
  | log => .log
  | update => .update
  | relatedBundle => .relatedBundle
  | variableValue => .variableValue
  | chain => .chain
  | packageGroup => .packageGroup
  | packageGroupRef => .packageGroupRef
  | payloadGroup => .payloadGroup
  | payloadGroupRef => .payloadGroupRef
  | container => .container
  | rollbackBoundary => .rollbackBoundary
  | payload => .payload
  | chainPackage kind => .chainPackage kind
  | msiProperty => .msiProperty
  | slipstreamMsp => .slipstreamMsp
  | exitCode => .exitCode
  | arpEntry => .arpEntry
  | component => .component
  | registryKey => .registryKey
  | registryValue => .registryValue
  | customAction => .customAction
  | property => .property
  | patchProperty => .patchProperty
  | sequence s => .sequence s
  | action kind => .action kind

/-! ### Names -/

theorem Schema.lookup_of_gives {content : Content} {name : String} {rule : Rule}
    (h : content.Gives name rule) : elements.lookup name = some rule.schema := by
  have hall : ∀ content ∈ Content.all, ∀ p ∈ content.entries, ∀ rule ∈ p.2.rule?,
      elements.lookup p.1 = some rule.schema := by
    decide +kernel
  obtain ⟨entry, hmem, hr⟩ := h
  exact hall content content.mem_all _ hmem rule hr

theorem Schema.lookup_typedPayload (kind : PackageKind) :
    elements.lookup kind.payloadElementName = some (typedPayload kind) := by
  cases kind <;> decide +kernel

/-- What the content of an element allows is in its schema, but for dialogs. -/
theorem Rule.mem_schema_children (rule : Rule) :
    ∀ p ∈ rule.content.entries, p.1 ≠ "Show" → p.1 ∈ rule.schema.children := by
  cases rule with
  | chainPackage kind => cases kind <;> decide +kernel
  | sequence s => cases s <;> decide +kernel
  | action kind => simp [content, Content.entries]
  | _ => decide +kernel

theorem Schema.mem_children_show {s : Sequence} (h : s.isInterface) :
    "Show" ∈ (sequence s).children := by
  cases s with
  | installInterface | adminInterface => exact List.mem_cons_self
  | _ => cases h

/-! ### Attributes -/

/-- The names of attributes that pass their checks are names of checks. -/
theorem Element.Passes.mem_names {e : Element} {checks : List (String × Check)}
    (hp : e.Passes checks) {names : List String} (hn : checks.map (·.1) ⊆ names) :
    ∀ a ∈ e.coreAttributes, a.name ∈ names := by
  intro a ha
  refine hn ?_
  cases hc : checks.lookup a.name with
  | none =>
    have hd : e.unexpectedAttribute a ∈ e.checkAttribute checks a := by
      rw [checkAttribute, hc]
      exact List.mem_singleton_self _
    exact Bool.noConfusion (hp.at a.name a ha rfl _ hd)
  | some check =>
    obtain ⟨l₁, l₂, hl, -⟩ := List.lookup_eq_some_iff.mp hc
    simp [hl]

/-- An action without errors is in a sequence, and a dialog is in one for the user interface. -/
theorem exists_table_of_smooth {kind : ActionKind} {env : Env} {scope : Scope} {site : Site}
    (h : ((Rule.action kind).open env scope site).All Step.Smooth) :
    ∃ table, scope.parent = .sequence table ∧
      (kind = .dialog → table.sequence.isInterface) ∧ site.element.Passes (actionChecks kind) := by
  simp only [Rule.open, openAction] at h
  split at h
  · next table hp =>
    split_ifs at h with hdialog
    · exact absurd h (not_smooth_refuse _ _ _)
    · simp only [Logged.all_bind] at h
      refine ⟨table, hp, ?_, passes_of_smooth h.1⟩
      rintro rfl
      simpa using hdialog
  · exact absurd h (not_smooth_refuse _ _ _)

/-- The attributes of an element that is opened without errors are in its schema. -/
theorem mem_schema_attributes {rule : Rule} {env : Env} {scope : Scope} {site : Site}
    (h : (rule.open env scope site).All Step.Smooth) (hneed : scope.Has rule.need) :
    ∀ a ∈ site.element.coreAttributes, a.name ∈ rule.schema.attributes := by
  cases rule with
  | bundle | package | module | patch | fragment =>
    simp only [Rule.open, openBundle, openPackage, openModule, openPatch, openFragment, all_within,
      Logged.all_bind] at h
    exact (passes_of_smooth h.1).mem_names (List.Subset.refl _)
  | bootstrapperApplication | log | update | relatedBundle | variableValue =>
    simp only [Rule.open, openBootstrapperApplication, openLog, openUpdate, openRelatedBundle,
      openVariable, all_within, Logged.all_bind] at h
    exact (passes_of_smooth h.1).mem_names (List.Subset.refl _)
  | chain | packageGroup | payloadGroup | container =>
    simp only [Rule.open, openChain, openPackageGroup, openPayloadGroup, openContainer, all_within,
      Logged.all_bind] at h
    exact (passes_of_smooth h.1).mem_names (List.Subset.refl _)
  | packageGroupRef =>
    obtain ⟨c, hc⟩ := hneed.group
    simp only [Rule.open, openPackageGroupRef, hc, Logged.all_bind] at h
    refine (passes_of_smooth h.1).mem_names ?_
    split_ifs
    · exact List.Subset.refl _
    · exact List.cons_subset_cons _ (List.nil_subset _)
  | payloadGroupRef | rollbackBoundary | payload =>
    obtain ⟨c, hc⟩ := hneed.group
    simp only [Rule.open, openPayloadGroupRef, openRollbackBoundary, openPayload, hc,
      Logged.all_bind] at h
    exact (passes_of_smooth h.1).mem_names (List.Subset.refl _)
  | chainPackage kind =>
    obtain ⟨c, hc⟩ := hneed.group
    simp only [Rule.open, openChainPackage, hc, Logged.all_bind] at h
    cases kind <;> exact (passes_of_smooth h.1).mem_names (List.Subset.refl _)
  | msiProperty | slipstreamMsp | exitCode | arpEntry =>
    obtain ⟨owner, entry, hp⟩ := hneed.package
    simp only [Rule.open, openMsiProperty, openSlipstreamMsp, openExitCode, openArpEntry, hp,
      Logged.all_bind] at h
    exact (passes_of_smooth h.1).mem_names (List.Subset.refl _)
  | registryKey | registryValue =>
    obtain ⟨place, hp⟩ := Option.isSome_iff_exists.mp hneed
    simp only [Rule.open, openRegistryKey, openRegistryValue, hp, Logged.all_bind] at h
    exact (passes_of_smooth h.1).mem_names (List.Subset.refl _)
  | component | property | patchProperty =>
    simp only [Rule.open, openComponent, openProperty, openPatchProperty, all_within,
      Logged.all_bind] at h
    exact (passes_of_smooth h.1).mem_names (List.Subset.refl _)
  | customAction =>
    simp only [Rule.open, openCustomAction, all_within, Logged.all_bind, all_report] at h
    exact (passes_of_customActionFindings h.1).mem_names (List.Subset.refl _)
  | sequence s =>
    simp only [Rule.open, openSequence, all_within, Logged.all_bind] at h
    exact (passes_of_smooth h.1).mem_names (List.nil_subset _)
  | action kind =>
    obtain ⟨-, -, -, hp⟩ := exists_table_of_smooth h
    cases kind <;> exact hp.mem_names (List.Subset.refl _)

/-! ### Elements in the table -/

/-- What is authored at a site is in the table: its name, its core children and its core attributes. A
package has one element for its payload at most, and nothing in a container comes after anything. -/
structure Site.Known (s : Site) : Prop where
  listed : ∃ schema, Schema.elements.lookup s.element.name = some schema ∧
    (∀ child ∈ s.element.children, child.isCore → child.name ∈ schema.children) ∧
    ∀ a ∈ s.element.coreAttributes, a.name ∈ schema.attributes
  payload : ∀ kind : PackageKind, s.element.name = kind.elementName →
    (s.element.children.countP fun c => c.isCore && c.name == kind.payloadElementName) ≤ 1
  unordered : s.parent.name = "Container" → s.element.has "After" = false

/-- The element that authors the payload of a package without errors. -/
theorem known_of_payload? {rule : Rule} {env : Env} {scope : Scope} {site typed : Site}
    {content : Content} (hgives : content.Gives site.element.name rule)
    (h : (rule.open env scope site).All Step.Smooth) (ht : rule.payload? site = some typed) :
    typed.Known := by
  cases rule with
  | chainPackage kind =>
    obtain ⟨⟨child, position⟩, htyped, rfl⟩ := Option.map_eq_some_iff.mp ht
    have hparent : site.element.name = kind.elementName := Content.name_of_gives hgives rfl
    have hfound := List.find?_some htyped
    simp only [Bool.and_eq_true, beq_iff_eq] at hfound
    simp only [Rule.open, openChainPackage] at h
    split at h
    · exact absurd h (not_smooth_halt _ _)
    · simp only [Logged.all_bind, packagePayload, htyped, readTypedPayload] at h
      obtain ⟨-, ⟨-, ⟨-, hchecks, -, -, -, hscan, -⟩, -⟩, -⟩ := h
      have hpasses := passes_of_smooth hchecks
      have hleaf := isCore_eq_false_of_scanChildren hscan
      refine ⟨⟨Schema.typedPayload kind, ?_, ?_, ?_⟩, ?_, ?_⟩
      · rw [show (site.child position child).element.name = child.name from rfl, hfound.2]
        exact Schema.lookup_typedPayload kind
      · intro c hc hcore
        rw [hleaf c hc] at hcore
        cases hcore
      · cases kind <;> exact hpasses.mem_names (List.Subset.refl _)
      · intro other _
        rw [List.countP_eq_zero.mpr fun c hc => by simp [hleaf c hc]]
        exact Nat.zero_le 1
      · intro hcontainer
        have hname : kind.elementName = "Container" := hparent.symm.trans hcontainer
        cases kind <;> exact absurd hname (by decide)
  | _ => cases ht

namespace Compile

section
variable {config : Config} {unit : Option SectionKind} {content : Content} {site : Site}
  {scope after : Scope} {position : Nat} {seen : List String} {children : List Element}
  {l : List Step}

/-- The core children of an element are those that its content allows, and dialogs are shown only in
sequences for the user interface. -/
theorem Walk.mem_entries
    (h : Walk config unit content site scope position seen children l after) :
    ∀ c ∈ children, c.isCore → c.name ∈ content.entries.map (·.1) ∧
      (c.name = "Show" → ∃ table, scope.parent = .sequence table ∧ table.sequence.isInterface) := by
  induction h with
  | nil => simp
  | foreign hcore _ ih =>
    rintro c (_ | ⟨_, hmem⟩) hc
    · rw [hcore] at hc
      cases hc
    · exact ih c hmem hc
  | @absorbed unit content site scope after position seen child rest l hcore hname hseen hleaf _
      ih =>
    rintro c (_ | ⟨_, hmem⟩) hc
    · refine ⟨?_, fun hshow => ?_⟩
      · cases content with
        | package kind =>
          rw [← Option.some.inj hname]
          exact List.mem_cons_self
        | _ => cases hname
      · have hnone := Rule.named?_of_absorbed hname
        rw [hshow] at hnone
        exact absurd hnone (by decide +kernel)
    · exact ih c hmem hc
  | @entered unit content site scope inner after position seen child rest rule o body l l' hcore
      hgives hneed hopen hsmooth hbody _ hclose _ _ ih' =>
    subst hopen
    rintro c (_ | ⟨_, hmem⟩) hc
    · refine ⟨?_, fun hshow => ?_⟩
      · obtain ⟨entry, hentry, -⟩ := hgives
        exact List.mem_map_of_mem hentry
      · have hnamed := Rule.named?_of_gives hgives
        have hdialog : Rule.named? "Show" = some (.action .dialog) := by decide +kernel
        rw [hshow, hdialog, Option.some.injEq] at hnamed
        subst hnamed
        obtain ⟨table, hparent, hinterface, -⟩ := exists_table_of_smooth hsmooth
        exact ⟨table, hparent, hinterface rfl⟩
    · obtain ⟨hentries, hshow⟩ := ih' c hmem hc
      refine ⟨hentries, fun hname => ?_⟩
      obtain ⟨table, hparent, hinterface⟩ := hshow hname
      exact ⟨table, (leads_open rule _ scope _).outer table hparent, hinterface⟩

/-- A child that is read together with its parent appears once at most. -/
theorem Walk.countP_absorbed_le
    (h : Walk config unit content site scope position seen children l after) {name : String}
    (hname : content.absorbed? = some name) :
    (children.countP fun c => c.isCore && c.name == name) ≤ if name ∈ seen then 0 else 1 := by
  induction h with
  | nil => simp
  | foreign hcore _ ih =>
    rw [List.countP_cons_of_neg (by simp [hcore])]
    exact ih hname
  | @absorbed unit content site scope after position seen child rest l hcore habsorbed hseen hleaf _
      ih =>
    rw [hname, Option.some.injEq] at habsorbed
    subst habsorbed
    have hrest := ih hname
    rw [if_pos List.mem_cons_self] at hrest
    rw [List.countP_cons_of_pos (by simp [hcore]), if_neg hseen]
    omega
  | @entered unit content site scope inner after position seen child rest rule o body l l' hcore
      hgives hneed hopen hsmooth hbody _ hclose _ _ ih' =>
    have hne : name ≠ child.name := by
      rintro rfl
      exact Content.absorbed?_ne_of_gives hgives hname
    have hrest := ih' hname
    rw [List.countP_cons_of_neg (by simp [hne.symm])]
    simpa [hne] using hrest

end

/-- An element that is opened and walked through without errors is in the table. -/
theorem Walk.known_child {config : Config} {unit : Option SectionKind} {env : Env} {site : Site}
    {scope inner : Scope} {content : Content} {rule : Rule} {body : Body} {l : List Step}
    (hgives : content.Gives site.element.name rule) (hneed : scope.Has rule.need)
    (hsmooth : (rule.open env scope site).All Step.Smooth)
    (hbody : (rule.open env scope site).value.body = some body)
    (h : Walk config unit body.content site body.scope 0 [] site.element.children l inner)
    (hafter : site.parent.name = "Container" → site.element.has "After" = false) : site.Known := by
  obtain ⟨hcontent, -, htable⟩ := (leads_open rule env scope site).body body hbody
  refine ⟨⟨rule.schema, Schema.lookup_of_gives hgives, ?_, mem_schema_attributes hsmooth hneed⟩, ?_,
    hafter⟩
  · intro c hc hcore
    obtain ⟨hentries, hshow⟩ := h.mem_entries c hc hcore
    by_cases hname : c.name = "Show"
    · -- only a sequence for the user interface has a table where dialogs are shown
      obtain ⟨table, hparent, hinterface⟩ := hshow hname
      obtain ⟨s, rfl, rfl⟩ := htable table hparent
      rw [hname]
      exact Schema.mem_children_show hinterface
    · rw [hcontent] at hentries
      obtain ⟨p, hp, heq⟩ := List.mem_map.mp hentries
      rw [← heq] at hname ⊢
      exact rule.mem_schema_children p hp hname
  · intro kind hkind
    have hnamed := Rule.named?_of_gives hgives
    have hpackage : Rule.named? kind.elementName = some (.chainPackage kind) := by
      cases kind <;> decide +kernel
    rw [hkind, hpackage, Option.some.injEq] at hnamed
    subst hnamed
    have habsorbed : body.content.absorbed? = some kind.payloadElementName := by
      rw [hcontent]
      rfl
    simpa using h.countP_absorbed_le habsorbed

/-- **All elements on the way of a walk are in the table.** -/
theorem Walk.known {config : Config} {unit : Option SectionKind} {content : Content}
    {site : Site} {scope after : Scope} {position : Nat} {seen : List String}
    {children : List Element} {l : List Step}
    (h : Walk config unit content site scope position seen children l after)
    (hs : site.isReached)
    (hpayload : ∀ typed, site.absorbed? content position seen children = some typed → typed.Known)
    (hafter : site.element.name = "Container" →
      ∀ child ∈ children, child.isCore → child.has "After" = false) :
    ∀ s ∈ site.reachedBelow position children, s.Known := by
  induction h with
  | nil => simp
  | @foreign unit content site scope after position seen child rest l hcore _ ih =>
    rw [Site.reachedBelow_of_foreign hcore]
    refine ih hs (fun typed ht => hpayload typed ?_) fun hname c hc => ?_
    · rw [Site.absorbed?_cons_of_ne (by simp [hcore])]
      simpa [hcore] using ht
    · exact hafter hname c (List.mem_cons_of_mem _ hc)
  | @absorbed unit content site scope after position seen child rest l hcore hname hseen hleaf _
      ih =>
    obtain ⟨hfirst, hlater⟩ := site.absorbed?_cons_self position hcore hname hseen rest
    rw [Site.reachedBelow_of_core hs hcore, Site.reachedBelow_eq_nil _ hleaf]
    refine List.forall_mem_cons.mpr ⟨hpayload _ hfirst, ih hs ?_ fun hname c hc => ?_⟩
    · simp [hlater]
    · exact hafter hname c (List.mem_cons_of_mem _ hc)
  | @entered unit content site scope inner after position seen child rest rule o body l l' hcore
      hgives hneed hopen hsmooth hbody hchildren hclose _ ih ih' =>
    subst hopen
    rw [Site.reachedBelow_of_core hs hcore]
    have hne := Content.absorbed?_ne_of_gives hgives
    have hself : (site.child position child).Known :=
      hchildren.known_child hgives hneed hsmooth hbody fun hname =>
        hafter hname child List.mem_cons_self hcore
    have hbelow := ih (Site.isReached_child hs hcore) (fun typed ht => ?_) fun hname => ?_
    · have hrest := ih' hs (fun typed ht => hpayload typed ?_) fun hname c hc => ?_
      · exact List.forall_mem_append.mpr ⟨List.forall_mem_cons.mpr ⟨hself, hbelow⟩, hrest⟩
      · rw [Site.absorbed?_cons_of_ne fun _ => hne]
        simpa [hcore] using ht
      · exact hafter hname c (List.mem_cons_of_mem _ hc)
    · -- the payload of the element was read when it was opened
      have hread : (site.child position child).absorbed? body.content 0 [] child.children =
        rule.payload? (site.child position child) := absorbed?_eq_payload? hbody
      rw [hread] at ht
      exact known_of_payload? hgives hsmooth ht
    · have hnamed := Rule.named?_of_gives hgives
      have hcontainer : Rule.named? "Container" = some .container := by decide +kernel
      rw [show child.name = "Container" from hname, hcontainer, Option.some.injEq] at hnamed
      subst hnamed
      cases hbody
      intro c hmem hc
      by_contra hhas
      obtain ⟨a, ha⟩ := Element.exists_last?_iff.mpr (by simpa using hhas)
      rw [hchildren.last?_after rfl rfl c hmem hc] at ha
      cases ha

end Compile

theorem known_root {config : Config} {root : Element} {scope after : Scope} {l : List Step}
    (hname : root.name = "Wix") (hattributes : root.coreAttributes = [])
    (h : Walk config none .document (Site.root root) scope 0 [] root.children l after) :
    (Site.root root).Known := by
  refine ⟨⟨Schema.document, ?_, ?_, ?_⟩, ?_, ?_⟩
  · rw [Site.element_root, hname]
    decide +kernel
  · intro c hc hcore
    exact (h.mem_entries c hc hcore).1
  · rw [Site.element_root, hattributes]
    simp
  · intro kind hkind
    rw [Site.element_root, hname] at hkind
    cases kind <;> exact absurd hkind (by decide)
  · intro hcontainer
    rw [show (Site.root root).parent = root from rfl, hname] at hcontainer
    exact absurd hcontainer (by decide)

/-- **Nothing in the core vocabulary is ignored.** If a document is compiled without errors, with any
extensions, then its document element is the right one without core attributes, and all elements that
are reached are in the table, with all their core children and all their core attributes. -/
theorem Compiler.compileAs_known {c : Compiler} {k : UInt32} {root : Element} {o : Output}
    (h : (c.compileAs k root).result = .ok o) (hs : o.isSuccess) :
    root.qname = QName.core "Wix" ∧ root.coreAttributes = [] ∧ ∀ s ∈ root.reached, s.Known := by
  have hsmooth := smooth_of_isSuccess h hs
  obtain ⟨hroot, l, after, hwalk, hplan⟩ := exists_walk hsmooth
  obtain ⟨hcore, hname⟩ := Element.core_of_qname hroot
  rw [hplan] at hsmooth
  have hpasses : root.Passes [] := by
    intro d hd
    exact hsmooth (.report d) (List.mem_append_left _ (List.mem_map_of_mem hd))
  have hattributes : root.coreAttributes = [] :=
    List.eq_nil_iff_forall_not_mem.mpr fun a ha => by
      simpa using hpasses.mem_names (List.Subset.refl _) a ha
  refine ⟨hroot, hattributes, ?_⟩
  rw [Element.reached_eq hcore]
  refine List.forall_mem_cons.mpr ⟨known_root hname hattributes hwalk,
    hwalk.known (Site.isReached_root hcore) ?_ ?_⟩
  · intro typed ht
    cases ht
  · intro hcontainer
    rw [Site.element_root, hname] at hcontainer
    exact absurd hcontainer (by decide)

namespace Sample

/-- A fragment with a dialog, and a bundle with the payload of a package and a container. -/
def catalog : Element :=
  element "Wix" [] [
    element "Fragment" [("Id", "F")] [
      element "InstallUISequence" [] [
        element "Show" [("Dialog", "Welcome"), ("OnExit", "success")] [],
        element "CostFinalize" [("Sequence", "1000")] []]],
    element "Bundle" [("Id", "B"), ("Version", "1.0")] [
      element "Chain" [] [
        element "MsiPackage" [("Id", "Tool"), ("After", "Base")] [
          element "MsiPackagePayload" [("SourceFile", "tool.msi")] [],
          element "MsiProperty" [("Name", "N"), ("Value", "v")] []]],
      element "Container" [("Id", "Box"), ("Name", "box.cab")] [
        element "PackageGroupRef" [("Id", "Tools")] [],
        .node (tag "notes" "Note" [("After", "Tool")]) []]]]

end Sample

/-- Twelve of its elements are reached. The note in the container is not. -/
theorem compileAs_known_catalog : ∃ o,
    (Sample.notingCompiler.compileAs 0 Sample.catalog).result = .ok o ∧ o.isSuccess ∧
      Sample.catalog.reached.length = 12 ∧ ∀ s ∈ Sample.catalog.reached, s.Known := by
  have h : (Sample.notingCompiler.compileAs 0 Sample.catalog).result = .ok _ := rfl
  exact ⟨_, h, by decide +kernel, by decide +kernel,
    (Compiler.compileAs_known h (by decide +kernel)).2.2⟩

end Installer
