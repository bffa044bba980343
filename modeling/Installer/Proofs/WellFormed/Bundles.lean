import Installer.Proofs.WellFormed

/-! # What bundles define

The rules for the parts of bundles, for groups, for payloads and for chain packages are careful. A
payload always has a name, so that a package without an identifier can be named after it
(`sound_packagePayload`); the entry that a package is detected by comes from its children
(`careful_arpEntry`, `inDomain_detailsOf`). -/

namespace Installer

open Compile Planned Element

variable (site : Site) {scope : Scope}

attribute [local simp] Scope.Sound Parent.Sound Symbol.Data.InDomain

/-! ### Parts of bundles -/

theorem careful_update (hs : scope.Sound) (h : (within scope (openUpdate site)).All Step.Clean) :
    Careful (within scope (openUpdate site)) := by
  simp only [openUpdate, all_within, Logged.all_bind, clean_checkAttributes,
    clean_missingAttributes] at h
  obtain ⟨hp, hm, -⟩ := h
  obtain ⟨location, hl, hink⟩ := hp.exists_required (Field.of_text "Location") hm (by decide) rfl
  have hid := Identifier.proper_synthesize "upd" rfl [location]
  refine ⟨by simp [openUpdate], hs, ?_⟩
  simp [openUpdate, hl, hink, Symbol.Data.named_of_proper hid]

theorem careful_relatedBundle (hs : scope.Sound)
    (h : (within scope (openRelatedBundle site)).All Step.Clean) :
    Careful (within scope (openRelatedBundle site)) := by
  simp only [openRelatedBundle, all_within, Logged.all_bind, clean_checkAttributes,
    clean_missingAttributes] at h
  obtain ⟨hp, hm, -⟩ := h
  obtain ⟨code, hcode, hnormal⟩ := hp.exists_required (Field.of_guid "Code") hm (by decide) rfl
  have hid := Identifier.proper_synthesize "rlb" rfl [code]
  refine ⟨by simp [openRelatedBundle], hs, ?_⟩
  simp [openRelatedBundle, hcode, hnormal, Symbol.Data.named_of_proper hid]

theorem careful_log (hs : scope.Sound) : Careful (within scope (openLog site)) := by
  have hid := Identifier.proper_synthesize "log" rfl
  refine ⟨by simp [openLog], hs, ?_⟩
  simp [openLog, Symbol.Data.named_of_proper (hid _)]

theorem careful_variable (hs : scope.Sound) (h : (within scope (openVariable site)).All Step.Clean) :
    Careful (within scope (openVariable site)) := by
  simp only [openVariable, all_within, Logged.all_bind, clean_checkAttributes,
    clean_missingAttributes] at h
  obtain ⟨hp, hm, -⟩ := h
  have hf : (Field.mk "Name" Reader.variableName).read.Of Identifier.IsName := by
    dsimp only
    exact Reader.of_variableName
  obtain ⟨name, hname, hn⟩ := hp.exists_required hf hm (by decide) (by simp [Reads, Field.check])
  refine ⟨by simp [openVariable], hs, ?_⟩
  simp [openVariable, hname, Symbol.Data.named_of_proper (Identifier.proper_ofName hn)]

theorem careful_bootstrapperApplication (hs : scope.Sound)
    (h : (within scope (openBootstrapperApplication site)).All Step.Clean) :
    Careful (within scope (openBootstrapperApplication site)) := by
  simp only [openBootstrapperApplication, all_within, Logged.all_bind,
    clean_checkAttributes] at h
  have hid : ((site.element.identifier? .id).getD (.ofName defaultApplication)).Proper :=
    h.1.proper_getD rfl
      (Identifier.proper_ofName (Identifier.isLegal_iff_isName.mp (by decide)))
  unfold openBootstrapperApplication
  dsimp only
  split
  · refine ⟨by simp, hs, ?_⟩
    simp [Symbol.Data.named_of_proper hid]
  · refine ⟨?_, hs, ?_⟩ <;> simp [Symbol.Data.named_of_proper hid]

/-! ### Groups -/

theorem careful_chain (hs : scope.Sound) : Careful (within scope (openChain site)) := by
  have hid : (Identifier.ofName Identifier.chainGroup).Proper :=
    Identifier.proper_ofName (Identifier.isLegal_iff_isName.mp (by decide))
  refine ⟨by simp [openChain], hs, ?_⟩
  simp [openChain, Symbol.Data.named_of_proper hid]

theorem careful_packageGroup (hs : scope.Sound)
    (h : (within scope (openPackageGroup site)).All Step.Clean) :
    Careful (within scope (openPackageGroup site)) := by
  simp only [openPackageGroup, all_within, Logged.all_bind, clean_checkAttributes] at h
  have hid := proper_requiredId (h.1.at _) rfl h.2.1
  refine ⟨by simp [openPackageGroup], hs, ?_⟩
  simp [openPackageGroup, Symbol.Data.named_of_proper hid]

theorem careful_payloadGroup (hs : scope.Sound)
    (h : (within scope (openPayloadGroup site)).All Step.Clean) :
    Careful (within scope (openPayloadGroup site)) := by
  simp only [openPayloadGroup, all_within, Logged.all_bind, clean_checkAttributes] at h
  have hid := proper_requiredId (h.1.at _) rfl h.2.1
  refine ⟨by simp [openPayloadGroup], hs, ?_⟩
  simp [openPayloadGroup, Symbol.Data.named_of_proper hid]

@[simp] theorem wellFormed_containerId (e : Element) : (containerId e).All Step.WellFormed := by
  unfold containerId
  split <;> simp

/-- A container without an identifier is named after its file. If it has neither, or the name of the
file is wrong, there is an error. -/
theorem proper_containerId {e : Element} {checks : List (String × Check)} (hp : e.Passes checks)
    (hi : Reads checks Field.id) (hn : Reads checks (Field.fileName "Name"))
    (h : (containerId e).All Step.Clean) : (containerId e).value.Proper := by
  unfold containerId at h ⊢
  split at h
  · next id _ hid => simpa [hid] using (hp.at _).proper hi hid
  · next name hid hname =>
    simpa [hid, hname] using Identifier.proper_ofName (Identifier.isName_ofFileName name)
  · next hid hname =>
    have hh : e.has "Name" := by simpa using h
    obtain ⟨v, hv, -⟩ := hp.exists_value? hn (Field.of_fileName _) hh
    rw [hname] at hv
    cases hv

theorem careful_container (hs : scope.Sound) (h : (within scope (openContainer site)).All Step.Clean) :
    Careful (within scope (openContainer site)) := by
  simp only [openContainer, all_within, Logged.all_bind, clean_checkAttributes] at h
  have hid := proper_containerId h.1 rfl rfl h.2.1
  refine ⟨by simp [openContainer], hs, ?_⟩
  simp [openContainer, Symbol.Data.named_of_proper hid]

theorem careful_packageGroupRef (hs : scope.Sound) : Careful (openPackageGroupRef scope site) := by
  unfold openPackageGroupRef
  split
  · exact careful_halt hs _
  · exact ⟨by simp, hs, by simp⟩

theorem careful_payloadGroupRef (hs : scope.Sound) : Careful (openPayloadGroupRef scope site) := by
  unfold openPayloadGroupRef
  split
  · exact careful_halt hs _
  · exact ⟨by simp, hs, by simp⟩

theorem careful_rollbackBoundary (hs : scope.Sound)
    (h : (openRollbackBoundary scope site).All Step.Clean) :
    Careful (openRollbackBoundary scope site) := by
  unfold openRollbackBoundary at h ⊢
  split at h
  · exact careful_halt hs _
  · next cursor _ =>
    simp only [Logged.all_bind, clean_checkAttributes] at h
    have hid := fun values =>
      h.1.proper_getD rfl (Identifier.proper_synthesize "rba" rfl values)
    exact ⟨by simp, hs, by simp [Symbol.Data.named_of_proper (hid _)]⟩

/-! ### Payloads and packages -/

/-- The fields of payloads but for their identifiers, by the names of their attributes, and whether they
have a value. -/
def Compile.PayloadFields.parsed (fields : PayloadFields) : List (String × Bool) := [
  ("Name", fields.values.name.isSome),
  ("SourceFile", fields.values.sourceFile.isSome),
  ("DownloadUrl", fields.values.downloadUrl.isSome),
  ("Compressed", fields.values.compressed.isSome),
  ("Hash", fields.values.hash.isSome),
  ("Size", fields.values.size.isSome),
  ("CertificatePublicKey", fields.values.certificatePublicKey.isSome),
  ("CertificateThumbprint", fields.values.certificateThumbprint.isSome),
  ("Description", fields.values.description.isSome),
  ("ProductName", fields.values.productName.isSome),
  ("Version", fields.values.version.isSome)]

/-- The attributes that were there are those that could be read. -/
def Compile.PayloadFields.Settled (fields : PayloadFields) : Prop :=
  ∀ p ∈ fields.parsed, p.2 = fields.saw p.1

/-- The attributes that describe a payload are checked like those of a payload element. -/
def Compile.PayloadForm.CheckedBy (form : PayloadForm) (checks : List (String × Check)) : Prop :=
  ∀ name ∈ form.names, checks.lookup name = PayloadForm.own.checks.lookup name

theorem checkedBy_own : PayloadForm.own.CheckedBy PayloadForm.own.checks := fun _ _ => rfl

theorem checkedBy_typed (kind : Symbol.PackageKind) :
    (PayloadForm.typed kind).CheckedBy (PayloadForm.typed kind).checks := by
  intro name hname
  cases kind <;>
    simp only [PayloadForm.names, sourceNames, remoteNames, allowsRemote, List.filter_cons,
      List.filter_nil, bne_iff_ne, ne_eq, String.reduceEq, not_false_eq_true, not_true_eq_false,
      ↓reduceIte, Bool.false_eq_true, List.cons_append, List.nil_append, List.append_nil, List.mem_cons,
      List.not_mem_nil, or_false] at hname
  case msi | msp => rcases hname with rfl | rfl | rfl | rfl <;> rfl
  all_goals
    rcases hname with rfl | rfl | rfl | rfl | rfl | rfl | rfl | rfl | rfl | rfl | rfl <;> rfl

theorem checkedBy_inline (config : Config) (kind : Symbol.PackageKind) :
    PayloadForm.inline.CheckedBy (commonChecks ++ kindChecks config kind) := by
  intro name hname
  simp only [PayloadForm.names, sourceNames, List.mem_cons, List.not_mem_nil, or_false] at hname
  rcases hname with rfl | rfl | rfl | rfl <;> rfl

/-- **What was there could be read**, if the element passes its checks. -/
theorem Element.Passes.settled {e : Element} {checks : List (String × Check)} (hp : e.Passes checks)
    {form : PayloadForm} (hc : form.CheckedBy checks) : (e.payloadFields form).Settled := by
  have hfield : ∀ {α : Type} {f : Field α} {P : α → Prop}, f.read.Of P →
      Reads PayloadForm.own.checks f →
        (e.valueIn? form.names f).isSome = (e.payloadFields form).saw f.name := by
    intro α f P hf hreads
    by_cases hname : f.name ∈ form.names
    · rw [valueIn?_eq hname, saw_payloadFields hname, Bool.eq_iff_iff, Option.isSome_iff_exists]
      constructor
      · rintro ⟨v, hv⟩
        exact has_of_value? hv
      · intro hhas
        obtain ⟨v, hv, -⟩ := hp.exists_value? ((hc _ hname).trans hreads) hf hhas
        exact ⟨v, hv⟩
    · rw [valueIn?_eq_none hname, PayloadFields.saw, Option.isSome_none, eq_comm,
        Bool.eq_false_iff, ne_eq, List.contains_iff_mem, mem_seen_payloadFields]
      exact fun h => hname h.1
  simp only [PayloadFields.Settled, PayloadFields.parsed, List.forall_mem_cons]
  exact ⟨hfield (Field.of_relativePath _) rfl, hfield (Field.of_text _) rfl,
    hfield (Field.of_text _) rfl, hfield (Field.of_yesNo _) rfl, hfield (Field.of_text _) rfl,
    hfield (Field.of_long _ _ _) rfl, hfield (Field.of_text _) rfl, hfield (Field.of_text _) rfl,
    hfield (Field.of_text _) rfl, hfield (Field.of_text _) rfl, hfield (Field.of_version _) rfl,
    by simp⟩

section
variable {fields : PayloadFields} (hs : fields.Settled)
include hs

theorem Compile.PayloadFields.Settled.name : fields.values.name.isSome = fields.saw "Name" :=
  hs ("Name", _) (.head _)

theorem Compile.PayloadFields.Settled.sourceFile :
    fields.values.sourceFile.isSome = fields.saw "SourceFile" :=
  hs ("SourceFile", _) (.tail _ (.head _))

end

/-- A payload has a name if a name or a source file could be read. -/
theorem exists_name_payload {fields : PayloadFields} (remote : Bool)
    (h : fields.values.name.isSome ∨ fields.values.sourceFile.isSome) :
    ∃ name, (fields.payload remote).name = some name := by
  rw [← Option.isSome_iff_exists]
  simpa [PayloadFields.payload, Option.isSome_or] using h

theorem inDomain_payloadFields (e : Element) (form : PayloadForm) :
    (Symbol.Data.payload (e.payloadFields form).values).InDomain := by
  refine ⟨fun n hn => ?_, fun v hv => ?_⟩
  · exact (domain_of_value? (Field.of_long _ _ _) (value?_of_valueIn? hn)).1
  · exact domain_of_value? (Field.of_version _) (value?_of_valueIn? hv)

@[simp] theorem wellFormed_resolve (fields : PayloadFields) (e : Element) (remoteAllowed : Bool) :
    (fields.resolve e remoteAllowed).All Step.WellFormed := by
  unfold PayloadFields.resolve
  dsimp only
  split_ifs <;> simp

/-- The size and the version of a payload are those that were read. -/
theorem inDomain_resolve {fields : PayloadFields} (h : (Symbol.Data.payload fields.values).InDomain)
    (e : Element) (remoteAllowed : Bool) :
    (Symbol.Data.payload (fields.resolve e remoteAllowed).value).InDomain := by
  unfold PayloadFields.resolve
  dsimp only
  split_ifs <;> exact h

theorem clean_missing {fields : PayloadFields} {e : Element} :
    (report (fields.missing e)).All Step.Clean ↔ ∀ name ∈ remoteRequired, fields.saw name := by
  rw [all_report, PayloadFields.missing, List.forall_mem_map]
  simp [List.mem_filter]

/-- A payload has a name: its own one, or that of its source file. -/
theorem name_resolve {fields : PayloadFields} (hs : fields.Settled) {e : Element}
    {remoteAllowed : Bool} (h : (fields.resolve e remoteAllowed).All Step.Clean) :
    ∃ name, (fields.resolve e remoteAllowed).value.name = some name := by
  unfold PayloadFields.resolve at h ⊢
  dsimp only at h ⊢
  split_ifs at h ⊢ with hsource hremote hh
  · exact exists_name_payload false (.inr (hs.sourceFile.trans hsource))
  · simp only [Logged.all_bind, clean_missing] at h
    exact exists_name_payload true (.inl (hs.name.trans (h.1 "Name" (by decide))))
  · exact exists_name_payload false (.inl (hs.name.trans hh))
  · simp at h

/-- The same of a package that describes its payload itself. -/
theorem name_resolveInline {fields : PayloadFields} (hs : fields.Settled)
    (h : fields.saw "SourceFile" ∨ fields.saw "Name") :
    ∃ name, fields.resolveInline.name = some name := by
  refine exists_name_payload false ?_
  simp only [Option.isSome_or, hs.name, hs.sourceFile, Bool.or_eq_true]
  tauto

theorem careful_payload (hs : scope.Sound) (h : (openPayload scope site).All Step.Clean) :
    Careful (openPayload scope site) := by
  unfold openPayload at h ⊢
  split at h
  · exact careful_halt hs _
  · simp only [PayloadFields.gather_eq, Logged.pure_bind, id_payloadFields_own, Logged.all_bind,
      clean_checkAttributes] at h ⊢
    have hid := fun values =>
      h.1.proper_getD rfl (Identifier.proper_synthesize "pay" rfl values)
    refine ⟨by simp, hs, ?_⟩
    simp only [Logged.value_bind, value_within, value_leaf, Option.some.injEq, forall_eq']
    refine ⟨trivial, fun _ _ => ?_⟩
    simpa only [List.mem_singleton, forall_eq, Step.wellFormed_emit] using
      ⟨Symbol.Data.named_of_proper (hid _), inDomain_resolve (inDomain_payloadFields _ _) _ _⟩

@[simp] theorem wellFormed_scanChildren (context : Context) :
    (scanChildren site context).All Step.WellFormed := by
  simp only [scanChildren, Logged.all_tell, List.forall_mem_map]
  intro c _
  split_ifs <;> simp

/-- The payload of a package: its identifiers are proper, and it is in its domain. -/
structure Compile.PackagePayload.Sound (p : PackagePayload) : Prop where
  packageId : p.packageId.Proper
  payloadId : p.payloadId.Proper
  inDomain : (Symbol.Data.payload p.payload).InDomain

@[simp] theorem wellFormed_readTypedPayload (kind : Symbol.PackageKind) (package : Element)
    (inline : PayloadFields) : (readTypedPayload kind package inline site).All Step.WellFormed := by
  simp [readTypedPayload]

@[simp] theorem wellFormed_packagePayload (kind : Symbol.PackageKind) :
    (packagePayload kind site).All Step.WellFormed := by
  unfold packagePayload
  dsimp only
  split <;> simp

theorem sound_readTypedPayload {kind : Symbol.PackageKind} {package : Element} {inline : PayloadFields}
    (h : (readTypedPayload kind package inline site).All Step.Clean) :
    (∀ id ∈ (readTypedPayload kind package inline site).value.1, id.Proper) ∧
      (∃ name, (readTypedPayload kind package inline site).value.2.name = some name) ∧
      (Symbol.Data.payload (readTypedPayload kind package inline site).value.2).InDomain := by
  simp only [readTypedPayload, PayloadFields.gather_eq, Logged.pure_bind, Logged.all_bind,
    clean_checkAttributes] at h ⊢
  obtain ⟨-, hp, hpayload, -⟩ := h
  exact ⟨fun id hid => (hp.at _).proper rfl hid, name_resolve (hp.settled (checkedBy_typed kind)) hpayload,
    inDomain_resolve (inDomain_payloadFields _ _) _ _⟩

/-- A package without an identifier is named after its payload, and the payload has a name. -/
theorem Compile.PackagePayload.sound_of_name {e : Element} {checks : List (String × Check)}
    (hp : e.Passes checks) (hi : Reads checks Field.id) {typedId : Option Identifier}
    {payload : Symbol.Payload} (htyped : ∀ id ∈ typedId, id.Proper)
    {name : String} (hname : payload.name = some name)
    (hd : (Symbol.Data.payload payload).InDomain) :
    let packageId := (e.identifier? .id).getD <|
      match payload.name with
      | some name => .ofName (Identifier.ofFileName name)
      | none => Identifier.invalid
    PackagePayload.Sound ⟨packageId, typedId.getD packageId, payload⟩ := by
  rw [hname]
  have hid := hp.proper_getD hi (Identifier.proper_ofName (Identifier.isName_ofFileName name))
  refine ⟨hid, ?_, hd⟩
  cases typedId with
  | none => exact hid
  | some id => exact htyped id rfl

theorem sound_packagePayload {kind : Symbol.PackageKind} {checks : List (String × Check)}
    (hp : site.element.Passes checks) (hi : Reads checks Field.id)
    (hc : PayloadForm.inline.CheckedBy checks) (h : (packagePayload kind site).All Step.Clean) :
    (packagePayload kind site).value.Sound := by
  simp only [packagePayload, PayloadFields.gather_eq, Logged.pure_bind] at h ⊢
  split at h
  · next child position _ =>
    simp only [Logged.all_bind, Logged.all_pure, and_true] at h
    simp only [Logged.value_bind, Logged.value_pure]
    obtain ⟨htyped, ⟨name, hname⟩, hd⟩ := sound_readTypedPayload (site.child position child) h
    exact PackagePayload.sound_of_name hp hi htyped hname hd
  · simp only [Logged.all_bind, all_reportIf, Step.clean_report,
      isError_expectedAttributeOrElement] at h
    have hsaw : (site.element.payloadFields .inline).saw "SourceFile" ∨
        (site.element.payloadFields .inline).saw "Name" := by
      have hnot := h.1
      revert hnot
      cases (site.element.payloadFields .inline).saw "SourceFile" <;>
        cases (site.element.payloadFields .inline).saw "Name" <;> simp
    obtain ⟨name, hname⟩ := name_resolveInline (hp.settled hc) hsaw
    exact PackagePayload.sound_of_name hp hi (by simp) hname
      ⟨by simp [PayloadFields.resolveInline, PayloadFields.payload],
        by simp [PayloadFields.resolveInline, PayloadFields.payload]⟩

/-- The entry that a package is detected by was found by its children. -/
theorem inDomain_detailsOf (kind : Symbol.PackageKind) (e : Element) {owner : String}
    {found : Option ArpEntry} (h : (Parent.package owner found).Sound) :
    (detailsOf e found kind).2.InDomain := by
  have hd : (detectionOf e found).2.InDomain := by
    unfold detectionOf
    split
    · trivial
    · next entry _ =>
      obtain ⟨⟨id, hid, hink⟩, version, hversion, hv⟩ := h entry rfl
      simpa [Symbol.Detection.InDomain, hid, hversion] using ⟨hink, hv⟩
    · trivial
    · trivial
  cases kind with
  | exe => exact hd
  | _ => trivial

theorem wellFormed_packageSteps (kind : Symbol.PackageKind) (e : Element) {p : PackagePayload}
    (hp : p.Sound) {owner : String} {found : Option ArpEntry}
    (h : (Parent.package owner found).Sound) : ∀ s ∈ packageSteps kind e p found, s.WellFormed := by
  have hdetails := inDomain_detailsOf kind e h
  intro s hmem
  rcases List.mem_append.mp hmem with hmem | hmem
  · obtain ⟨d, -, rfl⟩ := List.mem_map.mp hmem
    simp
  · rcases List.mem_cons.mp hmem with rfl | hmem
    · exact Step.wellFormed_emit.mpr ⟨Symbol.Data.named_of_proper hp.payloadId, hp.inDomain⟩
    · rw [List.mem_singleton.mp hmem]
      exact Step.wellFormed_emit.mpr ⟨Symbol.Data.named_of_proper hp.packageId, hdetails⟩

theorem wellFormed_closePackage (kind : Symbol.PackageKind) (e : Element) {p : PackagePayload}
    (hp : p.Sound) {inner : Scope} (h : inner.Sound) :
    ∀ s ∈ closePackage kind e p inner, s.WellFormed := by
  unfold closePackage
  split
  · next owner found hparent =>
    rw [Scope.Sound, hparent] at h
    exact wellFormed_packageSteps kind e hp h
  · simp

theorem careful_chainPackage (kind : Symbol.PackageKind) (env : Env) (hs : scope.Sound)
    (h : (openChainPackage kind env scope site).All Step.Clean) :
    Careful (openChainPackage kind env scope site) := by
  unfold openChainPackage at h ⊢
  split at h
  · exact careful_halt hs _
  · simp only [Logged.all_bind, clean_checkAttributes] at h
    have hsound := sound_packagePayload site h.1 rfl (checkedBy_inline env.config kind) h.2.1
    refine ⟨by simp, hs, ?_⟩
    simp only [Logged.value_bind, value_within, Option.some.injEq, forall_eq']
    exact ⟨by simp, fun inner hinner => wellFormed_closePackage kind site.element hsound hinner⟩

theorem careful_msiProperty (hs : scope.Sound) (h : (openMsiProperty scope site).All Step.Clean) :
    Careful (openMsiProperty scope site) := by
  unfold openMsiProperty at h ⊢
  split at h
  · next owner entry _ =>
    simp only [all_within, Logged.all_bind, clean_checkAttributes, clean_missingAttributes] at h
    obtain ⟨hp, hm, -⟩ := h
    obtain ⟨name, hname, hink⟩ := hp.exists_required (Field.of_text "Name") hm (by decide) rfl
    have hid := Identifier.proper_synthesize "mpp" rfl [owner, name]
    refine ⟨by simp, hs, ?_⟩
    simp [hname, hink, Symbol.Data.named_of_proper hid]
  · exact careful_halt hs _

theorem careful_slipstreamMsp (hs : scope.Sound)
    (h : (openSlipstreamMsp scope site).All Step.Clean) :
    Careful (openSlipstreamMsp scope site) := by
  unfold openSlipstreamMsp at h ⊢
  split at h
  · next owner entry _ =>
    simp only [all_within, Logged.all_bind, clean_checkAttributes, clean_missingAttributes] at h
    obtain ⟨hp, hm, -⟩ := h
    obtain ⟨patch, hpatch, hn⟩ := hp.exists_required (Field.of_reference "Id") hm (by decide) rfl
    have hid := Identifier.proper_synthesize "sls" rfl [owner, patch]
    refine ⟨by simp, hs, ?_⟩
    simp [hpatch, hn, Symbol.Data.named_of_proper hid]
  · exact careful_halt hs _

theorem careful_exitCode (hs : scope.Sound) : Careful (openExitCode scope site) := by
  unfold openExitCode
  split
  · have hid := Identifier.proper_synthesize "ec" rfl
    have hcode : ∀ n ∈ site.element.value? exitCodeField, -2147483648 ≤ n ∧ n ≤ 2147483647 :=
      fun n hn => domain_of_value? (Field.of_integer _ _ _) hn
    refine ⟨by simp, hs, ?_⟩
    simpa [Symbol.Data.named_of_proper (hid _)] using fun _ _ => hcode
  · exact careful_halt hs _

/-- The entry that is kept for the package has an identifier and a version. -/
theorem careful_arpEntry (hs : scope.Sound) (h : (openArpEntry scope site).All Step.Clean) :
    Careful (openArpEntry scope site) := by
  unfold openArpEntry at h ⊢
  split at h
  · next owner entry _ =>
    simp only [all_within, Logged.all_bind, clean_checkAttributes, clean_missingAttributes] at h
    obtain ⟨hp, hm, -⟩ := h
    obtain ⟨id, hid, hink⟩ := hp.exists_required (Field.of_text "Id") hm (by decide) rfl
    obtain ⟨version, hversion, hv⟩ :=
      hp.exists_required (Field.of_version "Version") hm (by decide) rfl
    refine ⟨by simp, ?_, by simp⟩
    simp [hid, hink, hversion, hv]
  · exact careful_halt hs _

end Installer
