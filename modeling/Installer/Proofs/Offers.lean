import Installer.Proofs.Collect

/-! # What is offered

An element that is read offers its own foreign attributes, and together with a package the foreign nodes
of the element that authors its payload are offered (`Offers`). An element that is left offers
nothing, and so does one that is closed. What extensions are told along with the attributes of an element
is what they are told with its children (`Informs`). -/

namespace Installer

open Compile Planned

/-- The node that a step offers. -/
def Step.offer? : Step → Option Offer
  | .offer node _ => some node
  | _ => none

/-- The node that a step offers, and what extensions are told. -/
def Step.told? : Step → Option (Offer × Context)
  | .offer node context => some (node, context)
  | _ => none

instance : Step.IgnoresReports Step.told? := ⟨fun _ => rfl⟩

theorem Step.offer?_eq (s : Step) : s.offer? = s.told?.map (·.1) := by
  cases s <;> rfl

theorem map_filterMap_told? (l : List Step) :
    (l.filterMap Step.told?).map (·.1) = l.filterMap Step.offer? := by
  rw [List.map_filterMap, funext Step.offer?_eq]

/-- The element that is read together with the one that a rule opens. -/
def Rule.payload? (rule : Rule) (site : Site) : Option Site :=
  match rule with
  | .chainPackage kind => site.typedPayload? kind
  | _ => none

/-- What extensions are told when an element is opened. -/
structure Informs (rule : Rule) (scope : Scope) (site : Site) (o : Planned Opening) : Prop where
  outer : o.value.outer.context = scope.context
  left : o.value.body = none → o.collect Step.told? = []
  entered : ∀ body, o.value.body = some body → o.collect Step.told? =
    ((rule.payload? site).toList.flatMap fun typed =>
      typed.foreignNodes.map (·, typed.payloadContext)) ++
    site.foreignAttributes.map (·, body.scope.context)
  close : ∀ body, o.value.body = some body → ∀ inner, ∀ s ∈ body.close inner, s.told? = none

section Rules
variable {rule : Rule}

attribute [local simp] Step.told? Rule.payload? collect_packagePayload collect_offerAttributes
  collect_leaf

theorem informs_halt (rule : Rule) (site : Site) (scope : Scope) (reason : Halt) :
    Informs rule scope site (halt scope reason) := by
  refine ⟨?_, ?_, ?_, ?_⟩ <;> simp [halt, Logged.collect]

theorem informs_refuse (rule : Rule) (site : Site) (scope : Scope) (d : Diagnostic) :
    Informs rule scope site (refuse scope d) := by
  refine ⟨?_, ?_, ?_, ?_⟩ <;> simp

theorem informs_open (rule : Rule) (env : Env) (scope : Scope) (site : Site) :
    Informs rule scope site (rule.open env scope site) := by
  cases rule with
  | bundle | package | module | patch | fragment =>
    refine ⟨?_, ?_, ?_, ?_⟩ <;> simp [Rule.open, openBundle, openPackage, openModule, openPatch,
      openFragment, filterMap_providerSteps Step.told? fun _ _ => rfl, builtInProperty, or_imp,
      forall_and]
  | bootstrapperApplication =>
    simp only [Rule.open, openBootstrapperApplication]
    split <;> refine ⟨?_, ?_, ?_, ?_⟩ <;> simp
  | log | update | relatedBundle | variableValue =>
    refine ⟨?_, ?_, ?_, ?_⟩ <;>
      simp [Rule.open, openLog, openUpdate, openRelatedBundle, openVariable]
  | chain | packageGroup | payloadGroup | container =>
    refine ⟨?_, ?_, ?_, ?_⟩ <;>
      simp [Rule.open, openChain, openPackageGroup, openPayloadGroup, openContainer]
  | packageGroupRef | payloadGroupRef | rollbackBoundary | payload =>
    simp only [Rule.open, openPackageGroupRef, openPayloadGroupRef, openRollbackBoundary, openPayload]
    split
    · exact informs_halt _ site scope _
    · refine ⟨?_, ?_, ?_, ?_⟩ <;> simp
  | chainPackage kind =>
    simp only [Rule.open, openChainPackage]
    split
    · exact informs_halt _ site scope _
    · refine ⟨by simp, by simp, by simp, ?_⟩
      simpa using forall_mem_closePackage
        (forall_mem_packageSteps Step.told? (fun _ _ => rfl) (fun _ _ => rfl) _ _ _) rfl
  | msiProperty | slipstreamMsp | exitCode | arpEntry =>
    simp only [Rule.open, openMsiProperty, openSlipstreamMsp, openExitCode, openArpEntry]
    split
    · refine ⟨?_, ?_, ?_, ?_⟩ <;> simp
    · exact informs_halt _ site scope _
  | registryKey | registryValue =>
    simp only [Rule.open, openRegistryKey, openRegistryValue]
    split
    · exact informs_halt _ site scope _
    · refine ⟨?_, ?_, ?_, ?_⟩ <;> simp
  | component | property | patchProperty | sequence s =>
    refine ⟨?_, ?_, ?_, ?_⟩ <;>
      simp [Rule.open, openComponent, openProperty, openPatchProperty, openSequence]
  | customAction =>
    simp only [Rule.open, openCustomAction]
    split <;> refine ⟨?_, ?_, ?_, ?_⟩ <;> simp
  | action kind =>
    simp only [Rule.open, openAction]
    split
    · split_ifs
      · exact informs_refuse _ site scope _
      · refine ⟨by simp, by simp, by simp, ?_⟩
        simpa using fun _ => forall_mem_actionSteps Step.told? (fun _ => rfl)
          (fun _ _ => rfl) (fun _ _ => rfl) _ _ _ _
    · exact informs_refuse _ site scope _

end Rules

/-- What the opening of an element offers. -/
structure Offers (rule : Rule) (site : Site) (o : Planned Opening) : Prop where
  left : o.value.body = none → o.collect Step.offer? = []
  entered : ∀ body, o.value.body = some body → o.collect Step.offer? =
    (rule.payload? site).toList.flatMap Site.foreignNodes ++ site.foreignAttributes
  close : ∀ body, o.value.body = some body → ∀ inner, ∀ s ∈ body.close inner, s.offer? = none

theorem offers_open (rule : Rule) (env : Env) (scope : Scope) (site : Site) :
    Offers rule site (rule.open env scope site) := by
  have h := informs_open rule env scope site
  have hmap : (rule.open env scope site).collect Step.offer? =
      ((rule.open env scope site).collect Step.told?).map (·.1) := (map_filterMap_told? _).symm
  refine ⟨fun hb => ?_, fun body hb => ?_, fun body hb inner s hs => ?_⟩
  · rw [hmap, h.left hb, List.map_nil]
  · rw [hmap, h.entered body hb, List.map_append, List.map_flatMap]
    simp [Function.comp_def]
  · rw [Step.offer?_eq, h.close body hb inner s hs, Option.map_none]

end Installer
