import Installer.Compile.Rule.Action
import Installer.Compile.Rule.BundlePart
import Installer.Compile.Rule.ChainPackage
import Installer.Compile.Rule.Grouping
import Installer.Compile.Rule.PackagePart
import Installer.Compile.Rule.PayloadSource
import Installer.Compile.Rule.Property
import Installer.Compile.Rule.Registry
import Installer.Compile.Rule.Unit
import Installer.Compile.Rule.Variable

/-! # Plans

The plan of a document is the list of steps that compiling it takes. It does not depend on
extensions: `Rule.open` opens an element, `planElement` opens it, plans its children and closes it,
and `plan` starts at the document element. Elements that are nested more deeply than the limit allows
end the plan. -/

namespace Installer

open Compile Planned

/-- Open an element by a rule. -/
def Rule.open (rule : Rule) (env : Env) (scope : Scope) (site : Site) : Planned Opening :=
  match rule with
  | bundle => within scope (openBundle site)
  | package => within scope (openPackage site)
  | module => within scope (openModule site)
  | patch => within scope (openPatch site)
  | fragment => within scope (openFragment site)
  | bootstrapperApplication => within scope (openBootstrapperApplication site)
  | log => within scope (openLog site)
  | update => within scope (openUpdate site)
  | relatedBundle => within scope (openRelatedBundle site)
  | variableValue => within scope (openVariable site)
  | chain => within scope (openChain site)
  | packageGroup => within scope (openPackageGroup site)
  | packageGroupRef => openPackageGroupRef scope site
  | payloadGroup => within scope (openPayloadGroup site)
  | payloadGroupRef => openPayloadGroupRef scope site
  | container => within scope (openContainer site)
  | rollbackBoundary => openRollbackBoundary scope site
  | payload => openPayload scope site
  | chainPackage kind => openChainPackage kind env scope site
  | msiProperty => openMsiProperty scope site
  | slipstreamMsp => openSlipstreamMsp scope site
  | exitCode => openExitCode scope site
  | arpEntry => openArpEntry scope site
  | component => within scope (openComponent env site)
  | registryKey => openRegistryKey scope site
  | registryValue => openRegistryValue scope site
  | customAction => within scope (openCustomAction site)
  | property => within scope (openProperty site)
  | patchProperty => within scope (openPatchProperty site)
  | sequence s => within scope (openSequence s env site)
  | action kind => openAction kind scope site

namespace Compile

/-- What is to be done with a core child: nothing more, or to read it by a rule. -/
inductive Admission where
  | skip
  | refuse (d : Diagnostic)
  | accept (rule : Rule)

/-- What is to be done with a core child, if `seen` are the names of the children before that may
appear only once. -/
def admissionOf (content : Content) (seen : List String) (parent child : Element) : Admission :=
  match content.entry? child.name with
  | none => .refuse (parent.unexpectedElement child)
  | some (.many rule) => .accept rule
  | some (.single rule) =>
    if seen.contains child.name then .refuse (parent.tooManyChildren child) else .accept rule
  | some .absorbed =>
    if seen.contains child.name then .refuse (parent.tooManyChildren child) else .skip

mutual

/-- The steps for an element that is read by a rule, `depth` levels below the document element. The
result is the scope of its later siblings. -/
def planElement (config : Config) (unit : Option SectionKind) (depth : Nat) (rule : Rule)
    (scope : Scope) (position : Nat) (ancestors : List Element) : Element → Planned Scope
  | .node tag children => do
    let site : Site := ⟨.node tag children, position, ancestors⟩
    let opening ← rule.open ⟨config, unit⟩ scope site
    match opening.body with
    | none => pure ()
    | some body =>
      let inner ← planChildren config (body.unit.or unit) depth body.content site body.scope 0 []
        children
      Logged.tell (body.close inner)
    return opening.outer

/-- The steps for the children of an element, from the given position on. The names of the core
children before them are `seen`. The result is the scope after the last child. -/
def planChildren (config : Config) (unit : Option SectionKind) (depth : Nat) (content : Content)
    (site : Site) (scope : Scope) (position : Nat) (seen : List String) :
    List Element → Planned Scope
  | [] => return scope
  | child :: rest => do
    if !child.isCore then
      Logged.tell [.offer (.ofElement site (site.child position child)) scope.context]
      planChildren config unit depth content site scope (position + 1) seen rest
    else
      match admissionOf content seen site.element child with
      | .skip =>
        planChildren config unit depth content site scope (position + 1) (child.name :: seen) rest
      | .refuse d =>
        report [d]
        planChildren config unit depth content site scope (position + 1) (child.name :: seen) rest
      | .accept rule =>
        if config.recursionLimit ≤ depth then ⟨[.halt .tooDeep], scope⟩
        else
          let scope ← planElement config unit (depth + 1) rule scope position
            (site.element :: site.ancestors) child
          planChildren config unit depth content site scope (position + 1) (child.name :: seen) rest

end

/-- The finding about a document element that is not the right one. -/
def wrongRoot (root : Element) : Diagnostic :=
  .of .unexpectedElement root.range root.qname.text [root.qname.text] []
    ["the document element must be `Wix`"]

/-- The steps for a document. -/
def plan (config : Config) (root : Element) : List Step :=
  if root.qname != QName.core "Wix" then [.report (wrongRoot root)]
  else
    let site := Site.root root
    (do
      report (root.checkAttributes [])
      offerAttributes site []
      planChildren config none 0 .document site {} 0 [] root.children : Planned Scope).log

end Compile

end Installer
