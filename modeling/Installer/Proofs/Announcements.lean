import Installer.Proofs.Delegation
import Installer.Proofs.Paths
import Installer.Proofs.Typing

/-! # Symbols are announced

Hooks run before the symbol of an element is there, and its identifier is what they are told. That is so
of all steps that are taken for one element (`Compile.Visit.announced`), and with the paths of `ascribed`
it is said of all hooks that are called in a compile: of the steps for the element whose attribute or
child the hook is called for, exactly one defines a symbol in its name, and this one comes later. -/

namespace Installer

open Compile Planned

/-- The element whose attribute or child a node is, where it stands. -/
def Offer.host : Offer → Site
  | ofAttribute owner _ => owner
  | ofElement parent _ => parent

/-! ### What is foretold -/

/-- Among the steps for an element there is just one symbol of the given kinds. It comes later, and it is
what extensions are told about. -/
def Foretold (kinds : List SymbolKind) (context : Context) (earlier later : List Step) : Prop :=
  ∃ d, (earlier.filterMap Step.symbol?).filter (·.2.kind ∈ kinds) = [] ∧
    (later.filterMap Step.symbol?).filter (·.2.kind ∈ kinds) = [d] ∧ context.Tells d

/-- What a hook is told with a node, between the earlier and the later steps for the element at a site.
The node is one of the element itself, or of the child that authors its payload. -/
inductive Announced (site : Site) (node : Offer) (context : Context) (earlier later : List Step) :
    Prop
  | own (hhost : node.host = site)
      (h : ∀ rule, Rule.named? site.element.name = some rule → rule.namesakes ≠ [] →
        Foretold rule.namesakes context earlier later)
  | payload {kind : Symbol.PackageKind}
      (hrule : Rule.named? site.element.name = some (.chainPackage kind))
      (hhost : site.typedPayload? kind = some node.host)
      (h : node.host.element.has "Id" → Foretold [.payload] context earlier later)

theorem host_of_mem_foreignAttributes {site : Site} {node : Offer}
    (h : node ∈ site.foreignAttributes) : node.host = site := by
  obtain ⟨a, -, rfl⟩ := List.mem_map.mp h
  rfl

theorem host_of_mem_foreignNodes {site : Site} {node : Offer} (h : node ∈ site.foreignNodes) :
    node.host = site := by
  rcases List.mem_append.mp h with h | h
  · exact host_of_mem_foreignAttributes h
  · obtain ⟨c, -, rfl⟩ := List.mem_map.mp h
    rfl

theorem Rule.notMem_asides {rule : Rule} {kind : SymbolKind} (h : kind ∈ rule.asides) :
    kind ∉ rule.namesakes := by
  have hall : ∀ k ∈ rule.asides, k ∉ rule.namesakes := by
    cases rule <;> simp [asides, namesakes]
  exact hall kind h

/-- Symbols of given kinds, if the steps before the last ones define none. -/
theorem foretold_of_split {kinds : List SymbolKind} {context : Context}
    {before earlier middle close : List Step} {s : Step} {d : Definition}
    (hsplit : before = earlier ++ s :: middle)
    (hbefore : ∀ d ∈ before.filterMap Step.symbol?, d.2.kind ∉ kinds)
    (hclose : (close.filterMap Step.symbol?).filter (·.2.kind ∈ kinds) = [d])
    (htells : context.Tells d) : Foretold kinds context earlier (middle ++ close) := by
  have hnone : ∀ l : List Step, (∀ s ∈ l, s ∈ before) →
      (l.filterMap Step.symbol?).filter (·.2.kind ∈ kinds) = [] := by
    intro l hl
    simp only [List.filter_eq_nil_iff, decide_eq_true_eq]
    intro d hd
    obtain ⟨s, hs, heq⟩ := List.mem_filterMap.mp hd
    exact hbefore d (List.mem_filterMap.mpr ⟨s, hl s hs, heq⟩)
  refine ⟨d, hnone earlier ?_, ?_, htells⟩
  · intro s hs
    simp [hsplit, hs]
  · rw [List.filterMap_append, List.filter_append, hclose, hnone middle fun s hs => by simp [hsplit, hs],
      List.nil_append]

/-! ### Visits -/

section Visit
variable {config : Config} {unit : Option SectionKind} {scope : Scope} {site : Site} {rule : Rule}
  {body : Body} {l : List Step}

theorem isInvalid_eq_false_of_wellFormed {d : Definition}
    (h : ∀ s ∈ l, s.WellFormed) (hd : d ∈ l.filterMap Step.symbol?) : d.1.isInvalid = false := by
  obtain ⟨s, hs, heq⟩ := List.mem_filterMap.mp hd
  cases s with
  | emit id data =>
    cases heq
    simpa [Identifier.isInvalid] using (h _ hs id data rfl).1.1
  | _ => cases heq

/-- What is told until an element is closed is told about the element itself, or about the child that
authors its payload. -/
theorem host_of_visit (hb : (rule.open ⟨config, unit⟩ scope site).value.body = some body)
    (hl : ∀ s ∈ l, Dispatches site body.scope.context s) {node : Offer} {context : Context}
    (h : .offer node context ∈ (rule.open ⟨config, unit⟩ scope site).log ++ l) :
    (node.host = site ∧ context = body.scope.context) ∨
      (rule.payload? site = some node.host ∧ context = node.host.payloadContext) := by
  rcases List.mem_append.mp h with h | h
  · have hmem : (node, context) ∈ (rule.open ⟨config, unit⟩ scope site).collect Step.told? :=
      List.mem_filterMap.mpr ⟨_, h, rfl⟩
    rw [(informs_open rule ⟨config, unit⟩ scope site).entered body hb, List.mem_append] at hmem
    rcases hmem with hmem | hmem
    · obtain ⟨typed, htyped, hmem⟩ := List.mem_flatMap.mp hmem
      obtain ⟨node', hnode, heq⟩ := List.mem_map.mp hmem
      cases heq
      rw [host_of_mem_foreignNodes hnode]
      exact .inr ⟨by simpa using htyped, rfl⟩
    · obtain ⟨node', hnode, heq⟩ := List.mem_map.mp hmem
      cases heq
      exact .inl ⟨host_of_mem_foreignAttributes hnode, rfl⟩
  · cases hl _ h
    exact .inl ⟨rfl, rfl⟩

theorem symbol_of_dispatches (hl : ∀ s ∈ l, Dispatches site body.scope.context s) :
    l.filterMap Step.symbol? = [] := by
  refine List.filterMap_eq_nil_iff.mpr fun s hs => ?_
  cases hl s hs <;> rfl

/-- The own symbol of an element is told along with the nodes of the element. -/
theorem exists_namesake_of_visit (hb : (rule.open ⟨config, unit⟩ scope site).value.body = some body)
    (hn : rule.namesakes ≠ []) {inner : Scope} (hcloses : body.Closes inner)
    (hw : ∀ s ∈ body.close inner, s.WellFormed) :
    ∃ d, ((body.close inner).filterMap Step.symbol?).filter (·.2.kind ∈ rule.namesakes) = [d] ∧
      body.scope.context.Tells d := by
  obtain ⟨others, own, hclose, hothers, hnone, hown⟩ :=
    (introduces_open site scope rule ⟨config, unit⟩).close body hb inner
  obtain ⟨d, rfl⟩ := Option.ne_none_iff_exists'.mp (mt (hnone hcloses).mp hn)
  obtain ⟨hkind, htells⟩ := hown d rfl
  have hvalid : d.1.isInvalid = false := isInvalid_eq_false_of_wellFormed hw (by simp [hclose])
  refine ⟨d, ?_, htells hvalid⟩
  have hothers : others.filter (·.2.kind ∈ rule.namesakes) = [] := by
    simp only [List.filter_eq_nil_iff, decide_eq_true_eq]
    exact fun x hx => Rule.notMem_asides (hothers x hx)
  rw [hclose, List.filter_append, hothers, List.nil_append, Option.toList_some]
  simp [hkind]

/-- The payload of a package is told along with the nodes of the child that authors it. -/
theorem exists_payload_of_visit {kind : Symbol.PackageKind} {typed : Site} {env : Env}
    (hb : (openChainPackage kind env scope site).value.body = some body)
    (ht : site.typedPayload? kind = some typed) (hid : typed.element.has "Id") {inner : Scope}
    (hcloses : body.Closes inner) (hw : ∀ s ∈ body.close inner, s.WellFormed) :
    ∃ d, ((body.close inner).filterMap Step.symbol?).filter (·.2.kind ∈ [SymbolKind.payload]) = [d] ∧
      typed.payloadContext.Tells d := by
  obtain ⟨-, entry, -, hsteps⟩ := close_openChainPackage hb hcloses
  obtain ⟨package, hclose, -⟩ := symbol_chainPackage site scope kind env hb hsteps
  obtain ⟨id, hid⟩ := Element.exists_identifier?_of_has hid
  have hpayload : (packagePayload kind site).value.payloadId = id := by
    obtain ⟨c, hc, rfl⟩ := Option.map_eq_some_iff.mp ht
    simp only [packagePayload, PayloadFields.gather_eq, Logged.pure_bind, hc, Logged.value_bind,
      Logged.value_pure]
    simp only [readTypedPayload, PayloadFields.gather_eq, Logged.pure_bind, Logged.value_bind,
      Logged.value_pure, Element.id_payloadFields_typed]
    change (Option.getD (c.1.identifier? .id) _) = id
    rw [show c.1.identifier? .id = some id from hid]
    rfl
  have hmem : (id, Symbol.Data.payload (packagePayload kind site).value.payload) ∈
      (body.close inner).filterMap Step.symbol? := by
    simp [hclose, hpayload]
  have hvalid := isInvalid_eq_false_of_wellFormed hw hmem
  refine ⟨_, by rw [hclose, hpayload]; rfl, Context.tells_of_kind ?_ (by simp [Symbol.Data.kind])⟩
  rw [Site.payloadContext, hid]
  exact Identifier.lookup_validContext hvalid

end Visit

/-- A list in two parts is split at something that is not in the later part. -/
theorem split_of_notMem {α : Type} {l l' earlier later : List α} {a : α}
    (h : l ++ l' = earlier ++ a :: later) (ha : a ∉ l') :
    ∃ middle, l = earlier ++ a :: middle ∧ later = middle ++ l' := by
  rcases List.append_eq_append_iff.mp h with ⟨m, -, hl'⟩ | ⟨m, hl, hm⟩
  · exact absurd (hl' ▸ List.mem_append_right m List.mem_cons_self) ha
  · cases m with
    | nil =>
      rw [List.nil_append] at hm
      exact absurd (hm ▸ List.mem_cons_self) ha
    | cons b m =>
      obtain ⟨rfl, rfl⟩ := List.cons.inj hm
      exact ⟨m, hl, rfl⟩

/-- **A visit announces the symbols of its element.** -/
theorem Compile.Visit.announced {config : Config} {site : Site} {l earlier later : List Step}
    {node : Offer} {context : Context} (h : Visit config site l) (hs : ∀ s ∈ l, s.Smooth)
    (hw : ∀ s ∈ l, s.WellFormed) (heq : l = earlier ++ .offer node context :: later) :
    Announced site node context earlier later := by
  cases h with
  | @left rule unit scope hcore hname hbody =>
    have hnone : (rule.open ⟨config, unit⟩ scope site).log.filterMap Step.told? = [] :=
      (informs_open rule ⟨config, unit⟩ scope site).left hbody
    rw [heq, List.filterMap_append] at hnone
    simp [Step.told?] at hnone
  | @entered rule unit scope inner body l hcore hname hbody hl =>
    have hinforms := informs_open rule ⟨config, unit⟩ scope site
    rw [← List.append_assoc] at heq hs hw
    have hcloses := Step.Smooth.closes (List.forall_mem_append.mp hs).2
    have hclose := (List.forall_mem_append.mp hw).2
    -- nothing is offered when the element is closed
    obtain ⟨middle, hsplit, rfl⟩ := split_of_notMem heq fun hmem =>
      absurd (hinforms.close body hbody inner _ hmem) (by simp [Step.told?])
    have hmem : .offer node context ∈ (rule.open ⟨config, unit⟩ scope site).log ++ l := by
      simp [hsplit]
    rcases host_of_visit hbody hl hmem with ⟨hhost, rfl⟩ | ⟨hpayload, rfl⟩
    · refine .own hhost fun rule' hname' hn => ?_
      obtain rfl : rule = rule' := Option.some.inj (hname.symm.trans hname')
      obtain ⟨d, hd, htells⟩ := exists_namesake_of_visit hbody hn hcloses hclose
      refine foretold_of_split hsplit (fun x hx => ?_) hd htells
      rw [List.filterMap_append, symbol_of_dispatches hl, List.append_nil] at hx
      exact Rule.notMem_asides ((introduces_open site scope rule ⟨config, unit⟩).log x hx)
    · cases rule with
      | chainPackage kind =>
        refine .payload hname hpayload fun hid => ?_
        obtain ⟨d, hd, htells⟩ := exists_payload_of_visit hbody hpayload hid hcloses hclose
        refine foretold_of_split hsplit (fun x hx => ?_) hd htells
        rw [List.filterMap_append, symbol_of_dispatches hl, List.append_nil] at hx
        have hnone : ((Rule.chainPackage kind).open ⟨config, unit⟩ scope site).log.filterMap
            Step.symbol? = [] := collect_chainPackage site scope kind _
        rw [hnone] at hx
        cases hx
      | _ => cases hpayload

/-- No symbol is named for the document element. -/
theorem announced_root {root : Element} (h : root.qname = QName.core "Wix") (config : Config)
    {node : Offer} {context : Context} {earlier later : List Step}
    (hmem : .offer node context ∈ atPath [] (ascribed config root)) :
    Announced (Site.root root) node context earlier later := by
  have hnone : Rule.named? (Site.root root).element.name = none := by
    have hname : (Site.root root).element.name = "Wix" := congrArg QName.name h
    rw [hname]
    decide +kernel
  refine .own ?_ fun rule hrule => absurd (hnone.symm.trans hrule) (by simp)
  obtain ⟨l, hl, hdispatch⟩ := root_ascribed h config
  rw [hl, List.mem_append, List.mem_append] at hmem
  rcases hmem with hmem | hmem | hmem
  · simp at hmem
  · obtain ⟨a, -, heq⟩ := List.mem_map.mp hmem
    cases heq
    rfl
  · cases hdispatch _ hmem
    rfl

/-! ### Hooks that are called -/

/-- Whether there is an extension for a node. -/
def Extension.hears (extensions : List Extension) (node : Offer) : Bool :=
  (node.space?.bind (find? extensions)).isSome

namespace Run

variable (extensions : List Extension)

theorem told_step (r : Run) (s : Step) :
    (r.step extensions s).deliveries.map (fun d => (d.node, d.context)) =
      r.deliveries.map (fun d => (d.node, d.context)) ++
        s.told?.toList.filter (Extension.hears extensions ·.1) := by
  cases s with
  | offer node context =>
    have hhook := fun hook => deliveries_runHook node hook r
    simp only [step, offer, Step.told?, Extension.hears, Option.toList_some]
    cases hfind : node.space?.bind (Extension.find? extensions) with
    | none => simp [report, hfind]
    | some extension =>
      dsimp only
      split_ifs <;> simp [report, hhook, hfind]
  | openUnit header => simp [step, openUnit, Step.told?]
  | closeUnit => simp [step, closeUnit, Step.told?]
  | report d => simp [step, report, Step.told?]
  | _ => simp [step, Step.told?]

/-- The hooks that are called are those for what the steps offer, with what is told along with it. -/
theorem told_steps {r : Run} {l : List Step} (hh : (r.steps extensions l).halted = none) :
    (r.steps extensions l).deliveries.map (fun d => (d.node, d.context)) =
      r.deliveries.map (fun d => (d.node, d.context)) ++
        (l.filterMap Step.told?).filter (Extension.hears extensions ·.1) := by
  induction l generalizing r with
  | nil => simp [steps]
  | cons s l ih =>
    obtain ⟨-, heq⟩ := steps_cons_of_not_halted hh
    have hcons : (s :: l).filterMap Step.told? = s.told?.toList ++ l.filterMap Step.told? := by
      cases hs : s.told? <;> simp [hs]
    rw [heq] at hh
    rw [heq, ih hh, told_step, hcons, List.filter_append, List.append_assoc]

end Run

/-- The rules define no extension data. -/
theorem isOwn_of_smooth {config : Config} {root : Element}
    (h : ∀ s ∈ plan config root, s.Smooth) :
    ((plan config root).filterMap Step.symbol?).filter Definition.isOwn =
      (plan config root).filterMap Step.symbol? := by
  obtain ⟨-, l, after, hwalk, hsymbols⟩ := exists_walk_symbols h
  refine List.filter_eq_self.mpr fun d hd => ?_
  rw [hsymbols] at hd
  have hkind := hwalk.mem_kinds d hd
  rw [Definition.isOwn, bne_iff_ne]
  intro heq
  exact Content.extensionData_notMem_kinds _ (heq ▸ hkind)

namespace Compiler

variable {c : Compiler} {k : UInt32} {root : Element} {o : Output}

/-- Whatever is offered in a successful compile is announced. -/
theorem announced_of_isSuccess (h : (c.compileAs k root).result = .ok o) (hs : o.isSuccess)
    {before after : List Ascribed} {path : List Nat} {node : Offer} {context : Context}
    (heq : ascribed c.config root = before ++ (path, .offer node context) :: after) :
    ∃ site, (Site.root root).descend? path = some site ∧
      Announced site node context (atPath path before) (atPath path after) := by
  have hsmooth := smooth_of_isSuccess h hs
  have hwell := wellFormed_plan fun s hs => (hsmooth s hs).clean
  have hsplit : atPath path (ascribed c.config root) =
      atPath path before ++ .offer node context :: atPath path after := by
    simp [heq]
  cases path with
  | nil =>
    exact ⟨_, rfl, announced_root (exists_walk hsmooth).1 c.config (by simp [hsplit])⟩
  | cons i path =>
    have hvisited := visitedAt_ascribed c.config root i path
    obtain ⟨site, hsite, hvisit⟩ := hvisited.resolve_left (by simp [hsplit])
    have hmem : ∀ s ∈ atPath (i :: path) (ascribed c.config root), s ∈ plan c.config root :=
      fun s hs => map_ascribed c.config root ▸ mem_of_mem_atPath hs
    exact ⟨site, hsite, hvisit.announced (fun s hs => hsmooth s (hmem s hs))
      (fun s hs => hwell s (hmem s hs)) hsplit⟩

/-- **Extensions see the final identifier.** In a compile that succeeds, the steps for the elements of the
document are those of the plan, hooks are called for what they offer, and they define all symbols but
those of extensions. What a hook is told about the element of its node is the identifier of the symbol
that is later defined in the name of this element, if there is one. For a package the identifier of its
payload is told too, and for the child that authors the payload its own, if it has one. -/
theorem hooks_see_final_identifier (h : (c.compileAs k root).result = .ok o) (hs : o.isSuccess) :
    (ascribed c.config root).map (·.2) = plan c.config root ∧
    (c.compileAs k root).deliveries.map (fun d => (d.node, d.context)) =
      ((plan c.config root).filterMap Step.told?).filter (Extension.hears c.extensions ·.1) ∧
    (o.intermediate.symbols.map fun s => (s.id, s.data)).filter Definition.isOwn =
      (plan c.config root).filterMap Step.symbol? ∧
    ∀ before path node context after,
      ascribed c.config root = before ++ (path, .offer node context) :: after →
        ∃ site, (Site.root root).descend? path = some site ∧
          Announced site node context (atPath path before) (atPath path after) := by
  refine ⟨map_ascribed _ _, ?_, ?_, fun before path node context after heq =>
    announced_of_isSuccess h hs heq⟩
  · obtain ⟨hh, rfl⟩ := Run.result_eq_ok_iff.mp h
    exact Run.told_steps c.extensions hh
  · have hown := isOwn_of_smooth (smooth_of_isSuccess h hs)
    obtain ⟨hh, rfl⟩ := Run.result_eq_ok_iff.mp h
    have he : (Run.steps c.extensions { compilation := k } (plan c.config root)).hasErrors = false := by
      simpa [Output.isSuccess, Run.hasErrors] using hs
    have hrecords := Run.steps_records c.extensions (scoped_plan c.config root) (Run.ready_start k)
    have hsymbols := congrArg (List.map (·.2)) (hrecords.symbols he)
    rw [Run.settle_of_not_hasErrors he, ← hown, ← Run.filter_definitions hh]
    simpa [Run.definitions, Symbol.asked, Function.comp_def] using
      congrArg (List.filter Definition.isOwn) hsymbols

end Compiler

namespace Sample

/-- A group with a package that has a coloured payload, and a note for the package. -/
def labelled : Element :=
  element "Wix" [] [
    element "Fragment" [("Id", "F")] [
      element "PackageGroup" [("Id", "G")] [
        element "MsiPackage" [] [
          .node { tag coreNamespace "MsiPackagePayload" [] with
            attributes := [⟨.unqualified "Id", "P", ⟨0, 0⟩⟩, ⟨.unqualified "Name", "Tool.msi", ⟨0, 0⟩⟩,
              ⟨⟨some "notes", "color"⟩, "red", ⟨0, 0⟩⟩] } [],
          .node (tag "notes" "Note" []) []]]]]

end Sample

/-- The hooks for the colour and for the note are told the identifiers of the payload and of the package,
which are defined after both of them. -/
theorem hooks_see_final_identifier_labelled : ∃ o,
    (Sample.notingCompiler.compileAs 0 Sample.labelled).result = .ok o ∧ o.isSuccess ∧
      (Sample.notingCompiler.compileAs 0 Sample.labelled).deliveries.map (·.context) =
        [[("Id", "P")], [("Id", "tool.msi"), ("PayloadId", "P")]] ∧
      o.intermediate.symbols.map (fun s => (s.kind, s.id.id)) =
        [(.extensionData, "N"), (.extensionData, "N"), (.payload, "P"), (.package, "tool.msi"),
          (.packageGroup, "G")] ∧
      ∀ before path node context after,
        ascribed {} Sample.labelled = before ++ (path, .offer node context) :: after →
          ∃ site, (Site.root Sample.labelled).descend? path = some site ∧
            Announced site node context (atPath path before) (atPath path after) := by
  have h : (Sample.notingCompiler.compileAs 0 Sample.labelled).result = .ok _ := rfl
  obtain ⟨-, -, -, hannounced⟩ := Compiler.hooks_see_final_identifier h (by decide +kernel)
  exact ⟨_, h, by decide +kernel, by decide +kernel, by decide +kernel, hannounced⟩

end Installer
