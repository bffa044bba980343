import Installer.Proofs.Outputs
import Installer.Proofs.WellFormed.Units

/-! # No placeholder is left in an output

Where an attribute is missing or wrong, a rule goes on with a placeholder: an invalid identifier, an
empty text, a default. None of them gets into an output. A run that comes to its end reports all
findings of its plan (`Run.mem_diagnostics_of_report`), so that the plan of a compile without errors
is clean, and without extensions all symbols are defined by steps of the plan
(`Run.mem_of_symbol_mem_events`). -/

namespace Installer

open Compile

namespace Run

/-- Without extensions all calls for symbols are steps. -/
theorem mem_of_symbol_mem_events {r : Run} {l : List Step} {unit : Option ActiveUnit}
    {id : Identifier} {data : Symbol.Data} (h : ⟨unit, .symbol id data⟩ ∈ r.events [] l) :
    .emit id data ∈ l := by
  induction l generalizing r with
  | nil => cases h
  | cons s l ih =>
    rcases List.mem_append.mp h with h | h
    · cases s with
      | emit id' data' =>
        simp only [stepEvents, List.mem_singleton, Event.mk.injEq, Call.symbol.injEq] at h
        simp [h]
      | offer node context => cases hs : node.space? <;> simp [stepEvents, hs, Extension.find?] at h
      | _ => simp [stepEvents] at h
    · split_ifs at h
      · cases h
      · exact List.mem_cons_of_mem s (ih h)

/-- A plan that is run to its end without an error is clean. -/
theorem clean_of_not_hasErrors {extensions : List Extension} {r : Run} {a b : Bool} {l : List Step}
    (hl : Scoped a l b) (hr : r.Ready a) (hh : (r.steps extensions l).halted = none)
    (he : (r.steps extensions l).hasErrors = false) : ∀ s ∈ l, s.Clean :=
  fun s hs => (smooth_of_not_hasErrors hl hr hh he s hs).clean

/-- Without extensions and errors, all symbols of an intermediate are defined by steps. -/
theorem emit_mem_of_mem_symbols {k : UInt32} {l : List Step} {b : Bool} (hl : Scoped false l b)
    (he : (Run.steps [] { compilation := k } l).hasErrors = false) {s : Symbol}
    (hs : s ∈ (Run.steps [] { compilation := k } l).intermediate.symbols) :
    .emit s.id s.data ∈ l := by
  have hsymbols := (steps_records [] hl (ready_start k)).symbols he
  have hmem : s.asked ∈ (Run.events [] { compilation := k } l).filterMap Event.symbol? := by
    have hasked := List.mem_map_of_mem (f := Symbol.asked) hs
    rw [hsymbols] at hasked
    simpa using hasked
  obtain ⟨⟨unit, call⟩, hevent, hcall⟩ := List.mem_filterMap.mp hmem
  cases call with
  | symbol id data =>
    simp only [Event.symbol?, Symbol.asked, Option.some.injEq, Prod.mk.injEq] at hcall
    obtain ⟨-, rfl, rfl⟩ := hcall
    exact mem_of_symbol_mem_events hevent
  | _ => cases hcall

end Run

namespace Compiler

/-- **No placeholder is left in an output.** All symbols of an output that was compiled without
extensions are well-formed: they are named, and what they hold lies in the domains of the attributes
it was read from. An output with errors has no symbols. -/
theorem compileAs_wellFormed (c : Compiler) (hc : c.extensions = []) (k : UInt32) (root : Element)
    (o : Output) (h : (c.compileAs k root).result = .ok o) :
    ∀ s ∈ o.intermediate.symbols, s.WellFormed := by
  have hl := scoped_plan c.config root
  unfold compileAs at h
  rw [hc] at h
  obtain ⟨hh, rfl⟩ := Run.result_eq_ok_iff.mp h
  cases he : (Run.steps [] { compilation := k } (plan c.config root)).hasErrors with
  | true =>
    rw [Run.settle_of_hasErrors he]
    simp
  | false =>
    rw [Run.settle_of_not_hasErrors he]
    intro s hs
    have hclean := Run.clean_of_not_hasErrors hl (Run.ready_start k) hh he
    obtain ⟨hnamed, hdomain⟩ :=
      wellFormed_plan hclean _ (Run.emit_mem_of_mem_symbols hl he hs) _ _ rfl
    exact ⟨hnamed, hdomain⟩

end Compiler

namespace Sample

/-- A package, a patch and a bundle, with values that stand for themselves and values that are
normalized, joined or made from others. -/
def product : Element :=
  element "Wix" [] [
    element "Package" [("Name", "Tool"), ("Manufacturer", "Acme"), ("Version", "1.2.3"),
        ("UpgradeCode", "0123456789abcdef0123456789ABCDEF"), ("Codepage", "utf-8")] [
      element "Component" [("Id", "C"), ("Guid", "*")] [
        element "RegistryKey" [("Root", "HKLM"), ("Key", "Software")] [
          element "RegistryValue" [("Key", "Tool"), ("Type", "integer"), ("Value", "#7")] []]],
      element "InstallExecuteSequence" [] [
        element "Custom" [("Action", "A"), ("After", "InstallFiles")] [],
        element "InstallFiles" [("Sequence", "4000")] []]],
    element "Patch" [("Id", "\x7b01234567-89ab-cdef-0123-456789abcdef\x7d")] [
      element "PatchProperty" [("Name", "P"), ("Value", "")] []],
    element "Bundle" [("Version", "!(bind.packageVersion.Tool)")] [
      element "Chain" [] [
        element "ExePackage" [("SourceFile", "bin\\setup 1.exe")] [
          element "ArpEntry" [("Id", "Tool"), ("Version", "1.0")] []],
        element "MsiPackage" [("Id", "private M"), ("Name", "tool.msi")] [
          element "MsiProperty" [("Name", "DIR"), ("Value", "x")] [],
          element "SlipstreamMsp" [("Id", "Fix")] []]]]]

end Sample

/-- The output for a product has twenty-one symbols, and no placeholder. -/
theorem compileAs_wellFormed_product : ∃ o,
    (Compiler.compileAs {} 0 Sample.product).result = .ok o ∧ o.intermediate.symbols.length = 21 ∧
      ∀ s ∈ o.intermediate.symbols, s.WellFormed := by
  have h : (Compiler.compileAs {} 0 Sample.product).result = .ok _ := rfl
  exact ⟨_, h, by decide +kernel, Compiler.compileAs_wellFormed {} rfl 0 Sample.product _ h⟩

end Installer
