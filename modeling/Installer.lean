import Installer.CodePage
import Installer.Compile.Field
import Installer.Compile.Finding
import Installer.Compile.Opening
import Installer.Compile.Plan
import Installer.Compile.Rule.Action
import Installer.Compile.Rule.BundlePart
import Installer.Compile.Rule.ChainPackage
import Installer.Compile.Rule.Grouping
import Installer.Compile.Rule.PackagePart
import Installer.Compile.Rule.PayloadSource
import Installer.Compile.Rule.Property
import Installer.Compile.Rule.Registry
import Installer.Compile.Rule.Unit
import Installer.Compile.Rule.Variable
import Installer.Compile.Run
import Installer.Compile.Step
import Installer.Compile.Value
import Installer.Compile.Vocabulary
import Installer.Compiler
import Installer.Diagnostic
import Installer.Document
import Installer.Document.Arena
import Installer.Document.Builder
import Installer.Document.Reading
import Installer.Extension
import Installer.Extension.Script
import Installer.FileName
import Installer.Guid
import Installer.Hash.Xxh3
import Installer.Identifier
import Installer.Identifier.Synthesis
import Installer.Intermediate
import Installer.Json
import Installer.Markup.Entity
import Installer.Markup.Event
import Installer.Markup.Fault
import Installer.Markup.Namespace
import Installer.Markup.TagContent
import Installer.Markup.Token
import Installer.Proofs.Agreement
import Installer.Proofs.Announcements
import Installer.Proofs.Append
import Installer.Proofs.Assembly
import Installer.Proofs.AuthoredIdentifiers
import Installer.Proofs.AttributeKeys
import Installer.Proofs.AttributeOrder
import Installer.Proofs.Arenas
import Installer.Proofs.BuiltDocuments
import Installer.Proofs.Calls
import Installer.Proofs.Checked
import Installer.Proofs.Collect
import Installer.Proofs.Congruence
import Installer.Proofs.CustomActions
import Installer.Proofs.Delegation
import Installer.Proofs.DeprecatedNames
import Installer.Proofs.Deprecation
import Installer.Proofs.Discriminators
import Installer.Proofs.Dispatch
import Installer.Proofs.DocumentShape
import Installer.Proofs.DocumentTree
import Installer.Proofs.Domains
import Installer.Proofs.FileNames
import Installer.Proofs.FindingRanges
import Installer.Proofs.Findings
import Installer.Proofs.Flattening
import Installer.Proofs.ForeignMarkup
import Installer.Proofs.Gate
import Installer.Proofs.Gist
import Installer.Proofs.GroupGraph
import Installer.Proofs.GroupOrder
import Installer.Proofs.Groups
import Installer.Proofs.GuidForms
import Installer.Proofs.GuidSpelling
import Installer.Proofs.HandOff
import Installer.Proofs.Independence
import Installer.Proofs.JsonText
import Installer.Proofs.Kinds
import Installer.Proofs.Leaves
import Installer.Proofs.LetterCase
import Installer.Proofs.Listing
import Installer.Proofs.Locality
import Installer.Proofs.Namesakes
import Installer.Proofs.Nesting
import Installer.Proofs.Numerals
import Installer.Proofs.Occurrences
import Installer.Proofs.Offers
import Installer.Proofs.OpenSection
import Installer.Proofs.Openings
import Installer.Proofs.Outputs
import Installer.Proofs.PackageKinds
import Installer.Proofs.PackageSymbols
import Installer.Proofs.Packages
import Installer.Proofs.Paths
import Installer.Proofs.PayloadFields
import Installer.Proofs.PayloadForms
import Installer.Proofs.PayloadSources
import Installer.Proofs.Placeholders
import Installer.Proofs.Promises
import Installer.Proofs.Pruning
import Installer.Proofs.Reach
import Installer.Proofs.References
import Installer.Proofs.RegistryFlattening
import Installer.Proofs.RegistryNames
import Installer.Proofs.RegistryTrees
import Installer.Proofs.Reordering
import Installer.Proofs.Reserved
import Installer.Proofs.Runs
import Installer.Proofs.Schedules
import Installer.Proofs.Schema
import Installer.Proofs.Scoping
import Installer.Proofs.Sessions
import Installer.Proofs.SourceRanges
import Installer.Proofs.Surroundings
import Installer.Proofs.SymbolBlocks
import Installer.Proofs.SymbolFields
import Installer.Proofs.SynthesizedNames
import Installer.Proofs.TagPlaces
import Installer.Proofs.Trail
import Installer.Proofs.TypedReading
import Installer.Proofs.Typing
import Installer.Proofs.UnitSteps
import Installer.Proofs.Variables
import Installer.Proofs.Walk
import Installer.Proofs.WellFormed
import Installer.Proofs.WellFormed.Bundles
import Installer.Proofs.WellFormed.Databases
import Installer.Proofs.WellFormed.Units
import Installer.Reference
import Installer.Section
import Installer.Snippet
import Installer.Snippet.Canvas
import Installer.Snippet.Layout
import Installer.Snippet.Mark
import Installer.Snippet.SourceLine
import Installer.Symbol
import Installer.Symbol.Bundle
import Installer.Symbol.Choice
import Installer.Symbol.Database
import Installer.Symbol.Package
import Installer.Text.Blank
import Installer.Text.CaseIgnorable
import Installer.Text.Cased
import Installer.Text.LowerCase
import Installer.Text.Number
import Installer.Text.Ranges
import Installer.Text.Width
import Installer.Version
import Installer.Proofs.Flattening
