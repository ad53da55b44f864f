import RecordGuard.Action
import RecordGuard.Catalog
import RecordGuard.Collection
import RecordGuard.CommandLine.Arguments
import RecordGuard.CommandLine.Attribute
import RecordGuard.CommandLine.Command
import RecordGuard.CommandLine.Workspace
import RecordGuard.Decimal.Shortest
import RecordGuard.Distinct
import RecordGuard.Entity
import RecordGuard.Entries
import RecordGuard.Error
import RecordGuard.Facade
import RecordGuard.Filter.Basic
import RecordGuard.Filter.Codec
import RecordGuard.Filter.Comparison
import RecordGuard.Filter.Evaluation
import RecordGuard.Filter.Like
import RecordGuard.Guarded
import RecordGuard.Hooks
import RecordGuard.Identifier
import RecordGuard.Identity
import RecordGuard.Include.Cascade
import RecordGuard.Include.Plan
import RecordGuard.Include.Tree
import RecordGuard.Json.Double
import RecordGuard.Json.Number
import RecordGuard.Json.Printer
import RecordGuard.Json.Reader
import RecordGuard.Json.Record
import RecordGuard.Json.Tree
import RecordGuard.Json.Value
import RecordGuard.Main
import RecordGuard.Mask.Basic
import RecordGuard.Mask.Codec
import RecordGuard.Order
import RecordGuard.Path
import RecordGuard.Permission
import RecordGuard.Policy.Basic
import RecordGuard.Proofs.AcceptedCatalogs
import RecordGuard.Proofs.Canonical
import RecordGuard.Proofs.Catalogs
import RecordGuard.Proofs.CollectionUpdates
import RecordGuard.Proofs.CompactMasks
import RecordGuard.Proofs.Confinement
import RecordGuard.Proofs.Equality
import RecordGuard.Proofs.ExternalNames
import RecordGuard.Proofs.FailedHooks
import RecordGuard.Proofs.FilterForms
import RecordGuard.Proofs.GuardedOperations
import RecordGuard.Proofs.GuardedUpdate
import RecordGuard.Proofs.IncludeForms
import RecordGuard.Proofs.IntegerFilters
import RecordGuard.Proofs.Layers
import RecordGuard.Proofs.Leaves
import RecordGuard.Proofs.LikePatterns
import RecordGuard.Proofs.Lookup
import RecordGuard.Proofs.MaskLaws
import RecordGuard.Proofs.Masks
import RecordGuard.Proofs.MergedMasks
import RecordGuard.Proofs.Narrowing
import RecordGuard.Proofs.NumberOrder
import RecordGuard.Proofs.Pages
import RecordGuard.Proofs.PathSteps
import RecordGuard.Proofs.PathUpdates
import RecordGuard.Proofs.PlanFailures
import RecordGuard.Proofs.PlannedTree
import RecordGuard.Proofs.PolicyForms
import RecordGuard.Proofs.Positions
import RecordGuard.Proofs.PrintedNumbers
import RecordGuard.Proofs.PrintedText
import RecordGuard.Proofs.ReadBack
import RecordGuard.Proofs.RedactedReads
import RecordGuard.Proofs.Removals
import RecordGuard.Proofs.ResolvedTemplates
import RecordGuard.Proofs.RestoredPositions
import RecordGuard.Proofs.Restoring
import RecordGuard.Proofs.Results
import RecordGuard.Proofs.Rewriting
import RecordGuard.Proofs.RoleVerdicts
import RecordGuard.Proofs.Rounding
import RecordGuard.Proofs.SearchTerms
import RecordGuard.Proofs.Segments
import RecordGuard.Proofs.SelectedFields
import RecordGuard.Proofs.SelectedLeaves
import RecordGuard.Proofs.SettledPayloads
import RecordGuard.Proofs.SortedDocuments
import RecordGuard.Proofs.Steps
import RecordGuard.Proofs.StoredIdentifiers
import RecordGuard.Proofs.StrippedPositions
import RecordGuard.Proofs.Stripping
import RecordGuard.Proofs.TestedPaths
import RecordGuard.Proofs.UntouchedParts
import RecordGuard.Proofs.WriteIntegrity
import RecordGuard.Query
import RecordGuard.Redaction.Restore
import RecordGuard.Redaction.Strip
import RecordGuard.Selection
import RecordGuard.Settings
import RecordGuard.Sorting
import RecordGuard.Store
import RecordGuard.Template
import RecordGuard.Text.Blank
import RecordGuard.Text.CaseTable
import RecordGuard.Text.Invisible
import RecordGuard.Text.Lowercase
import RecordGuard.Text.Quoted
import RecordGuard.Text.Ranges
import RecordGuard.Word
