import GraphSelect.Main
import GraphSelect.Workbench
import GraphSelect.Traversal.Drafts
import GraphSelect.Proofs.Conditions
import GraphSelect.Proofs.Joins
import GraphSelect.Proofs.Grouping
import GraphSelect.Proofs.Groups
import GraphSelect.Proofs.Clauses
import GraphSelect.Proofs.ClauseOrder
import GraphSelect.Proofs.Columns
import GraphSelect.Proofs.Grammar
import GraphSelect.Proofs.Parsing
import GraphSelect.Proofs.Spelling
import GraphSelect.Proofs.TreeTokens
import GraphSelect.Proofs.Rereading
import GraphSelect.Proofs.Reparsing
import GraphSelect.Proofs.NameFaults
import GraphSelect.Proofs.Numbers
import GraphSelect.Proofs.Resolution
import GraphSelect.Proofs.SameNames
import GraphSelect.Proofs.UniqueReading
import GraphSelect.Proofs.WellScoped
import GraphSelect.Proofs.Wording
import GraphSelect.Proofs.WholeTrees
import GraphSelect.Proofs.Numerals
import GraphSelect.Proofs.Explained
import GraphSelect.Proofs.Supported
import GraphSelect.Proofs.NullComparisons
import GraphSelect.Proofs.KeyReadings
import GraphSelect.Proofs.Untyped
import GraphSelect.Proofs.UniqueTokens
import GraphSelect.Proofs.KeyTexts
import GraphSelect.Proofs.Resolved
import GraphSelect.Proofs.AggregateArguments
import GraphSelect.Proofs.AggregatePlaces
import GraphSelect.Proofs.Atomicity
import GraphSelect.Proofs.Recasing
import GraphSelect.Proofs.OperatorChains
import GraphSelect.Proofs.QuotedConstants
import GraphSelect.Proofs.SignedNumbers
import GraphSelect.Proofs.JoinEdges
import GraphSelect.Proofs.SortKeys
import GraphSelect.Proofs.SubQueries
import GraphSelect.Proofs.Ordinals
import GraphSelect.Proofs.GroupKeys
import GraphSelect.Proofs.FreshNames
import GraphSelect.Proofs.TextLiterals
import GraphSelect.Proofs.EqualTraversals
import GraphSelect.Proofs.RespelledNames
