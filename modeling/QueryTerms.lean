import QueryTerms.Arguments
import QueryTerms.Artifact.Directory
import QueryTerms.Artifact.Store
import QueryTerms.CommandLine
import QueryTerms.Config
import QueryTerms.Error
import QueryTerms.Interface.Basic
import QueryTerms.Interface.Decode
import QueryTerms.Interface.Fragments
import QueryTerms.Join.Attach
import QueryTerms.Join.Filter
import QueryTerms.Join.Merge
import QueryTerms.Join.Nest
import QueryTerms.Join.Operand
import QueryTerms.Json.Amount
import QueryTerms.Json.Decode
import QueryTerms.Json.Document
import QueryTerms.Key.Basic
import QueryTerms.Main
import QueryTerms.Number.FloatView
import QueryTerms.Number.Layout
import QueryTerms.Number.Reading
import QueryTerms.Number.Shortest
import QueryTerms.Proofs.Join.Attach
import QueryTerms.Proofs.Join.Filter
import QueryTerms.Proofs.Join.Nest
import QueryTerms.Proofs.Key
import QueryTerms.Proofs.Outcome
import QueryTerms.Proofs.Query.Names
import QueryTerms.Proofs.Query.Operand
import QueryTerms.Proofs.Row.Grouping
import QueryTerms.Proofs.Row.Merge
import QueryTerms.Proofs.Row.Names
import QueryTerms.Proofs.Row.Order
import QueryTerms.Proofs.Table
import QueryTerms.Proofs.Term.Balance
import QueryTerms.Proofs.Term.Canonical
import QueryTerms.Proofs.Term.RoundTrip
import QueryTerms.Query.Build
import QueryTerms.Query.Execution
import QueryTerms.Query.Leaf
import QueryTerms.Query.Node
import QueryTerms.Query.Run
import QueryTerms.Resolver
import QueryTerms.Row.Keyed
import QueryTerms.Row.Merge
import QueryTerms.Row.Order
import QueryTerms.Row.Path
import QueryTerms.Shaping
import QueryTerms.Sql.Database
import QueryTerms.Sql.Literal
import QueryTerms.Sql.Render
import QueryTerms.Sql.Token
import QueryTerms.Table
import QueryTerms.Term.Basic
import QueryTerms.Term.Distribution
import QueryTerms.Term.ParseError
import QueryTerms.Term.Parser
import QueryTerms.Term.Printer
import QueryTerms.Term.Split
import QueryTerms.Text.Blank
import QueryTerms.Text.Quoted
import QueryTerms.Text.Separator
import QueryTerms.Text.Spelled
import QueryTerms.Value.Basic
import QueryTerms.Value.Text
import QueryTerms.Proofs.Row.Keyed
import QueryTerms.Proofs.Row.Sorted
import QueryTerms.Proofs.Row.Union
import QueryTerms.Proofs.Query.Batches
import QueryTerms.Proofs.Term.Grammar
import QueryTerms.Proofs.Term.Reading
import QueryTerms.Proofs.Sql.Literal
import QueryTerms.Proofs.Sql.Rendering
import QueryTerms.Proofs.Term.Shorthand
import QueryTerms.Proofs.Term.Spreading
import QueryTerms.Proofs.Query.Restricting
import QueryTerms.Proofs.Gather
import QueryTerms.Proofs.Row.Overlay
import QueryTerms.Proofs.Row.Gathering
import QueryTerms.Proofs.Join.Course
import QueryTerms.Proofs.Artifact.Agreement
import QueryTerms.Proofs.Artifact.Asked
import QueryTerms.Proofs.Join.Nulls
import QueryTerms.Proofs.Join.Union
import QueryTerms.Proofs.Query.Built
import QueryTerms.Proofs.Query.Calls
import QueryTerms.Proofs.Query.Kinds
import QueryTerms.Proofs.Query.Layout
import QueryTerms.Proofs.Query.Values
import QueryTerms.Proofs.Query.Paging
import QueryTerms.Proofs.Row.Sorting
import QueryTerms.Proofs.Term.Levels
import QueryTerms.Proofs.Term.Depth
import QueryTerms.Proofs.Term.Loops
import QueryTerms.Proofs.Term.Renaming
import QueryTerms.Proofs.Query.Nesting
import QueryTerms.Proofs.Query.Scopes
import QueryTerms.Proofs.Join.Ordered
import QueryTerms.Proofs.Key.Components
import QueryTerms.Proofs.Row.Conflicts
import QueryTerms.Proofs.Term.Spacing
import QueryTerms.Proofs.Term.Substitution
import QueryTerms.Proofs.Term.Respacing
import QueryTerms.Proofs.Term.Rounds
import QueryTerms.Proofs.Term.Unbalanced
import QueryTerms.Proofs.Term.Cutting
import QueryTerms.Proofs.Text.Separator
import QueryTerms.Proofs.Row.Paths
import QueryTerms.Proofs.Row.Unnesting
import QueryTerms.Proofs.Row.OuterJoin
import QueryTerms.Proofs.Row.Flattening
import QueryTerms.Proofs.Query.BatchSizes
import QueryTerms.Proofs.Query.Rebinding
import QueryTerms.Proofs.Query.Scalars
import QueryTerms.Proofs.Row.InPlace
import QueryTerms.Proofs.Key.Collecting
import QueryTerms.Proofs.Row.Partition
