import Provenance.Aggregate
import Provenance.Archive.Basic
import Provenance.Archive.Folder
import Provenance.Catalog.Basic
import Provenance.Catalog.Compile
import Provenance.Catalog.Encoding
import Provenance.Catalog.Index
import Provenance.Command.Arguments
import Provenance.Command.Basic
import Provenance.Command.Clock
import Provenance.Command.Machine
import Provenance.Command.Memory
import Provenance.Command.Variables
import Provenance.Decimal.Arithmetic
import Provenance.Decimal.Basic
import Provenance.Decimal.Division
import Provenance.Decimal.Text
import Provenance.Document
import Provenance.Edge.Basic
import Provenance.Edge.Encoding
import Provenance.Edge.Indexed
import Provenance.Edge.Log
import Provenance.Entity.Basic
import Provenance.Error
import Provenance.Evaluation
import Provenance.Expr.Basic
import Provenance.Expr.Encoding
import Provenance.Expr.Reading
import Provenance.Functions
import Provenance.Graph.Search
import Provenance.Hierarchy
import Provenance.Id
import Provenance.Initialization.Basic
import Provenance.Initialization.Commit
import Provenance.Initialization.Derive
import Provenance.Initialization.Plan
import Provenance.Initialization.Populate
import Provenance.Initialization.State
import Provenance.Json.Basic
import Provenance.Json.Parse
import Provenance.Json.Text
import Provenance.Json.Token
import Provenance.Loading
import Provenance.Main
import Provenance.Number.Double
import Provenance.Number.Rounding
import Provenance.Proofs.Distinct
import Provenance.Proofs.Evaluation.Footprint
import Provenance.Proofs.Rows.Alike
import Provenance.Proofs.Rows.Frames
import Provenance.Proofs.Traverse
import Provenance.Report.Basic
import Provenance.Report.Encoding
import Provenance.Rows.Create
import Provenance.Rows.Join
import Provenance.Rows.Key
import Provenance.Rows.Source
import Provenance.Run
import Provenance.Scalar.Arithmetic
import Provenance.Scalar.Basic
import Provenance.Scalar.Coercion
import Provenance.Scalar.Reading
import Provenance.Schema.Basic
import Provenance.Schema.Encoding
import Provenance.Schema.Reading
import Provenance.Settings
import Provenance.Sha256
import Provenance.Snapshot.Basic
import Provenance.Snapshot.Encoding
import Provenance.SourceData
import Provenance.Store.Basic
import Provenance.Text.Basic
import Provenance.Text.Case
import Provenance.Text.Digits
import Provenance.Text.Printable
import Provenance.Text.Quoted
import Provenance.Timestamp
import Provenance.Trail
import Provenance.View
import Provenance.View.Encoding
import Provenance.Yaml.Block
import Provenance.Yaml.Cursor
import Provenance.Yaml.Document
import Provenance.Yaml.Flow
import Provenance.Yaml.Node
import Provenance.Yaml.Property
import Provenance.Yaml.Resolution
import Provenance.Yaml.Scanner
import Provenance.Yaml.Token
import Provenance.Proofs.Evaluation.Agreement
import Provenance.Proofs.Evaluation.Failure
import Provenance.Proofs.Catalog.WellFormed
import Provenance.Proofs.Catalog.Compiled
import Provenance.Proofs.Speculative.Plan
import Provenance.Proofs.Speculative.Rows
import Provenance.Proofs.Store.Filled
import Provenance.Proofs.Store.Places
import Provenance.Proofs.Store.Sound
import Provenance.Proofs.Initialization.Staging
import Provenance.Proofs.Edge.Log
import Provenance.Proofs.Initialization.Edges
import Provenance.Proofs.Initialization.Grounded
import Provenance.Proofs.Initialization.Committing
import Provenance.Proofs.Initialization.Steps
import Provenance.Proofs.Initialization.History
import Provenance.Proofs.Initialization.Invariant
import Provenance.Proofs.Reachable
import Provenance.Proofs.Initialization.Atomicity
import Provenance.Proofs.Lineage.Exactness
import Provenance.Proofs.Evaluation.Renaming
import Provenance.Proofs.Rows.Renaming
import Provenance.Proofs.Store.Twins
import Provenance.Proofs.Initialization.Renaming
import Provenance.Proofs.Initialization.Derivable
import Provenance.Proofs.Initialization.Confluence
import Provenance.Proofs.View
import Provenance.Proofs.Confluence
import Provenance.Proofs.Catalog.Named
import Provenance.Proofs.Outcome
import Provenance.Proofs.Graph.Cycle
import Provenance.Proofs.Edge.Cycle
import Provenance.Proofs.Graph.Walk
import Provenance.Proofs.Graph.Queue
import Provenance.Proofs.Edge.Walk
import Provenance.Proofs.Lineage.Acyclic
import Provenance.Proofs.Lineage.Reports
import Provenance.Proofs.Lineage.Resolution
import Provenance.Proofs.Rows.Filled
import Provenance.Proofs.Lineage.Coverage
import Provenance.Proofs.Lineage.Rows
import Provenance.Proofs.Scalar.Equality
import Provenance.Proofs.Rows.Grouping
import Provenance.Proofs.Scalar.Sum
import Provenance.Proofs.Lineage.Totals
import Provenance.Proofs.Rows.Amounts
import Provenance.Proofs.Lineage.Grouped
import Provenance.Proofs.RollUp
import Provenance.Proofs.Grid
import Provenance.Proofs.Rows.NestedLoop
import Provenance.Proofs.Rows.Partition
import Provenance.Proofs.Rows.Resolved
import Provenance.Proofs.Initialization.Check
import Provenance.Proofs.Initialization.Sources
import Provenance.Proofs.Internal
import Provenance.Proofs.Unresolved
import Provenance.Proofs.Initialization.Tracking
import Provenance.Proofs.Bookkeeping
import Provenance.Proofs.Initialization.Machine
import Provenance.Proofs.Dependencies
import Provenance.Proofs.Requests
import Provenance.Proofs.Hierarchy
import Provenance.Proofs.Hierarchy.Scan
import Provenance.Proofs.Catalog.Accepted
import Provenance.Proofs.Catalog.Closed
import Provenance.Proofs.Archive.Shelf
import Provenance.Proofs.Archive.Folder
import Provenance.Proofs.Json.Reparse
import Provenance.Proofs.Json.Fields
import Provenance.Proofs.Decimal.Reread
import Provenance.Proofs.Schema.Literals
import Provenance.Proofs.Schema.Reread
import Provenance.Proofs.Schema.Canonical
import Provenance.Proofs.Initialization.Lockstep
import Provenance.Proofs.Footprint
import Provenance.Proofs.Speculative.Sources
import Provenance.Proofs.Speculative.Derived
import Provenance.Proofs.Speculative.Policies
import Provenance.Proofs.Snapshot
import Provenance.Proofs.Timestamp
import Provenance.Proofs.Snapshot.Reread
import Provenance.Proofs.Numbering
import Provenance.Proofs.Archive.RoundTrip
import Provenance.Proofs.Store.Image
import Provenance.Proofs.Catalog.Moves
import Provenance.Proofs.Initialization.Moved
import Provenance.Proofs.Actions
import Provenance.Proofs.Definitions
import Provenance.Proofs.Edge.Moved
import Provenance.Proofs.Answers
import Provenance.Proofs.Restart
import Provenance.Proofs.Catalog.Extension
import Provenance.Proofs.Catalog.Index
import Provenance.Proofs.Catalog.Transfer
import Provenance.Proofs.Evaluation.Extension
import Provenance.Proofs.Initialization.Extension
import Provenance.Proofs.Initialization.Transferred
import Provenance.Proofs.Conservative
import Provenance.Proofs.Hierarchy.Membership
import Provenance.Proofs.Aggregate
import Provenance.Proofs.Evaluation.Integers
import Provenance.Proofs.Decimal.Rounding
import Provenance.Proofs.Average
import Provenance.Proofs.Edge.Indexed
import Provenance.Proofs.Reimport
