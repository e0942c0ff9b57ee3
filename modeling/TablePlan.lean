import TablePlan.Clause.Json
import TablePlan.Clause.Sql
import TablePlan.Schema.Selection
import TablePlan.Names
import TablePlan.Dependency.Resolver
import TablePlan.Dependency.Dot
import TablePlan.Catalog.Engine
import TablePlan.Document.Load
import TablePlan.Settings
import TablePlan.CommandLine.Folder
import TablePlan.Main
import TablePlan.Proofs.Keyed
import TablePlan.Proofs.Walk
import TablePlan.Proofs.Order
import TablePlan.Proofs.Mentions
import TablePlan.Proofs.Scanned
import TablePlan.Proofs.Run
import TablePlan.Proofs.Lookup
import TablePlan.Proofs.Trace
import TablePlan.Proofs.Waiting
import TablePlan.Proofs.Settlement
import TablePlan.Proofs.Reach
import TablePlan.Proofs.Path
import TablePlan.Proofs.FirstScan
import TablePlan.Proofs.Acceptance
import TablePlan.Proofs.Ceiling
import TablePlan.Proofs.Components
import TablePlan.Proofs.Detection
import TablePlan.Proofs.Agreement
import TablePlan.Proofs.Ingestion
import TablePlan.Proofs.Planned
import TablePlan.Proofs.Loaded
import TablePlan.Proofs.Raised
import TablePlan.Proofs.History
import TablePlan.Proofs.Reordered
import TablePlan.Proofs.Listing
import TablePlan.Proofs.Fields
import TablePlan.Proofs.Declared
import TablePlan.Proofs.Parts
import TablePlan.Proofs.Dashes
import TablePlan.Proofs.Comments
import TablePlan.Proofs.Neighbours
import TablePlan.Proofs.Suffixes
import TablePlan.Proofs.Lifetime
import TablePlan.Proofs.Readable
import TablePlan.Proofs.ReadBack
import TablePlan.Proofs.Requests
import TablePlan.Proofs.Rounds
import TablePlan.Proofs.Closures
import TablePlan.Proofs.Decoded
import TablePlan.Proofs.Trimmed
import TablePlan.Proofs.References
import TablePlan.Proofs.Cycles
import TablePlan.Proofs.Subqueries
import TablePlan.Proofs.Wording
import TablePlan.Proofs.Annotated
import TablePlan.Proofs.Selected
import TablePlan.Proofs.Converted
import TablePlan.Proofs.Additions
import TablePlan.Proofs.Naming
import TablePlan.Proofs.Drawing
import TablePlan.Proofs.Legible
import TablePlan.Proofs.Dotted
import TablePlan.Proofs.Calls
