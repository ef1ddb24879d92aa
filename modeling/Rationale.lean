import Rationale.Ascending
import Rationale.Assembly
import Rationale.Binary64
import Rationale.Chance
import Rationale.Code
import Rationale.CommandLine
import Rationale.Confirmation
import Rationale.Entity
import Rationale.Fault
import Rationale.Graph.Search
import Rationale.Graph.Walk
import Rationale.Index
import Rationale.Json
import Rationale.Json.Entity
import Rationale.Json.Justification
import Rationale.Json.Sql
import Rationale.Json.Store
import Rationale.Json.Text
import Rationale.Justification
import Rationale.Main
import Rationale.Proofs.Firsts
import Rationale.Proofs.Outcome
import Rationale.Proofs.Sorting
import Rationale.Query.Lookup
import Rationale.Query.Page
import Rationale.Query.Path
import Rationale.Query.Projection
import Rationale.Query.Request
import Rationale.Query.Sort
import Rationale.Reconstruction
import Rationale.Resolution
import Rationale.Settings
import Rationale.Settings.Document
import Rationale.Settings.Literal
import Rationale.Settings.Table
import Rationale.Settings.Value
import Rationale.Sql.Composing
import Rationale.Sql.Fragment
import Rationale.Sql.Value
import Rationale.Store.Joined
import Rationale.Store.Link
import Rationale.Store.Log
import Rationale.Store.Lookup
import Rationale.Store.Reach
import Rationale.Store.Read
import Rationale.Store.Readers
import Rationale.Store.Row
import Rationale.Store.Schema
import Rationale.Text.Blank
import Rationale.Text.Decimal
import Rationale.Text.Order
import Rationale.Text.Quoted
import Rationale.Text.Radix
import Rationale.Time.Calendar
import Rationale.Time.Instant
import Rationale.Time.Loose
import Rationale.Time.Timestamp
import Rationale.Vocabulary
import Rationale.Proofs.KeyOrder
import Rationale.Proofs.Keys
import Rationale.Proofs.Timestamps
import Rationale.Proofs.Gathering
import Rationale.Proofs.Selection
import Rationale.Proofs.Outlines
import Rationale.Proofs.Decoding
import Rationale.Proofs.Reconstruction
import Rationale.Proofs.PageRows
import Rationale.Proofs.Hydration
import Rationale.Proofs.Assembling
import Rationale.Proofs.Chains
import Rationale.Proofs.Reading
import Rationale.Proofs.Nesting
import Rationale.Proofs.ByteOrder
import Rationale.Proofs.Pages
import Rationale.Proofs.Continuations
import Rationale.Proofs.WellFormed
import Rationale.Proofs.Progress
import Rationale.Proofs.Companions
import Rationale.Proofs.Portraits
import Rationale.Proofs.Consistency
import Rationale.Proofs.Showing
import Rationale.Proofs.Scanning
import Rationale.Proofs.Composition
import Rationale.Proofs.Queries
import Rationale.Proofs.Naming
import Rationale.Proofs.Supplies
import Rationale.Proofs.LiveRows
import Rationale.Proofs.Purging
import Rationale.Proofs.Shapes
import Rationale.Proofs.Storing
import Rationale.Proofs.Recording
import Rationale.Proofs.Histories
import Rationale.Proofs.Interference
import Rationale.Proofs.Counters
import Rationale.Proofs.References
import Rationale.Proofs.Atoms
import Rationale.Proofs.LooseTimestamps
import Rationale.Proofs.JsonForms
import Rationale.Proofs.Lossless
import Rationale.Proofs.Statuses
import Rationale.Proofs.TimestampOrder
import Rationale.Proofs.Boundaries
import Rationale.Proofs.Widening
import Rationale.Proofs.FirstExcerpts
import Rationale.Proofs.Refusals
import Rationale.Proofs.RowOrder
import Rationale.Proofs.Polarities
import Rationale.Proofs.Batches
import Rationale.Proofs.UrlTargets
import Rationale.Proofs.OneByOne
import Rationale.Proofs.TargetRows
import Rationale.Proofs.QuoteUrls
import Rationale.Proofs.WithoutUrls
import Rationale.Proofs.TimestampForms
import Rationale.Proofs.Acceptance
import Rationale.Proofs.Arguments
import Rationale.Proofs.Resumption
import Rationale.Proofs.UrlSearch
import Rationale.Proofs.Splicing
import Rationale.Proofs.Alternation
