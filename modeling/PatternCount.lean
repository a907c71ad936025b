import PatternCount.AdjacencyCache.Basic
import PatternCount.AdjacencyCache.Reuse
import PatternCount.Bench.Measurement
import PatternCount.Bench.Rates
import PatternCount.Bench.Report
import PatternCount.Binary64
import PatternCount.Config.Basic
import PatternCount.Config.Json
import PatternCount.Config.Path
import PatternCount.Decimal.Exact
import PatternCount.Decimal.Fixed
import PatternCount.Decimal.Shortest
import PatternCount.Engine.Run
import PatternCount.Engine.Tally
import PatternCount.Fault
import PatternCount.FileTree
import PatternCount.HostGraph
import PatternCount.Json.Basic
import PatternCount.Json.Double
import PatternCount.Json.Numeral
import PatternCount.Json.Quoted
import PatternCount.Json.Shape
import PatternCount.Json.Token
import PatternCount.Main
import PatternCount.Pattern.Basic
import PatternCount.Pattern.Matrix
import PatternCount.Plan.Basic
import PatternCount.Plan.Json
import PatternCount.Plan.Lookups
import PatternCount.Plan.Nest
import PatternCount.Plan.OfPattern
import PatternCount.Plan.Validity
import PatternCount.PositionSet
import PatternCount.Search.Candidates
import PatternCount.Search.Count
import PatternCount.Search.Frame
import PatternCount.Text.Blank
import PatternCount.Text.Hex
import PatternCount.Text.Shown
import PatternCount.Text.Unshown
import PatternCount.VertexSet.Algebra
import PatternCount.VertexSet.Basic
import PatternCount.VertexSet.Gallop
import PatternCount.Word
import PatternCount.Work.Coordinator
import PatternCount.Work.Handout
import PatternCount.Work.Queue
import PatternCount.Work.SpinLock
import PatternCount.Work.Totals
import PatternCount.Work.Unit
import PatternCount.Proofs.VertexSet.Galloping
import PatternCount.Proofs.VertexSet.Algebra
import PatternCount.Proofs.HostGraph.Rows
import PatternCount.Proofs.HostGraph.Offsets
import PatternCount.Proofs.HostGraph.EdgeList
import PatternCount.Proofs.AdjacencyCache.Rows
import PatternCount.Proofs.Outcome
import PatternCount.Proofs.Plan.Validity
import PatternCount.Proofs.Plan.Lookups
import PatternCount.Proofs.Plan.Readings
import PatternCount.Proofs.Plan.Meaning
import PatternCount.Proofs.Plan.Tuples
import PatternCount.Proofs.Search.Frames
import PatternCount.Proofs.Search.Resolved
import PatternCount.Proofs.Search.Candidates
import PatternCount.Proofs.Search.Count
import PatternCount.Proofs.Pattern.Connectivity
import PatternCount.Proofs.Pattern.Spreading
import PatternCount.Proofs.Plan.BindingOrder
import PatternCount.Proofs.Plan.Restrictions
import PatternCount.Proofs.Plan.Compile
import PatternCount.Proofs.Plan.Caches
import PatternCount.Proofs.Plan.Embeddings
import PatternCount.Proofs.Work.Queue
import PatternCount.Proofs.Work.Units
import PatternCount.Proofs.Work.Shared
import PatternCount.Proofs.Work.Balance
import PatternCount.Proofs.Work.Progress
import PatternCount.Proofs.Work.Crew
import PatternCount.Proofs.Work.Delivery
import PatternCount.Proofs.Work.Calls
import PatternCount.Proofs.Work.Service
import PatternCount.Proofs.Work.Slices
import PatternCount.Proofs.Work.Split
import PatternCount.Proofs.Work.Thefts
import PatternCount.Proofs.Plan.Acceptance
import PatternCount.Proofs.Plan.Literal
import PatternCount.Proofs.Work.Overrun
import PatternCount.Proofs.Work.Effort
import PatternCount.Proofs.Work.Reports
import PatternCount.Proofs.Work.Slots
import PatternCount.Proofs.Work.Ledger
import PatternCount.Proofs.Engine.Tallies
import PatternCount.Proofs.Engine.Cooperation
import PatternCount.Proofs.Engine.Accounts
import PatternCount.Proofs.Engine.Reporting
import PatternCount.Proofs.Engine.Progress
import PatternCount.Proofs.Engine.Completion
import PatternCount.Proofs.Engine.InOrder
import PatternCount.Proofs.Engine.Total
import PatternCount.Proofs.Engine.Sequences
import PatternCount.Proofs.Pattern.Edges
import PatternCount.Proofs.Pattern.Digits
import PatternCount.Proofs.Pattern.Matrix
import PatternCount.Proofs.Plan.Cliques
import PatternCount.Proofs.VertexSet.Indexed
import PatternCount.Proofs.Plan.Admission
import PatternCount.Proofs.Json.Numerals
import PatternCount.Proofs.Json.Quoted
import PatternCount.Proofs.Json.Tokens
import PatternCount.Proofs.Json.Values
import PatternCount.Proofs.Json.Shapes
import PatternCount.Proofs.Plan.Json
import PatternCount.Proofs.Config.Json
import PatternCount.Proofs.VertexSet.Counts
import PatternCount.Proofs.AdjacencyCache.Positions
import PatternCount.Proofs.AdjacencyCache.Narrowing
import PatternCount.Proofs.Search.Reached
import PatternCount.Proofs.Search.CachedRows
import PatternCount.Proofs.Plan.Chains
import PatternCount.Proofs.Plan.Bounds
import PatternCount.Proofs.VertexSet.Probes
import PatternCount.Proofs.Work.Locking
