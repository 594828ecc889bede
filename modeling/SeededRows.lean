import SeededRows.Json.Reading
import SeededRows.Main
import SeededRows.Proofs.RowIds.Batches
import SeededRows.Proofs.Pool.Frame
import SeededRows.Proofs.Pool.Control
import SeededRows.Proofs.Pool.Accounting
import SeededRows.Proofs.Pool.Start
import SeededRows.Proofs.Pool.Delivery
import SeededRows.Proofs.Aggregator.Stock
import SeededRows.Proofs.Coordinator.Agreement
import SeededRows.Proofs.Pool.Progress
import SeededRows.Proofs.RowIds.Layout
import SeededRows.Proofs.Engine.Replay
import SeededRows.Proofs.Aggregator.Calls
import SeededRows.Proofs.Engine.Lifecycle
import SeededRows.Proofs.Engine.CallOrder
import SeededRows.Proofs.Pool.Custody
import SeededRows.Proofs.Pool.Lifecycle
import SeededRows.Proofs.Aggregator.Reductions
import SeededRows.Proofs.Engine.Reductions
import SeededRows.Proofs.Pool.Provenance
import SeededRows.Proofs.Aggregator.Conservation
import SeededRows.Proofs.Pool.Reductions
import SeededRows.Proofs.Coordinator.Starts
import SeededRows.Proofs.Coordinator.Reductions
import SeededRows.Proofs.Coordinator.Conservation
import SeededRows.Proofs.Coordinator.CallOrder
import SeededRows.Proofs.Engine.Sessions
import SeededRows.Proofs.Pool.Shares
import SeededRows.Proofs.Coordinator.Division
import SeededRows.Proofs.Coordinator.CallCounts
import SeededRows.Proofs.Aggregator.Tables
import SeededRows.Proofs.Coordinator.Tables
import SeededRows.Proofs.Coordinator.Lifecycle
import SeededRows.Proofs.Names
import SeededRows.Proofs.Calendar.DayNumbers
import SeededRows.Proofs.Random.Range
import SeededRows.Proofs.Distribution.Draws
import SeededRows.Proofs.Engine.DrawFailures
import SeededRows.Proofs.Aggregator.Kinds
import SeededRows.Proofs.Engine.Selection
import SeededRows.Proofs.Aggregator.Merging
import SeededRows.Proofs.Aggregator.Grouping
import SeededRows.Proofs.Decimal.Finite
import SeededRows.Proofs.Json.Scalars
import SeededRows.Proofs.Json.Documents
import SeededRows.Proofs.Json.Finite
import SeededRows.Proofs.Json.Values
import SeededRows.Proofs.RunFile.Descriptions
import SeededRows.Proofs.RunFile.RoundTrip
import SeededRows.Proofs.FieldOrder.Acceptance
import SeededRows.Proofs.Engine.Atomicity
import SeededRows.Proofs.Coordinator.Recording
import SeededRows.Proofs.RowIds.Iteration
import SeededRows.Proofs.Settings
import SeededRows.Proofs.Coordinator.Validation
import SeededRows.Proofs.Calendar.Text
import SeededRows.Proofs.Distribution.Ranges
import SeededRows.Proofs.Coordinator.Room
import SeededRows.Proofs.Aggregator.Summaries
import SeededRows.Proofs.Coordinator.Summaries
import SeededRows.Proofs.Distribution.Buckets
import SeededRows.Proofs.Aggregator.Folding
import SeededRows.Proofs.FieldOrder.Keyed
import SeededRows.Proofs.RowIds.Growth
import SeededRows.Proofs.Coordinator.Places
import SeededRows.Proofs.Coordinator.Growth
