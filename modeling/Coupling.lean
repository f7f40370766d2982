import Coupling.Circuit.Blocking
import Coupling.Circuit.Enumeration
import Coupling.Circuit.Region
import Coupling.Collection.Capped
import Coupling.Collection.Grouped
import Coupling.Collection.IndexedSet
import Coupling.Collection.Indexing
import Coupling.Collection.Keyed
import Coupling.Collection.Total
import Coupling.Command.Arguments
import Coupling.Command.Basic
import Coupling.Component.Basic
import Coupling.Component.Graph
import Coupling.Cycle.Basic
import Coupling.Decimal.Double
import Coupling.Decimal.Fixed
import Coupling.Decimal.Shortest
import Coupling.Failure
import Coupling.Graph.Adjacency
import Coupling.Graph.Basic
import Coupling.Graph.Fingerprint
import Coupling.Hash.Blake3
import Coupling.Json.Number
import Coupling.Json.Parser
import Coupling.Json.Printer
import Coupling.Json.Record
import Coupling.Json.Token
import Coupling.Json.Value
import Coupling.Limits
import Coupling.Main
import Coupling.Metric.Lakos
import Coupling.Metric.Martin
import Coupling.Metric.Quantity
import Coupling.Metric.Visibility
import Coupling.Report.Basic
import Coupling.Report.Cycles
import Coupling.Report.Full
import Coupling.Report.Layout
import Coupling.Report.Metrics
import Coupling.Scc.Basic
import Coupling.Scc.Walk
import Coupling.Settings.Basic
import Coupling.Settings.Format
import Coupling.Snapshot.Basic
import Coupling.Snapshot.Format
import Coupling.Text.Blank
import Coupling.Text.Digit
import Coupling.Text.Integer
import Coupling.Text.Parser
import Coupling.Text.Quoted
import Coupling.Text.Unprintable
import Coupling.Toml.Document
import Coupling.Toml.Scalar
import Coupling.Toml.Table
import Coupling.Toml.Value
import Coupling.Trouble
import Coupling.Proofs.Circuit.Elementary
import Coupling.Proofs.Circuit.Exhaustive
import Coupling.Proofs.Circuit.Listing
import Coupling.Proofs.Scc.Condensed
import Coupling.Proofs.Scc.Invariant
import Coupling.Proofs.Scc.Steps
import Coupling.Proofs.Scc.Run
import Coupling.Proofs.Cycle.Order
import Coupling.Proofs.Cycle.Detection
import Coupling.Proofs.Graph.Parallel
import Coupling.Proofs.Graph.Redrawing
import Coupling.Proofs.Cycle.Detail
import Coupling.Proofs.Cycle.Independence
import Coupling.Proofs.Metric.Closure
import Coupling.Proofs.Component.Basic
import Coupling.Proofs.Component.Edges
import Coupling.Proofs.Snapshot.Graphs
import Coupling.Proofs.Snapshot.Crossings
import Coupling.Proofs.Snapshot.Correspondence
import Coupling.Proofs.Snapshot.Elements
import Coupling.Proofs.Command.Denial
import Coupling.Proofs.Snapshot.Agreement
import Coupling.Proofs.Component.Identifiers
import Coupling.Proofs.Component.Dependencies
import Coupling.Proofs.Cycle.Redressing
import Coupling.Proofs.Graph.Scans
import Coupling.Proofs.Graph.Stream
import Coupling.Proofs.Snapshot.Fingerprint
import Coupling.Proofs.Bare.Detection
import Coupling.Proofs.Json.Record
import Coupling.Proofs.Snapshot.Reading
import Coupling.Proofs.Report.Layout
import Coupling.Proofs.Command.Output
import Coupling.Proofs.Metric.Dependence
import Coupling.Proofs.Metric.BalancedTree
import Coupling.Proofs.Metric.Fractions
import Coupling.Proofs.Text.Integer
import Coupling.Proofs.Settings.Precedence
import Coupling.Proofs.Scc.Budget
import Coupling.Proofs.Bare.Termination
import Coupling.Proofs.Bare.Invariant
import Coupling.Proofs.Circuit.Work
import Coupling.Proofs.Circuit.Restriction
