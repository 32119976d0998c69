import FlowPlan.Command.Basic
import FlowPlan.Command.Help
import FlowPlan.Command.Run
import FlowPlan.Data.Scalar
import FlowPlan.Data.Schema
import FlowPlan.Digest.Basic
import FlowPlan.Digest.Blake3
import FlowPlan.Error
import FlowPlan.Estimate.Cost
import FlowPlan.Estimate.Rows
import FlowPlan.Estimate.Selectivity
import FlowPlan.Expr.Basic
import FlowPlan.Expr.Eval
import FlowPlan.Expr.Parse
import FlowPlan.Expr.Text
import FlowPlan.Expr.Token
import FlowPlan.Expr.Typing
import FlowPlan.Graph.Basic
import FlowPlan.Graph.Builder
import FlowPlan.Graph.Calls
import FlowPlan.Graph.Compile
import FlowPlan.Graph.Fault
import FlowPlan.Graph.Shape
import FlowPlan.Json.Decode
import FlowPlan.Json.Expr
import FlowPlan.Json.Graph
import FlowPlan.Json.Number
import FlowPlan.Json.Plan
import FlowPlan.Json.Read
import FlowPlan.Json.Settings
import FlowPlan.Json.Token
import FlowPlan.Json.Value
import FlowPlan.Json.Write
import FlowPlan.Main
import FlowPlan.Number.Binary
import FlowPlan.Number.Decimal
import FlowPlan.Number.Quantity
import FlowPlan.Number.Shortest
import FlowPlan.Pipeline.Basic
import FlowPlan.Pipeline.Catalog
import FlowPlan.Pipeline.Document
import FlowPlan.Pipeline.Plan
import FlowPlan.Plan.Basic
import FlowPlan.Plan.Check
import FlowPlan.Plan.Defaults
import FlowPlan.Plan.Explain
import FlowPlan.Plan.Optimize
import FlowPlan.Plan.Rules
import FlowPlan.Plan.Schema
import FlowPlan.Plan.Visit
import FlowPlan.Row.Cell
import FlowPlan.Row.Codec
import FlowPlan.Row.Error
import FlowPlan.Row.Session
import FlowPlan.Row.View
import FlowPlan.Settings
import FlowPlan.Store.Cache
import FlowPlan.Store.Catalog
import FlowPlan.Store.Change
import FlowPlan.Store.Container
import FlowPlan.Store.Kind
import FlowPlan.Store.Statistics
import FlowPlan.Text.Class
import FlowPlan.Text.Hex
import FlowPlan.Text.Ranges
import FlowPlan.Text.Utf8
import FlowPlan.Yaml.Block
import FlowPlan.Yaml.Decode
import FlowPlan.Yaml.Document
import FlowPlan.Yaml.Layout
import FlowPlan.Yaml.Node
import FlowPlan.Yaml.Plain
import FlowPlan.Yaml.Quoted
import FlowPlan.Yaml.Source
import FlowPlan.Yaml.Tag
import FlowPlan.Yaml.Token
import FlowPlan.Yaml.Value
import FlowPlan.Yaml.Word
import FlowPlan.Proofs.Chain
import FlowPlan.Proofs.Conversion
import FlowPlan.Proofs.Assembly
import FlowPlan.Proofs.Conformance
import FlowPlan.Proofs.Gathering
import FlowPlan.Proofs.Placement
import FlowPlan.Proofs.Lexer
import FlowPlan.Proofs.NormalForm
import FlowPlan.Proofs.Printer
import FlowPlan.Proofs.RoundTrip
import FlowPlan.Proofs.Blur
import FlowPlan.Proofs.Encoding
import FlowPlan.Proofs.Fingerprint
import FlowPlan.Proofs.Wire
import FlowPlan.Proofs.Sharing
import FlowPlan.Proofs.Construction
import FlowPlan.Proofs.Stages
import FlowPlan.Proofs.Search
import FlowPlan.Proofs.Pipelines
import FlowPlan.Proofs.Trees
import FlowPlan.Proofs.Failure
import FlowPlan.Proofs.Progress
import FlowPlan.Proofs.Exact
import FlowPlan.Proofs.Choice
import FlowPlan.Proofs.Optimality
import FlowPlan.Proofs.Reading
import FlowPlan.Proofs.GraphIds
import FlowPlan.Proofs.Indented
import FlowPlan.Proofs.ReadBack
import FlowPlan.Proofs.Stored
import FlowPlan.Proofs.Rounding
import FlowPlan.Proofs.Ordering
import FlowPlan.Proofs.Kleene
import FlowPlan.Proofs.Integers
import FlowPlan.Proofs.Columns
import FlowPlan.Proofs.Selection
import FlowPlan.Proofs.Floats
import FlowPlan.Proofs.Flattening
import FlowPlan.Proofs.Guesses
import FlowPlan.Proofs.Charges
import FlowPlan.Proofs.Filters
import FlowPlan.Proofs.Visits
import FlowPlan.Proofs.Contracts
import FlowPlan.Proofs.Counting
import FlowPlan.Proofs.Registration
import FlowPlan.Proofs.Acceptance
import FlowPlan.Proofs.Glyphs
import FlowPlan.Proofs.Grouping
import FlowPlan.Proofs.Freshness
import FlowPlan.Proofs.Descent
import FlowPlan.Proofs.Addressing
