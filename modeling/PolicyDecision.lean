import PolicyDecision.Attribute.Finders
import PolicyDecision.Attribute.Registry
import PolicyDecision.Configuration.Basic
import PolicyDecision.Configuration.Coding
import PolicyDecision.Context
import PolicyDecision.Decimal.Shortest
import PolicyDecision.Decision.Basic
import PolicyDecision.Decision.Coding
import PolicyDecision.Error
import PolicyDecision.Evaluation.Amendment
import PolicyDecision.Evaluation.Document
import PolicyDecision.Evaluation.Evaluate
import PolicyDecision.Evaluation.Selection
import PolicyDecision.Fault
import PolicyDecision.Formula.Basic
import PolicyDecision.Formula.Clause
import PolicyDecision.Formula.Literal
import PolicyDecision.Function.Library
import PolicyDecision.Function.Standard
import PolicyDecision.Index.Bitmask
import PolicyDecision.Index.Canonical
import PolicyDecision.Index.Compilation
import PolicyDecision.Index.DocumentIndex
import PolicyDecision.Index.Matching
import PolicyDecision.Index.Naive
import PolicyDecision.Index.Order
import PolicyDecision.Index.PredicateTable
import PolicyDecision.Index.Tables
import PolicyDecision.Index.Update
import PolicyDecision.Json.Basic
import PolicyDecision.Json.Number
import PolicyDecision.Json.Parser
import PolicyDecision.Json.Printer
import PolicyDecision.Operator.Apply
import PolicyDecision.Operator.Arithmetic
import PolicyDecision.Operator.Basic
import PolicyDecision.OrderedSet
import PolicyDecision.Pattern.CharSet
import PolicyDecision.Pattern.Classes
import PolicyDecision.Pattern.Dialect
import PolicyDecision.Pattern.Folding
import PolicyDecision.Pattern.Node
import PolicyDecision.Pattern.Parser
import PolicyDecision.Pattern.Size
import PolicyDecision.Retrieval.Basic
import PolicyDecision.Retrieval.Point
import PolicyDecision.Stream.Channel
import PolicyDecision.Stream.Combine
import PolicyDecision.Stream.Flow
import PolicyDecision.Stream.Resume
import PolicyDecision.Stream.Session
import PolicyDecision.Stream.Switch
import PolicyDecision.Subscription
import PolicyDecision.Syntax.Build
import PolicyDecision.Syntax.Decoding
import PolicyDecision.Syntax.Document
import PolicyDecision.Syntax.Encoding
import PolicyDecision.Syntax.Expression
import PolicyDecision.Syntax.Imports
import PolicyDecision.Table
import PolicyDecision.Text.Quoted
import PolicyDecision.Toml.Node
import PolicyDecision.Toml.Parser
import PolicyDecision.Toml.Scalar
import PolicyDecision.Value
import PolicyDecision.Proofs.Formula.Verdict
import PolicyDecision.Proofs.Index.MatchRun
import PolicyDecision.Proofs.Formula.Reduced
import PolicyDecision.Proofs.Index.Tables
import PolicyDecision.Proofs.Index.Compilation
import PolicyDecision.Proofs.Index.Reachable
import PolicyDecision.Proofs.Index.Retrieval
import PolicyDecision.Proofs.Evaluation.StreamClass
import PolicyDecision.Proofs.Stream.Prompt
import PolicyDecision.Proofs.Evaluation.Constant
import PolicyDecision.Proofs.Index.Refinement
import PolicyDecision.Proofs.Decimal.Shortest
import PolicyDecision.Proofs.Json.NumberText
import PolicyDecision.Proofs.Json.Text
import PolicyDecision.Proofs.Syntax.Signature
import PolicyDecision.Proofs.Index.Sharing
import PolicyDecision.Proofs.Stream.Delivery
import PolicyDecision.Proofs.Stream.Settling
import PolicyDecision.Proofs.Stream.Session
import PolicyDecision.Proofs.Evaluation.Freshness
import PolicyDecision.Proofs.Evaluation.Direct
import PolicyDecision.Proofs.Evaluation.SingleValued
import PolicyDecision.Proofs.Formula.Normal
import PolicyDecision.Proofs.Index.Correspondence
import PolicyDecision.Proofs.Index.History
import PolicyDecision.Proofs.Index.WellFormed
import PolicyDecision.Proofs.Index.Rebuild
import PolicyDecision.Proofs.Index.Budget
import PolicyDecision.Proofs.Index.Capacity
import PolicyDecision.Proofs.Stream.Emission
import PolicyDecision.Proofs.Evaluation.Imports
import PolicyDecision.Proofs.Evaluation.Decision
import PolicyDecision.Proofs.Index.Protocol
import PolicyDecision.Proofs.Json.Update
import PolicyDecision.Proofs.Evaluation.Selection
import PolicyDecision.Proofs.Evaluation.PathUpdate
import PolicyDecision.Proofs.Formula.Truth
import PolicyDecision.Proofs.Retrieval.Following
import PolicyDecision.Proofs.Stream.Batches
import PolicyDecision.Proofs.Stream.Combination
import PolicyDecision.Proofs.Stream.CombinedRun
import PolicyDecision.Proofs.Stream.Polling
import PolicyDecision.Proofs.Stream.Switching
import PolicyDecision.Proofs.Stream.SwitchedRun
import PolicyDecision.Proofs.Syntax.RoundTrip
import PolicyDecision.Proofs.Decision.RoundTrip
import PolicyDecision.Proofs.Stream.Projection
import PolicyDecision.Proofs.Evaluation.Independence
import PolicyDecision.Proofs.Evaluation.Bindings
import PolicyDecision.Proofs.Evaluation.Substitution
import PolicyDecision.Proofs.Retrieval.Variables
import PolicyDecision.Proofs.Formula.Lattice
import PolicyDecision.Proofs.Index.ClauseLimit
import PolicyDecision.Proofs.Evaluation.Redaction
import PolicyDecision.Proofs.Evaluation.Pipeline
import PolicyDecision.Proofs.Evaluation.Slices
import PolicyDecision.Proofs.Decimal.Doubles
import PolicyDecision.Proofs.Decimal.Rounding
import PolicyDecision.Proofs.Operator.Arithmetic
import PolicyDecision.Proofs.Json.SameValue
import PolicyDecision.Proofs.Operator.Comparison
import PolicyDecision.Proofs.Stream.OneShot
import PolicyDecision.Proofs.Stream.FirstItem
import PolicyDecision.Proofs.Evaluation.HeadAttributes
import PolicyDecision.Proofs.Function.Masking
import PolicyDecision.Proofs.Evaluation.DocumentOrder
import PolicyDecision.Proofs.Json.Reordering
import PolicyDecision.Proofs.Index.Interning
import PolicyDecision.Proofs.Index.Operations
import PolicyDecision.Proofs.Index.Layout
import PolicyDecision.Proofs.Index.CheckedRun
import PolicyDecision.Proofs.Index.Bookkeeping
import PolicyDecision.Proofs.Formula.Subsumption
import PolicyDecision.Proofs.Index.Order
import PolicyDecision.Proofs.Index.Bitmask
