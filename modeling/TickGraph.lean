import TickGraph.Arithmetic
import TickGraph.Ascending
import TickGraph.Binding
import TickGraph.Builder
import TickGraph.Code
import TickGraph.Command
import TickGraph.Compiled
import TickGraph.Config
import TickGraph.Double
import TickGraph.Double.Shortest
import TickGraph.Double.Text
import TickGraph.Evaluation
import TickGraph.ExpressionNode
import TickGraph.Failure
import TickGraph.Json
import TickGraph.Json.Fault
import TickGraph.Json.Reader
import TickGraph.Json.Token
import TickGraph.Main
import TickGraph.Node
import TickGraph.Node.Wire
import TickGraph.Notice
import TickGraph.Number
import TickGraph.Operator
import TickGraph.Operator.Signature
import TickGraph.Operator.Value
import TickGraph.Path
import TickGraph.Payload
import TickGraph.Proofs.Acceptance
import TickGraph.Proofs.AccessTrace
import TickGraph.Proofs.BindingCodec
import TickGraph.Proofs.BindingTable
import TickGraph.Proofs.BindingText
import TickGraph.Proofs.BindingTime
import TickGraph.Proofs.BuiltGraph
import TickGraph.Proofs.CallMeaning
import TickGraph.Proofs.CanonicalForm
import TickGraph.Proofs.CommandAgreement
import TickGraph.Proofs.CommandOutcome
import TickGraph.Proofs.CompileOutcome
import TickGraph.Proofs.Connectives
import TickGraph.Proofs.Construction
import TickGraph.Proofs.Dependencies
import TickGraph.Proofs.Diagnostics
import TickGraph.Proofs.DoubleModulo
import TickGraph.Proofs.DoubleValue
import TickGraph.Proofs.FailureAtomicity
import TickGraph.Proofs.FaultReport
import TickGraph.Proofs.FirstFault
import TickGraph.Proofs.FlooredModulo
import TickGraph.Proofs.Footprint
import TickGraph.Proofs.FormulaMeaning
import TickGraph.Proofs.FormulaText
import TickGraph.Proofs.Grammar
import TickGraph.Proofs.HalfUp
import TickGraph.Proofs.Independence
import TickGraph.Proofs.Inlining
import TickGraph.Proofs.JsonReading
import TickGraph.Proofs.Letters
import TickGraph.Proofs.Lifecycle
import TickGraph.Proofs.Lowering
import TickGraph.Proofs.Meaning
import TickGraph.Proofs.ModeAgreement
import TickGraph.Proofs.NearestInteger
import TickGraph.Proofs.NodeAdvance
import TickGraph.Proofs.NodeHistory
import TickGraph.Proofs.NodeViews
import TickGraph.Proofs.NumberText
import TickGraph.Proofs.Overflow
import TickGraph.Proofs.PathAgreement
import TickGraph.Proofs.PathText
import TickGraph.Proofs.Places
import TickGraph.Proofs.ReadingOrder
import TickGraph.Proofs.Refresh
import TickGraph.Proofs.RegistryHistory
import TickGraph.Proofs.Rounding
import TickGraph.Proofs.SavedResults
import TickGraph.Proofs.SessionReach
import TickGraph.Proofs.SessionStep
import TickGraph.Proofs.Settling
import TickGraph.Proofs.SingleTicks
import TickGraph.Proofs.Standing
import TickGraph.Proofs.StepFrame
import TickGraph.Proofs.TickValues
import TickGraph.Proofs.Traversal
import TickGraph.Proofs.TreeMeasures
import TickGraph.Proofs.WholeNumber
import TickGraph.Proofs.WrittenTree
import TickGraph.Registry
import TickGraph.Session
import TickGraph.Text
import TickGraph.Text.Blank
import TickGraph.Text.Digits
import TickGraph.Text.Numeral
import TickGraph.Text.Quoted
import TickGraph.TickRun
import TickGraph.Traced
import TickGraph.Truth
import TickGraph.World
