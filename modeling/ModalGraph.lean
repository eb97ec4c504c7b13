import ModalGraph.Bus.Basic
import ModalGraph.Bus.Exchange
import ModalGraph.Bus.Memory
import ModalGraph.CommandLine.Address
import ModalGraph.CommandLine.Command
import ModalGraph.CommandLine.Completion
import ModalGraph.CommandLine.Endpoint
import ModalGraph.CommandLine.Flag
import ModalGraph.CommandLine.Folder
import ModalGraph.CommandLine.Help
import ModalGraph.CommandLine.Run
import ModalGraph.CommandLine.Script.Bash
import ModalGraph.CommandLine.Script.Basic
import ModalGraph.CommandLine.Script.Fish
import ModalGraph.CommandLine.Script.Powershell
import ModalGraph.CommandLine.Script.Zsh
import ModalGraph.CommandLine.Shell
import ModalGraph.Compiler.Basic
import ModalGraph.Duration
import ModalGraph.Evaluator.Basic
import ModalGraph.Evaluator.Input
import ModalGraph.Event
import ModalGraph.Failure.Basic
import ModalGraph.Failure.Shape
import ModalGraph.Formula.Expr
import ModalGraph.Formula.Lexer
import ModalGraph.Formula.Parser
import ModalGraph.Formula.Token
import ModalGraph.Graph.Basic
import ModalGraph.Graph.Document
import ModalGraph.Label.Basic
import ModalGraph.Label.Decimal
import ModalGraph.Label.Numeral
import ModalGraph.Main
import ModalGraph.Metrics
import ModalGraph.Model.Basic
import ModalGraph.Model.Node
import ModalGraph.Model.Spec
import ModalGraph.Operator.Builtin
import ModalGraph.Operator.Family
import ModalGraph.Operator.Registry
import ModalGraph.Patience
import ModalGraph.Proofs.Compiler.Closed
import ModalGraph.Proofs.Compiler.Coherent
import ModalGraph.Proofs.Compiler.History
import ModalGraph.Proofs.Compiler.Ledger
import ModalGraph.Proofs.Compiler.Nodes
import ModalGraph.Proofs.Compiler.Performs
import ModalGraph.Proofs.Compiler.Plan
import ModalGraph.Proofs.Compiler.Retrace
import ModalGraph.Proofs.Compiler.Shape
import ModalGraph.Proofs.Compiler.Term
import ModalGraph.Proofs.Compiler.Value
import ModalGraph.Proofs.Evaluator.Batch
import ModalGraph.Proofs.Evaluator.Domain
import ModalGraph.Proofs.Evaluator.Fixpoint
import ModalGraph.Proofs.Evaluator.Input
import ModalGraph.Proofs.Evaluator.Logic
import ModalGraph.Proofs.Evaluator.Meaning
import ModalGraph.Proofs.Evaluator.Memo
import ModalGraph.Proofs.Evaluator.Parts
import ModalGraph.Proofs.Evaluator.Refinement
import ModalGraph.Proofs.Formula.Canonical
import ModalGraph.Proofs.Formula.Domain
import ModalGraph.Proofs.Formula.Grammar
import ModalGraph.Proofs.Formula.Name
import ModalGraph.Proofs.Formula.Sets
import ModalGraph.Proofs.Formula.Variant
import ModalGraph.Proofs.Formula.Width
import ModalGraph.Proofs.Graph.Batch
import ModalGraph.Proofs.Model.Reached
import ModalGraph.Proofs.Operator.Diamond
import ModalGraph.Proofs.Operator.Domain
import ModalGraph.Proofs.Operator.Messages
import ModalGraph.Proofs.Operator.Parts
import ModalGraph.Proofs.Operator.Registry
import ModalGraph.Proofs.Operator.Truth
import ModalGraph.Proofs.Step
import ModalGraph.Proofs.Tensor.Parts
import ModalGraph.Proofs.Tensor.Rows
import ModalGraph.Proofs.Tensor.Truth
import ModalGraph.RunId
import ModalGraph.Service.Basic
import ModalGraph.Service.Head
import ModalGraph.Service.Host
import ModalGraph.Service.Message
import ModalGraph.Service.Preference
import ModalGraph.Service.Site
import ModalGraph.Service.Target
import ModalGraph.Settings.Basic
import ModalGraph.Settings.File
import ModalGraph.SettingsText.Body
import ModalGraph.SettingsText.Kind
import ModalGraph.SettingsText.Meaning
import ModalGraph.SettingsText.Number
import ModalGraph.SettingsText.Outcome
import ModalGraph.SettingsText.Term
import ModalGraph.SettingsText.Token
import ModalGraph.SettingsText.Value
import ModalGraph.Tensor.Basic
import ModalGraph.Tensor.Codec
import ModalGraph.Tensor.DType
import ModalGraph.Tensor.Render
import ModalGraph.Tensor.Segment
import ModalGraph.Tensor.Stored
import ModalGraph.Text.Blank
import ModalGraph.Text.Bytes
import ModalGraph.Text.CombiningClass
import ModalGraph.Text.Composed
import ModalGraph.Text.Composition
import ModalGraph.Text.Fingerprint
import ModalGraph.Text.HiddenMarks
import ModalGraph.Text.Identifier
import ModalGraph.Text.Joining
import ModalGraph.Text.Json
import ModalGraph.Text.Printable
import ModalGraph.Text.Quoted
import ModalGraph.Text.Separated
import ModalGraph.Trace
import ModalGraph.Wire.Field
import ModalGraph.Proofs.Wire.Field
import ModalGraph.Proofs.Compiler.Built
import ModalGraph.Proofs.Evaluator.Course
import ModalGraph.Proofs.Evaluator.Regime
import ModalGraph.Proofs.Tensor.Codec
import ModalGraph.Proofs.Evaluator.Width
import ModalGraph.Proofs.Operator.Height
import ModalGraph.Proofs.Operator.Room
import ModalGraph.Proofs.Compiler.Room
import ModalGraph.Proofs.Compiler.Resolution
import ModalGraph.Proofs.Evaluator.Failures
import ModalGraph.Proofs.Tensor.Decoded
import ModalGraph.Proofs.Compiler.Translation
import ModalGraph.Proofs.Evaluator.Convergence
import ModalGraph.Proofs.Evaluator.Correspondence
import ModalGraph.Proofs.Evaluator.Direction
import ModalGraph.Proofs.Evaluator.Duality
import ModalGraph.Proofs.Evaluator.Isomorphism
import ModalGraph.Proofs.Evaluator.Documents
import ModalGraph.Proofs.Evaluator.Rows
import ModalGraph.Proofs.Trace.Spans
import ModalGraph.Proofs.Trace.Visits
import ModalGraph.Proofs.Service.Reports
import ModalGraph.Proofs.Bus.Memory
import ModalGraph.Proofs.Bus.Subscriptions
import ModalGraph.Proofs.Bus.Standing
import ModalGraph.Proofs.Bus.Delivery
import ModalGraph.Proofs.Bus.Exchange
import ModalGraph.Proofs.Compiler.Accounts
import ModalGraph.Proofs.Compiler.Refusals
import ModalGraph.Proofs.Compiler.Summary
import ModalGraph.Proofs.Metrics.Compilations
import ModalGraph.Proofs.Evaluator.Prepared
import ModalGraph.Proofs.Service.Statuses
import ModalGraph.Proofs.Evaluator.Alone
import ModalGraph.Proofs.Evaluator.Loop
import ModalGraph.Proofs.Evaluator.Limit
import ModalGraph.Proofs.Evaluator.Computations
import ModalGraph.Proofs.Evaluator.Sharing
import ModalGraph.Proofs.Compiler.Binders
import ModalGraph.Proofs.Evaluator.Reachability
import ModalGraph.Proofs.Graph.Union
import ModalGraph.Proofs.Operator.Folding
import ModalGraph.Proofs.Tensor.Message
import ModalGraph.Proofs.Formula.Places
import ModalGraph.Proofs.Formula.Phrase
import ModalGraph.Proofs.Formula.Reading
import ModalGraph.Proofs.Formula.Viable
import ModalGraph.Proofs.Model.Collected
import ModalGraph.Proofs.Tensor.Results
import ModalGraph.Proofs.Tensor.Programs
import ModalGraph.Proofs.Operator.Registrations
import ModalGraph.Proofs.Settings.Aliases
import ModalGraph.Proofs.Compiler.Keys
import ModalGraph.Proofs.Service.Bodies
import ModalGraph.Proofs.Tensor.Grouping
import ModalGraph.Proofs.Evaluator.Sides
