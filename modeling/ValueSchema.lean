import ValueSchema.Definition.Reduction
import ValueSchema.Definition.Registry
import ValueSchema.Entries
import ValueSchema.Evaluation.Basic
import ValueSchema.Evaluation.Collection
import ValueSchema.Evaluation.Context
import ValueSchema.Evaluation.Conversion
import ValueSchema.Evaluation.Invocation
import ValueSchema.Evaluation.Markup
import ValueSchema.Evaluation.ObjectShape
import ValueSchema.Evaluation.Operation
import ValueSchema.Evaluation.PropertyRead
import ValueSchema.Evaluation.Reference
import ValueSchema.Evaluation.Request
import ValueSchema.Failure
import ValueSchema.Guard
import ValueSchema.Json.Basic
import ValueSchema.Json.Decode
import ValueSchema.Json.Parser
import ValueSchema.Json.Printer
import ValueSchema.Literal.Basic
import ValueSchema.Literal.Conversion
import ValueSchema.Literal.Fold
import ValueSchema.Literal.Integer
import ValueSchema.Number.Binary
import ValueSchema.Number.Decimal
import ValueSchema.Number.Wide
import ValueSchema.Operator
import ValueSchema.Options
import ValueSchema.Program.Basic
import ValueSchema.Program.Binding
import ValueSchema.Program.Host
import ValueSchema.Proofs.Definition.Inlining
import ValueSchema.Proofs.Definition.Reachability
import ValueSchema.Proofs.Definition.Unfolding
import ValueSchema.Proofs.Entries
import ValueSchema.Proofs.Schema.Subterm
import ValueSchema.Propagation.Basic
import ValueSchema.Propagation.CallSite
import ValueSchema.Schema.Basic
import ValueSchema.Schema.Codec
import ValueSchema.Schema.Document
import ValueSchema.Schema.Equality
import ValueSchema.Schema.Fold
import ValueSchema.Schema.Intersection
import ValueSchema.Schema.Lossless
import ValueSchema.Schema.Origin
import ValueSchema.Schema.Pattern
import ValueSchema.Schema.Product
import ValueSchema.Schema.Traversal
import ValueSchema.Schema.TypeText
import ValueSchema.Schema.Union
import ValueSchema.Source
import ValueSchema.Syntax.Form
import ValueSchema.Syntax.Id
import ValueSchema.Syntax.Tree
import ValueSchema.Text.Blank
import ValueSchema.Text.Letter
import ValueSchema.Text.Printable
import ValueSchema.Text.Quoted
import ValueSchema.Text.Range
import ValueSchema.Text.Units
import ValueSchema.Typing.Table
import ValueSchema.Workspace
import ValueSchema.Proofs.Definition.Closedness
import ValueSchema.Proofs.Schema.Throughout
import ValueSchema.Proofs.Schema.Vocabulary
import ValueSchema.Proofs.Evaluation.Contract
import ValueSchema.Proofs.Evaluation.Collection
import ValueSchema.Proofs.Evaluation.Preservation
import ValueSchema.Proofs.Program.Declaration
import ValueSchema.Proofs.Definition.Registry
import ValueSchema.Proofs.Evaluation.Failure
import ValueSchema.Proofs.Schema.Choices
import ValueSchema.Proofs.Schema.Equality
import ValueSchema.Proofs.Schema.Normal
import ValueSchema.Proofs.Propagation.Discovery
import ValueSchema.Proofs.Schema.Transparency
import ValueSchema.Proofs.Propagation.Resolution
import ValueSchema.Proofs.Propagation.Forwarding
import ValueSchema.Proofs.Evaluation.Simulation
import ValueSchema.Proofs.Evaluation.Uniformity
import ValueSchema.Proofs.Evaluation.Relaxation
import ValueSchema.Proofs.Definition.Numbering
import ValueSchema.Proofs.Definition.Lifecycle
import ValueSchema.Proofs.Evaluation.Progress
import ValueSchema.Proofs.Propagation.Uniformity
import ValueSchema.Proofs.Evaluation.Completion
import ValueSchema.Proofs.Session.History
import ValueSchema.Proofs.Session.Identity
import ValueSchema.Proofs.Propagation.Coverage
import ValueSchema.Proofs.Propagation.Outcome
import ValueSchema.Proofs.Evaluation.Memory
import ValueSchema.Proofs.Session.Bodies
import ValueSchema.Proofs.Evaluation.Cycles
import ValueSchema.Proofs.Schema.Storage
import ValueSchema.Proofs.Evaluation.Selection
import ValueSchema.Proofs.Schema.Results
import ValueSchema.Proofs.Schema.LateFolding
import ValueSchema.Proofs.Definition.Sharing
import ValueSchema.Proofs.Definition.Log
import ValueSchema.Proofs.Document.Basic
import ValueSchema.Proofs.Document.Pointer
import ValueSchema.Proofs.Document.Validation
import ValueSchema.Proofs.Document.Admission
import ValueSchema.Proofs.Definition.Flatness
import ValueSchema.Proofs.Number.Exact
import ValueSchema.Proofs.Schema.Reexpression
import ValueSchema.Proofs.Schema.Matching
import ValueSchema.Proofs.Schema.Representation
import ValueSchema.Proofs.Schema.Interchange
import ValueSchema.Proofs.Schema.Inputs
import ValueSchema.Proofs.Schema.Template
import ValueSchema.Proofs.Schema.Idempotence
import ValueSchema.Proofs.Schema.UnionForm
import ValueSchema.Proofs.Schema.Equivalence
import ValueSchema.Proofs.Schema.ResultKind
import ValueSchema.Proofs.Definition.Circle
import ValueSchema.Proofs.Evaluation.Traversal
import ValueSchema.Proofs.Evaluation.Following
import ValueSchema.Proofs.Program.Forest
import ValueSchema.Proofs.Program.Scope
import ValueSchema.Proofs.Program.Symbols
import ValueSchema.Proofs.Program.Lexical
import ValueSchema.Proofs.Program.Reference
import ValueSchema.Proofs.Number.Wide
import ValueSchema.Proofs.Literal.Integer
import ValueSchema.Proofs.Schema.Defaulting
import ValueSchema.Proofs.Evaluation.Parameters
import ValueSchema.Proofs.Evaluation.Spreading
import ValueSchema.Proofs.Literal.Numeral
import ValueSchema.Proofs.Literal.Refolding
import ValueSchema.Proofs.Program.BottomUp
import ValueSchema.Proofs.Program.ImpliedType
import ValueSchema.Proofs.Evaluation.LiteralNode
import ValueSchema.Proofs.Number.Nearest
import ValueSchema.Proofs.Literal.LooseEquality
import ValueSchema.Proofs.TypeText.Token
import ValueSchema.Proofs.TypeText.Reading
import ValueSchema.Proofs.Document.Optionality
import ValueSchema.Proofs.Document.TupleOrder
import ValueSchema.Proofs.Pattern.Expression
import ValueSchema.Proofs.Pattern.Notation
import ValueSchema.Proofs.Pattern.Numeral
import ValueSchema.Proofs.Pattern.Admission
import ValueSchema.Proofs.Document.IndexKeys
import ValueSchema.Proofs.Pattern.Language
import ValueSchema.Proofs.Schema.Stamping
import ValueSchema.Proofs.Evaluation.Returns
import ValueSchema.Proofs.Guard
import ValueSchema.Proofs.Propagation.Path
