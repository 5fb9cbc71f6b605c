import BraceScript.Builtin
import BraceScript.CommandLine
import BraceScript.CommandLine.Arguments
import BraceScript.Config
import BraceScript.Config.Toml
import BraceScript.Config.Toml.Moment
import BraceScript.Config.Toml.Number
import BraceScript.Config.Toml.Text
import BraceScript.Diagnostic
import BraceScript.Eval.Program
import BraceScript.Eval.Property
import BraceScript.Fault
import BraceScript.Json
import BraceScript.Main
import BraceScript.Number.Binary32
import BraceScript.Number.Binary64
import BraceScript.Number.FloatType
import BraceScript.Number.Integer
import BraceScript.Number.Layout
import BraceScript.Number.Reader
import BraceScript.Number.Shortest
import BraceScript.Output
import BraceScript.Run
import BraceScript.RuntimeError
import BraceScript.Scope
import BraceScript.Session
import BraceScript.Source
import BraceScript.Source.Path
import BraceScript.Syntax
import BraceScript.Syntax.Cursor
import BraceScript.Syntax.Error
import BraceScript.Syntax.Expression
import BraceScript.Syntax.Precedence
import BraceScript.Syntax.Program
import BraceScript.Syntax.Statement
import BraceScript.Syntax.Text
import BraceScript.Syntax.Tree
import BraceScript.Syntax.TypeReader
import BraceScript.Token
import BraceScript.Token.Lexer
import BraceScript.Value
import BraceScript.Value.Conform
import BraceScript.Value.Operator
import BraceScript.Proofs.Evaluation
import BraceScript.Proofs.ExprCompleteness
import BraceScript.Proofs.ExprSoundness
import BraceScript.Proofs.Grammar
import BraceScript.Proofs.Legible
import BraceScript.Proofs.LexicalRules
import BraceScript.Proofs.Lexing
import BraceScript.Proofs.Nesting
import BraceScript.Proofs.Passage
import BraceScript.Proofs.Printing
import BraceScript.Proofs.RoundTrip
import BraceScript.Proofs.ScopeModel
import BraceScript.Proofs.ScopeRefinement
import BraceScript.Proofs.Scopes
import BraceScript.Proofs.Statements
import BraceScript.Proofs.Steady
import BraceScript.Proofs.Coverage
import BraceScript.Proofs.Steps
import BraceScript.Proofs.Constants
import BraceScript.Proofs.Contract
import BraceScript.Proofs.Parts
import BraceScript.Proofs.Escape
import BraceScript.Proofs.Instances
import BraceScript.Proofs.IntegerTags
import BraceScript.Proofs.Typing
import BraceScript.Proofs.Termination
import BraceScript.Proofs.ErasedValues
import BraceScript.Proofs.ErasedRuns
import BraceScript.Proofs.Places
import BraceScript.Proofs.CallLimit
import BraceScript.Proofs.Rendering
import BraceScript.Proofs.StatementGrammar
import BraceScript.Proofs.StatementSoundness
import BraceScript.Proofs.WellFormed
import BraceScript.Proofs.StatementCompleteness
import BraceScript.Proofs.Fuel
import BraceScript.Proofs.Splitting
import BraceScript.Proofs.Outline
import BraceScript.Proofs.EntryPoints
import BraceScript.Proofs.Lasting
import BraceScript.Proofs.StructVariables
import BraceScript.Proofs.Code
import BraceScript.Proofs.Blame
import BraceScript.Proofs.Lines
import BraceScript.Proofs.RuntimeDiagnostics
import BraceScript.Proofs.IntegerOperators
import BraceScript.Proofs.PropertyPaths
import BraceScript.Proofs.Assignment
import BraceScript.Proofs.Declarations
import BraceScript.Proofs.History
import BraceScript.Proofs.CompoundAssignment
import BraceScript.Proofs.SinglePrecision
import BraceScript.Proofs.Conformity
import BraceScript.Proofs.ParallelScopes
import BraceScript.Proofs.ParallelRuns
import BraceScript.Proofs.Occurrence
import BraceScript.Proofs.ForLoops
import BraceScript.Proofs.Progress
import BraceScript.Proofs.StatementProgress
import BraceScript.Proofs.Quotations
import BraceScript.Proofs.Underlines
import BraceScript.Proofs.BoundedOutput
import BraceScript.Proofs.TypeAnnotations
import BraceScript.Proofs.BlockHeaders
