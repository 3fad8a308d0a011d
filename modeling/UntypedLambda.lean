import UntypedLambda.Bound
import UntypedLambda.CommandLine
import UntypedLambda.DisplayName
import UntypedLambda.Environment
import UntypedLambda.Error
import UntypedLambda.Evaluation
import UntypedLambda.Expr
import UntypedLambda.Expr.Compact
import UntypedLambda.Expr.Grammar
import UntypedLambda.Expr.Parser
import UntypedLambda.Interruption
import UntypedLambda.Line
import UntypedLambda.Main
import UntypedLambda.Nameless
import UntypedLambda.Names
import UntypedLambda.Program
import UntypedLambda.Proofs.Context
import UntypedLambda.Proofs.DisplayName
import UntypedLambda.Proofs.Environment
import UntypedLambda.Proofs.Evaluation
import UntypedLambda.Proofs.Evaluation.Frame
import UntypedLambda.Proofs.Evaluation.Task
import UntypedLambda.Proofs.Expr.Acceptance
import UntypedLambda.Proofs.Expr.Compact
import UntypedLambda.Proofs.Expr.Grammar
import UntypedLambda.Proofs.Expr.Parsing
import UntypedLambda.Proofs.Expr.Text
import UntypedLambda.Proofs.Line
import UntypedLambda.Proofs.Line.Offset
import UntypedLambda.Proofs.Nameless.Redexes
import UntypedLambda.Proofs.Nameless.Shifting
import UntypedLambda.Proofs.Nameless.Standardization
import UntypedLambda.Proofs.Names
import UntypedLambda.Proofs.Names.Calls
import UntypedLambda.Proofs.Program
import UntypedLambda.Proofs.Reduction.Hygiene
import UntypedLambda.Proofs.Reduction.Leftmost
import UntypedLambda.Proofs.Reduction.Length
import UntypedLambda.Proofs.Reduction.Normalization
import UntypedLambda.Proofs.Reduction.Refinement
import UntypedLambda.Proofs.Reduction.Renumbering
import UntypedLambda.Proofs.Reduction.Result
import UntypedLambda.Proofs.Reduction.Trace
import UntypedLambda.Proofs.Reporter
import UntypedLambda.Proofs.Reporter.History
import UntypedLambda.Proofs.Session
import UntypedLambda.Proofs.Session.Adding
import UntypedLambda.Proofs.Session.Diagnosis
import UntypedLambda.Proofs.Session.Failure
import UntypedLambda.Proofs.Session.Sequence
import UntypedLambda.Proofs.Session.StepLimit
import UntypedLambda.Proofs.Session.Strict
import UntypedLambda.Proofs.Session.TraceLine
import UntypedLambda.Proofs.Session.Tracing
import UntypedLambda.Proofs.Shell.Continuation
import UntypedLambda.Proofs.Shell.Dialogue
import UntypedLambda.Proofs.Shell.Submission
import UntypedLambda.Proofs.Stack
import UntypedLambda.Proofs.Supply
import UntypedLambda.Proofs.Term.Binding
import UntypedLambda.Proofs.Term.BindingPass
import UntypedLambda.Proofs.Term.Copying
import UntypedLambda.Proofs.Term.Loose
import UntypedLambda.Proofs.Term.Meaning
import UntypedLambda.Proofs.Term.Naming
import UntypedLambda.Proofs.Term.Places
import UntypedLambda.Proofs.Term.PrintedNames
import UntypedLambda.Proofs.Term.PrintedNumbers
import UntypedLambda.Proofs.Term.Rendering
import UntypedLambda.Proofs.Term.Renumbering
import UntypedLambda.Proofs.Term.Repair
import UntypedLambda.Proofs.Term.RoundTrip
import UntypedLambda.Proofs.Term.Scoping
import UntypedLambda.Proofs.Term.Substitution
import UntypedLambda.Proofs.Text.Position
import UntypedLambda.Proofs.Token
import UntypedLambda.Proofs.Token.Concatenation
import UntypedLambda.Proofs.Token.Partition
import UntypedLambda.Reduction
import UntypedLambda.Reporter
import UntypedLambda.Session
import UntypedLambda.Shell
import UntypedLambda.Stack
import UntypedLambda.Supply
import UntypedLambda.Table
import UntypedLambda.Term
import UntypedLambda.Term.Binder
import UntypedLambda.Term.Copy
import UntypedLambda.Term.Hygiene
import UntypedLambda.Term.Printer
import UntypedLambda.Text.Blank
import UntypedLambda.Text.Numeral
import UntypedLambda.Text.Position
import UntypedLambda.Text.Printable
import UntypedLambda.Text.Quoted
import UntypedLambda.Text.Style
import UntypedLambda.Token
import UntypedLambda.Token.Cursor
import UntypedLambda.Token.Lexer
