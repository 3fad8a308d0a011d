import UntypedLambda.Error
import UntypedLambda.Names

/-!
# Interruptions

An `Interruption` is anything that keeps an action of the interpreter from
ending normally: an error of the line, but also the user, a stack that is full,
or a fault of the interpreter itself.  An `Action` is what such an action leaves
behind, whether it was interrupted or not.
-/

namespace UntypedLambda

/-- A fault of the interpreter, as opposed to one of the line. -/
inductive Fault where
  /-- A term could not be printed. -/
  | unprintable (m : Missing)
  /-- Contractions cannot be counted against a bound without a number. -/
  | blankSteps
  /-- The nesting of terms cannot be bounded without a number. -/
  | blankDepth
  /-- The nesting of terms cannot be bounded below one. -/
  | depthTooLow
  /-- The bound on the nesting of terms does not fit into a machine word. -/
  | depthTooWide
  /-- Any other fault, by its kind and its wording. -/
  | other (kind text : String)
  deriving DecidableEq, Repr, Inhabited

namespace Fault

/-- The kind under which a fault is reported. -/
def kind : Fault → String
  | .unprintable _ => "KeyError"
  | .blankSteps => "TypeError"
  | .blankDepth => "TypeError"
  | .depthTooLow => "ValueError"
  | .depthTooWide => "OverflowError"
  | .other kind _ => kind

/-- The wording of a fault. -/
def text : Fault → String
  | .unprintable m => m.text
  | .blankSteps => "'>' not supported between instances of 'int' and 'list'"
  | .blankDepth => "'list' object cannot be interpreted as an integer"
  | .depthTooLow => "recursion limit must be greater or equal than 1"
  | .depthTooWide => "Python int too large to convert to C int"
  | .other _ text => text

end Fault

/-- What keeps an action from ending normally. -/
inductive Interruption where
  /-- The line is refused. -/
  | error (e : Error)
  /-- No further call can be nested. -/
  | depth (text : String)
  /-- The user asked to stop. -/
  | keyboard (text : String)
  /-- The interpreter is asked to exit with a code. -/
  | exit (code : Option Int)
  /-- The interpreter is at fault. -/
  | fault (f : Fault)
  /-- The allowed number of contractions was used up. -/
  | unfinished
  deriving DecidableEq, Repr, Inhabited

/-- What an action on a state `σ` leaves behind. -/
structure Action (σ α : Type) where
  /-- What was printed. -/
  printed : String
  /-- The state afterwards. -/
  state : σ
  /-- The result, or what interrupted the action. -/
  result : Except Interruption α

namespace Action

variable {σ τ α : Type}

/-- The same action as part of a larger state. -/
def mapState (f : σ → τ) (a : Action σ α) : Action τ α := ⟨a.printed, f a.state, a.result⟩

/-- The same action after something else was printed. -/
def after (printed : String) (a : Action σ α) : Action σ α :=
  ⟨printed ++ a.printed, a.state, a.result⟩

end Action

end UntypedLambda
