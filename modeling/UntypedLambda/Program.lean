import UntypedLambda.CommandLine
import UntypedLambda.Shell

/-!
# The program

With lines on the command line, the program evaluates them in order and prints
their values; the first error ends it.  Without lines it runs the shell, in which
errors are reported and the shell goes on.

`Program.start` is all of it but the dialogue of the shell; `Program.run` is the
program on an input that is known from the start.  Both are given the stack that
the program starts with, and the command line may set another limit on it.
-/

namespace UntypedLambda

/-- What a run of the program leaves behind. -/
structure Transcript where
  /-- What was printed. -/
  output : String
  /-- What was printed about a refused command line. -/
  errors : String
  /-- The bound on the nesting of terms, if one was set. -/
  depthLimit : Option Int
  /-- How the run ended. -/
  result : Except Interruption Unit

namespace Program

/-- The program after its command line was read. -/
inductive Start where
  /-- It has ended. -/
  | ended (t : Transcript)
  /-- It is about to run the shell within a stack. -/
  | shell (depthLimit : Option Int) (stack : Stack) (sh : Shell)

/-- Reports whatever interrupted an action on a session, and ends. -/
def close {α : Type} (depthLimit : Option Int) (a : Action Session α) : Transcript :=
  let guarded := Session.guard a
  ⟨guarded.printed, "", depthLimit, guarded.result.map fun _ => ()⟩

/-- The session that options ask for. -/
def session (style : Style) (o : Options) : Session :=
  Session.new (Reporter.new true style) o.strict o.maxSteps o.trace Session.inputPath

/-- The shell that options ask for.  Errors do not end it. -/
def shell (style : Style) (o : Options) : Shell :=
  let s := session style o
  Shell.new { s with reporter := { s.reporter with fatal := false } }

/-- The stack with the limit asked for, if one is.  It has to be a positive number that fits
into a signed word of 32 bits, and larger than the number of calls in use. -/
def limitStack (stack : Stack) : Bound → Except Interruption Stack
  | .none => .ok stack
  | .blank => .error (.fault .blankDepth)
  | .number n =>
      if n < -2147483648 ∨ 2147483647 < n then .error (.fault .depthTooWide)
      else if n < 1 then .error (.fault .depthTooLow)
      else if n ≤ stack.inUse then
        .error (.depth ("cannot set the recursion limit to " ++ toString n ++
          " at the recursion depth " ++ toString stack.inUse ++ ": the limit is too low"))
      else .ok { stack with limit := some n.toNat }

/-- Reads the command line, and evaluates the lines on it if there are any. -/
def start (style : Style) (fuel : Nat) (words : List String) (stack : Stack := .unlimited) :
    Start :=
  match CommandLine.parse words with
  | .error .help => .ended ⟨CommandLine.help, "", none, .error (.exit (some 0))⟩
  | .error r => .ended ⟨"", CommandLine.complaint r, none, .error (.exit (some 2))⟩
  | .ok o =>
      match limitStack stack o.depthLimit with
      | .error i => .ended ⟨"", "", none, .error i⟩
      | .ok stack =>
          let depthLimit := o.depthLimit.number?
          if o.lines.isEmpty then .shell depthLimit stack (shell style o)
          else .ended (close depthLimit ((session style o).addAll fuel 1 o.lines stack))

/-- The lines of an input; a line break at its end starts no line. -/
def inputLines (text : String) : List String :=
  let lines := (splitLines text.toList).map String.ofList
  if lines.getLast? = some "" then lines.dropLast else lines

/-- Runs the program on an input. -/
def run (style : Style) (fuel : Nat) (words : List String) (input : String)
    (stack : Stack := .unlimited) : Transcript :=
  match start style fuel words stack with
  | .ended t => t
  | .shell depthLimit stack sh =>
      let looped := (sh.loop fuel (inputLines input) stack).after (Shell.intro ++ "\n")
      close depthLimit (looped.mapState Shell.session)

end Program

end UntypedLambda
