import UntypedLambda.Session
import UntypedLambda.Text.Blank

/-!
# The interactive shell

The shell evaluates what is typed and prints the values.  A line that ends too
early is kept, and what is typed next continues it.  Some words at the start of
what is typed are commands:

* `env` lists the definitions, `trace` switches the printing of contractions,
* `help` or a question mark prints a short introduction,
* `exit` and `EOF` end the shell.

The shell runs within a stack, which has no limit unless one is given.  A line
that overflows it is reported like any other error.  A definition that is nested
too deeply to be printed interrupts the shell where it is listed: nothing is
reported there.
-/

namespace UntypedLambda

/-- What the shell shows in front of what is typed. -/
inductive Prompt where
  /-- A new line is awaited. -/
  | primary
  /-- The rest of a line is awaited. -/
  | continuation
  deriving DecidableEq, Repr, Inhabited

/-- How a prompt is written. -/
def Prompt.text : Prompt → String
  | .primary => "λ "
  | .continuation => ". "

/-- How the shell goes on after a line. -/
inductive Reply where
  /-- The line was dealt with. -/
  | done
  /-- There was nothing on the line. -/
  | idle
  /-- The shell ends. -/
  | stop
  deriving DecidableEq, Repr, Inhabited

/-- The words that are commands. -/
inductive Command where
  /-- Lists the definitions. -/
  | env
  /-- Switches the printing of contractions on or off. -/
  | trace
  /-- Prints a short introduction. -/
  | help
  /-- The end of the input. -/
  | eof
  /-- Ends the shell. -/
  | exit
  deriving DecidableEq, Repr, Inhabited

/-- The state of the shell. -/
structure Shell where
  /-- The session that lines are evaluated in. -/
  session : Session
  /-- The text of a line that ended too early, and a space. -/
  pending : String
  /-- What is shown in front of what is typed. -/
  prompt : Prompt
  /-- The number of lines submitted so far. -/
  lineNumber : Nat

namespace Command

/-- The command that a word stands for. -/
def ofWord? (word : String) : Option Command :=
  if word = "env" then some .env
  else if word = "trace" then some .trace
  else if word = "help" then some .help
  else if word = "EOF" then some .eof
  else if word = "exit" then some .exit
  else none

/-- Can the character stand in the word of a command? -/
def isWordChar (c : Char) : Bool := c.isAlphanum || c == '_'

/-- The command that a stripped line holds.  A question mark asks for help; the
command of any other line is its leading word, and what follows is ignored. -/
def ofLine? (line : String) : Option Command :=
  match line.toList with
  | '?' :: _ => some .help
  | cs => ofWord? (String.ofList (cs.takeWhile isWordChar))

end Command

namespace Shell

/-- What is printed when the shell starts. -/
def intro : String :=
  "Lambda calculus interpreter :: Python backend\n" ++
  "Type '?' or 'help' for more information."

/-- The short introduction. -/
def helpText : String :=
  "Welcome to the lambdaline interpreter!\n\n" ++
  "Lambda calculus is a Turing-complete language created by Alonzo Church. This \n" ++
  "interpreter supports pure lambda calculus with single-character variables, \n" ++
  "curried functions (λxy.x is λx.λy.x), and named functions.\n\n" ++
  "Try it out by typing 'I := λx.x'. This will bind the lambda term 'λx.x' to a \n" ++
  "name 'I'. Next, try typing 'I y'. This will apply 'I' to 'y', giving 'y' as \n" ++
  "the result.\n\n" ++
  "Commands: 'env' lists named functions, 'trace' toggles printing of each \n" ++
  "reduction step, 'exit' quits."

/-- A shell over a session. -/
def new (session : Session) : Shell := ⟨session, "", .primary, 0⟩

/-- Lists definitions, up to the first that cannot be printed. -/
def listing (printed : String) (ds : List Definition) (stack : Stack := .unlimited) :
    String × Except Interruption Reply :=
  match ds with
  | [] => (printed, .ok .done)
  | d :: ds =>
      match d.line.renderWithin stack with
      | .error i => (printed, .error i)
      | .ok text => listing (printed ++ text ++ "\n") ds stack

/-- Prints the value of a line that was evaluated, and takes it out of the
results. -/
def printResult (a : Action Session Outcome) (stack : Stack := .unlimited) :
    Action Session Unit :=
  match a.result with
  | .error i => ⟨a.printed, a.state, .error i⟩
  | .ok o =>
      if o.value?.isSome then
        match a.state.pop? with
        | none => ⟨a.printed, a.state, .ok ()⟩
        | some (latest, s) =>
            match Session.lineText latest stack with
            | .error i => ⟨a.printed, s, .error i⟩
            | .ok text => ⟨a.printed ++ text, s, .ok ()⟩
      else ⟨a.printed, a.state, .ok ()⟩

/-- Is the action interrupted only because the line ended too early? -/
def wantsMore {α : Type} : Except Interruption α → Bool
  | .error (.error e) => e.atEndOfInput
  | _ => false

/-- Evaluates a line behind the text that is pending.  If the line ends too
early, it becomes the text that is pending. -/
def submit (sh : Shell) (fuel : Nat) (line : String) (stack : Stack := .unlimited) :
    Action Shell Reply :=
  let number := sh.lineNumber + 1
  let source := sh.pending ++ line
  let added := sh.session.add fuel source number stack
  if wantsMore added.result then
    ⟨added.printed, ⟨added.state, source ++ " ", .continuation, number⟩, .ok .done⟩
  else
    let guarded := Session.guard (printResult added stack)
    ⟨guarded.printed, ⟨guarded.state, "", .primary, number⟩, guarded.result.map fun _ => .done⟩

/-- Runs a command. -/
def runCommand (sh : Shell) (command : Command) (stack : Stack := .unlimited) :
    Action Shell Reply :=
  match command with
  | .env =>
      let listed := listing "" sh.session.environment.values stack
      ⟨listed.1, sh, listed.2⟩
  | .trace =>
      let enabled := !sh.session.trace
      ⟨if enabled then "trace on\n" else "trace off\n",
        { sh with session := { sh.session with trace := enabled } }, .ok .done⟩
  | .help => ⟨helpText ++ "\n", sh, .ok .done⟩
  | .eof => ⟨"\n", sh, .ok .stop⟩
  | .exit => ⟨"", sh, .ok .stop⟩

/-- Deals with one line that was typed. -/
def input (sh : Shell) (fuel : Nat) (typed : String) (stack : Stack := .unlimited) :
    Action Shell Reply :=
  let line := strip typed
  if line = "" then ⟨"", sh, .ok .idle⟩
  else
    match Command.ofLine? line with
    | some command => sh.runCommand command stack
    | none => sh.submit fuel line stack

/-- Deals with all lines of an input, each behind a prompt, until the shell ends
or the input does. -/
def loop (sh : Shell) (fuel : Nat) (lines : List String) (stack : Stack := .unlimited) :
    Action Shell Unit :=
  match lines with
  | [] =>
      let a := (sh.runCommand .eof stack).after sh.prompt.text
      ⟨a.printed, a.state, a.result.map fun _ => ()⟩
  | typed :: rest =>
      let a := (sh.input fuel typed stack).after sh.prompt.text
      match a.result with
      | .error i => ⟨a.printed, a.state, .error i⟩
      | .ok .stop => ⟨a.printed, a.state, .ok ()⟩
      | .ok _ => (a.state.loop fuel rest stack).after a.printed

end Shell

end UntypedLambda
