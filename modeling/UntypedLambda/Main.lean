import UntypedLambda.Program

/-!
# The executable

Reads the command line and, for the shell, the standard input line by line.
All decisions are made by `Program` and `Shell`.
-/

namespace UntypedLambda

/-- A thousand calls may be open at a time, two of which are those of the program itself. -/
def Stack.standard : Stack := ⟨some 1000, 2⟩

/-- More contractions than any run performs. -/
def unlimited : Nat := Nat.pow 2 62

/-- The exit code of a run. -/
def exitCode {α : Type} : Except Interruption α → UInt32
  | .ok _ => 0
  | .error (.exit none) => 0
  | .error (.exit (some n)) => UInt32.ofNat (n % 256).toNat
  | .error _ => 1

/-- Prints a transcript. -/
def Transcript.print (t : Transcript) : IO UInt32 := do
  IO.print t.output
  IO.eprint t.errors
  match t.result with
  | .error (.fault f) => IO.eprintln (f.kind ++ ": " ++ f.text)
  | .error (.depth text) => IO.eprintln ("RecursionError: " ++ text)
  | _ => pure ()
  return exitCode t.result

/-- Reads lines and gives them to the shell until one of them ends. -/
partial def Shell.interact (sh : Shell) (stack : Stack) (input : IO.FS.Stream) : IO UInt32 := do
  IO.print sh.prompt.text
  (← IO.getStdout).flush
  let typed ← input.getLine
  let a := if typed.isEmpty then sh.runCommand .eof stack else sh.input unlimited typed stack
  IO.print a.printed
  match a.result with
  | .ok .stop => return 0
  | .ok _ => a.state.interact stack input
  | .error i => (Program.close none (⟨"", a.state.session, .error i⟩ : Action Session Unit)).print

end UntypedLambda

/-- Runs the lines on the command line, or the shell if there are none. -/
def main (args : List String) : IO UInt32 := do
  match UntypedLambda.Program.start .plain UntypedLambda.unlimited args .standard with
  | .ended t => t.print
  | .shell _ stack sh =>
      IO.println UntypedLambda.Shell.intro
      sh.interact stack (← IO.getStdin)
