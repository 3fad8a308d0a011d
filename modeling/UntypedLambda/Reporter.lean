import UntypedLambda.Interruption
import UntypedLambda.Table
import UntypedLambda.Text.Position
import UntypedLambda.Text.Style

/-!
# Reporting errors

A `Reporter` knows, for every path that lines are read from, the line that is
being evaluated.  An error is reported with the location of the latest path that
has a line, and with the part of the line that it is about underlined:

    <in>:1:3: error: expected expression, found `.`
      x .
        ^

* `Reporter.throw` — reports an error, and exits if the reporter is fatal.
* `Reporter.guard` — reports whatever interrupted an action.
-/

namespace UntypedLambda

/-- The line that is being evaluated, and its number. -/
structure Registered where
  /-- The line, if one is being evaluated. -/
  line : Option String
  /-- Its number. -/
  number : Option Int
  deriving DecidableEq, Repr, Inhabited

/-- Reports errors with the lines they occurred in. -/
structure Reporter where
  /-- Does an error end the program? -/
  fatal : Bool
  /-- How messages are highlighted. -/
  style : Style
  /-- The line being evaluated, for every path. -/
  lines : Table String Registered
  deriving DecidableEq, Repr, Inhabited

/-- The marker under a line: a caret at the start of the span, and tildes up to
its end. -/
def underline (width : Nat) : String :=
  String.ofList ('^' :: List.replicate (width - 1) '~')

/-- A line with the part covered by a span highlighted, and a marker under that
part.  At least one character is marked. -/
def diagnose (style : Style) (line : String) (span : Span) (warning : Bool) : String :=
  let colour := if warning then Colour.magenta else Colour.red
  let stop := max span.stop (span.start + 1)
  let cs := line.toList
  "  " ++ String.ofList (cs.take span.start) ++
    style.bold (some colour) (String.ofList ((cs.take stop).drop span.start)) ++
    String.ofList (cs.drop stop) ++ "\n" ++
    "  " ++ String.ofList (List.replicate span.start ' ') ++
    style.bold (some colour) (underline (stop - span.start))

namespace Reporter

/-- A reporter that knows no path yet. -/
def new (fatal : Bool) (style : Style) : Reporter := ⟨fatal, style, Table.empty⟩

/-- Records that a line of a path is being evaluated. -/
def register (r : Reporter) (path : String) (line : Option String) (number : Option Int) :
    Reporter :=
  { r with lines := r.lines.put path ⟨line, number⟩ }

/-- Records that no line of a path is being evaluated. -/
def clear (r : Reporter) (path : String) : Reporter := r.register path none none

/-- Records that no line of any path is being evaluated. -/
def clearAll (r : Reporter) : Reporter :=
  { r with lines := r.lines.mapValues fun _ => ⟨none, none⟩ }

/-- The latest path that has a line, with the line and its number. -/
def current? (r : Reporter) : Option (String × String × Option Int) :=
  r.lines.entries.reverse.findSome? fun e => e.2.line.map fun line => (e.1, line, e.2.number)

/-- How a line number is written. -/
def numberText : Option Int → String
  | none => "None"
  | some n => toString n

/-- The location that an error is reported at, and the line there. -/
def location (r : Reporter) (e : Error) : String × Option String :=
  match r.current? with
  | none => ("", none)
  | some (path, line, number) =>
      let col := (lineCol line ((e.span?.map Span.start).getD 0)).2
      let place := path ++ ":" ++ numberText number ++ ":" ++ toString col ++ ": "
      (r.style.bold none place, some line)

/-- The underlined line that goes with an error, if there is anything to show. -/
def excerpt (r : Reporter) (e : Error) (line : Option String) (warning : Bool) : String :=
  match line, e.span?, e.diagnosis with
  | some line, some span, true => diagnose r.style line span warning ++ "\n"
  | _, _, _ => ""

/-- The text of an error as a warning. -/
def warning (r : Reporter) (e : Error) : String :=
  let found := r.location e
  found.1 ++ r.style.bold (some .magenta) "warning: " ++ e.message ++ "\n" ++
    r.excerpt e found.2 true

/-- The text of an error. -/
def report (r : Reporter) (e : Error) : String :=
  let found := r.location e
  found.1 ++ (if e.internal then r.style.bold (some .red) "[internal] " else "") ++
    r.style.bold (some .red) "error: " ++ e.message ++ "\n" ++
    (if e.internal then "" else r.excerpt e found.2 false)

/-- The text of an informational message, such as a step of reduction. -/
def trace (r : Reporter) (label text : String) : String :=
  r.style.bold none (label ++ "  ") ++ text ++ "\n"

/-- Reports an error.  A fatal reporter exits with code one; any other forgets
the lines being evaluated. -/
def throw (r : Reporter) (e : Error) : Action Reporter Unit :=
  if r.fatal then ⟨r.report e, r, .error (.exit (some 1))⟩
  else ⟨r.report e, r.clearAll, .ok ()⟩

/-- Reports an error, and then has the result given unless the reporter exits. -/
def throwThen {α : Type} (r : Reporter) (e : Error) (result : Except Interruption (Option α)) :
    Action Reporter (Option α) :=
  let thrown := r.throw e
  ⟨thrown.printed, thrown.state,
    match thrown.result with
    | .error exit => .error exit
    | .ok _ => result⟩

/-- Reports whatever interrupted an action.  An error of the line is thereby
dealt with, which is the answer `none`; a fault of the interpreter is reported
and still interrupts, and a request to exit is passed on. -/
def guard {α : Type} (r : Reporter) : Except Interruption α → Action Reporter (Option α)
  | .ok a => ⟨"", r, .ok (some a)⟩
  | .error (.error e) => r.throwThen e (.ok none)
  | .error (.depth _) => r.throwThen .tooDeep (.ok none)
  | .error (.keyboard _) => r.throwThen (.other "keyboard interrupt" none false false) (.ok none)
  | .error (.exit code) => ⟨"", r, .error (.exit code)⟩
  | .error (.fault f) =>
      r.throwThen (.other ("unknown error: '" ++ f.kind ++ ": " ++ f.text ++ "'") none true true)
        (.error (.fault f))
  | .error .unfinished => ⟨"", r, .error .unfinished⟩

end Reporter

end UntypedLambda
