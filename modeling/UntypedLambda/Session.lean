import UntypedLambda.Bound
import UntypedLambda.Evaluation
import UntypedLambda.Reporter

/-!
# Sessions

A session evaluates lines one after the other.  It carries the environment and
the results so far from line to line, bounds the number of contractions per
line, and prints every contraction if it is asked to.  A line that fails changes
neither the environment nor the results.

Lines are evaluated and printed within a stack, which has no limit unless one is
given.
-/

namespace UntypedLambda

/-- The state of a session. -/
structure Session where
  /-- Where errors are reported. -/
  reporter : Reporter
  /-- The path that lines are reported under. -/
  path : String
  /-- Are undefined names errors? -/
  strict : Bool
  /-- The number of contractions allowed per line. -/
  maxSteps : Bound
  /-- Is every contraction printed? -/
  trace : Bool
  /-- The definitions so far. -/
  environment : Environment
  /-- The outcomes that have a value, oldest first. -/
  results : List Outcome

/-- What a session has seen of the reduction of a line. -/
structure Progress where
  /-- The number of contractions. -/
  steps : Nat
  /-- What was printed. -/
  printed : String
  deriving DecidableEq, Repr, Inhabited

namespace Session

/-- The path of lines that are typed in. -/
def inputPath : String := "<in>"

/-- A session without definitions. -/
def new (reporter : Reporter) (strict : Bool) (maxSteps : Bound) (trace : Bool)
    (path : String) : Session :=
  ⟨reporter.clear path, path, strict, maxSteps, trace, Table.empty, []⟩

/-- A contraction as it is printed. -/
def contractionText (c : Contraction) : Except Missing String :=
  match c.redex.render with
  | .error m => .error m
  | .ok redex => c.contractum.render.map fun contractum => redex ++ "  →  " ++ contractum

/-- What is printed for a contraction. -/
def traceText (s : Session) (c : Contraction) : Except Missing String :=
  if s.trace then (contractionText c).map (s.reporter.trace "β") else .ok ""

/-- What stops a line that has taken a number of contractions, if anything: the
bound has been passed, or it has no number to compare with. -/
def overLimit (s : Session) (steps : Nat) : Option Interruption :=
  match s.maxSteps with
  | .none => none
  | .number n => if n < steps then some (.error (.stepLimit n)) else none
  | .blank => some (.fault .blankSteps)

/-- Counts the contractions of a line, prints them if asked to, and stops at the
first one past the bound. -/
def watch (s : Session) : Watcher Progress Interruption := fun p c =>
  let steps := p.steps + 1
  match s.traceText c with
  | .error m => (⟨steps, p.printed⟩, some (.fault (.unprintable m)))
  | .ok text => (⟨steps, p.printed ++ text⟩, s.overLimit steps)

/-- The calls that are open at the deepest point of showing a contraction. -/
def shownCalls (s : Session) (c : Contraction) : Nat := if s.trace then c.printCalls else 0

/-- Takes over the environment of an outcome, and keeps the outcome if it has a
value. -/
def accept (s : Session) (o : Outcome) : Session :=
  { s with
    environment := o.environment
    results := if o.value?.isSome then s.results ++ [o] else s.results
    reporter := s.reporter.clear s.path }

/-- Evaluates a line.  While it is evaluated, and after it failed, the line is
registered with the reporter. -/
def add (s : Session) (fuel : Nat) (source : String) (number : Int)
    (stack : Stack := .unlimited) : Action Session Outcome :=
  let registered := { s with reporter := s.reporter.register s.path (some source) (some number) }
  let r := evaluateWithin stack s.shownCalls s.watch fuel s.environment s.strict ⟨0, ""⟩ source
  match r.2 with
  | .error i => ⟨r.1.printed, registered, .error i⟩
  | .ok o =>
      match o.result with
      | .error e => ⟨r.1.printed, registered, .error (.error e)⟩
      | .ok _ => ⟨r.1.printed, registered.accept o, .ok o⟩

/-- Reports whatever interrupted an action on a session. -/
def guard {α : Type} (a : Action Session α) : Action Session (Option α) :=
  ((a.state.reporter.guard a.result).mapState fun r => { a.state with reporter := r }).after
    a.printed

/-- Takes out the latest result. -/
def pop? (s : Session) : Option (Outcome × Session) :=
  s.results.getLast?.map fun o => (o, { s with results := s.results.dropLast })

/-- What is printed for a line that was evaluated; nothing if it has no value. -/
def lineText (o : Outcome) (stack : Stack := .unlimited) : Except Interruption String :=
  match o.line? with
  | none | some .empty => .ok ""
  | some line => (line.renderWithin stack).map (· ++ "\n")

/-- Evaluates lines in order and prints their values, up to the first that fails.
The first line has number `number`. -/
def addAll (s : Session) (fuel : Nat) (number : Int) (sources : List String)
    (stack : Stack := .unlimited) : Action Session Unit :=
  match sources with
  | [] => ⟨"", s, .ok ()⟩
  | source :: sources =>
      let added := s.add fuel source number stack
      match added.result with
      | .error i => ⟨added.printed, added.state, .error i⟩
      | .ok o =>
          match lineText o stack with
          | .error i => ⟨added.printed, added.state, .error i⟩
          | .ok text =>
              (added.state.addAll fuel (number + 1) sources stack).after (added.printed ++ text)

end Session

end UntypedLambda
