import UntypedLambda.Stack

/-!
# Evaluating a line

A line is read, its names are resolved, its free names are replaced by their
definitions, and the resulting term is reduced to normal form.  A definition
that succeeds extends the environment.

`evaluate` answers with an `Outcome` for every line that is refused, and with an
interruption only if something other than an error of the line stopped it.  It
lets calls be nested without a limit, so of itself it never finds a term nested
too deeply; only a watcher may report that.

`evaluateWithin` evaluates a line on a machine whose stack may have a limit.  It
does what `evaluate` does up to the point where the stack overflows, and there
the line is refused.
-/

namespace UntypedLambda

/-- The result of evaluating one line. -/
structure Outcome where
  /-- The line as it was given. -/
  source : String
  /-- The environment afterwards. -/
  environment : Environment
  /-- The evaluated line, or why it was refused. -/
  result : Except Error (Line Term)

namespace Outcome

/-- The evaluated line, if the line was not refused. -/
def line? (o : Outcome) : Option (Line Term) := o.result.toOption

/-- The evaluated term, if there is one. -/
def value? (o : Outcome) : Option Term := o.line?.bind Line.term?

/-- The evaluated term as it is printed; nothing if there is none. -/
def text (o : Outcome) : Except Missing String :=
  match o.value? with
  | none => .ok ""
  | some t => t.render

end Outcome

section Evaluate

variable {σ : Type}

/-- Reduces an expression to normal form in an environment. -/
def normalize (watch : Watcher σ Interruption) (fuel : Nat) (env : Environment) (strict : Bool)
    (seen : σ) (e : Expr) : σ × Except Interruption Term :=
  match env.resolve strict e with
  | .error err => (seen, .error (.error err))
  | .ok t =>
      let run := Reducer.fresh.run watch fuel seen t
      (run.seen,
        match run.ending with
        | .normal t => .ok t
        | .stopped i => .error i
        | .unfinished _ => .error .unfinished)

/-- Evaluates a line that has been read. -/
def evaluateLine (watch : Watcher σ Interruption) (fuel : Nat) (env : Environment) (strict : Bool)
    (seen : σ) : Line Expr → σ × Except Interruption (Line Term)
  | .empty => (seen, .ok .empty)
  | .expression e =>
      let r := normalize watch fuel env strict seen e
      (r.1, r.2.map .expression)
  | .definition name e =>
      let r := normalize watch fuel env strict seen e
      (r.1, r.2.map (.definition name))

/-- The outcome of a line that was evaluated, unless something other than an
error of the line interrupted it.  Too deep a nesting counts as an error. -/
def Outcome.ofResult (source : String) (env : Environment) :
    Except Interruption (Line Term) → Except Interruption Outcome
  | .ok line => .ok ⟨source, env.extend line, .ok line⟩
  | .error (.error e) => .ok ⟨source, env, .error e⟩
  | .error (.depth _) => .ok ⟨source, env, .error .tooDeep⟩
  | .error i => .error i

/-- Evaluates one line of source in an environment.  If `strict`, names that are
not defined are errors; otherwise they stay free. -/
def evaluate (watch : Watcher σ Interruption) (fuel : Nat) (env : Environment) (strict : Bool)
    (seen : σ) (source : String) : σ × Except Interruption Outcome :=
  match Line.parse source with
  | .error e => (seen, .ok ⟨source, env, .error e⟩)
  | .ok line =>
      let r := evaluateLine watch fuel env strict seen line
      (r.1, Outcome.ofResult source env r.2)

/-! ## Within a stack -/

/-- What there is to do for a line. -/
inductive Task where
  /-- The line is refused. -/
  | refuse (e : Error)
  /-- There is nothing on the line. -/
  | skip
  /-- The term of the line has to be reduced. -/
  | reduce (line : Line Expr) (t : Term)

/-- What there is to do for a line in an environment. -/
def Environment.task (env : Environment) (strict : Bool) (source : String) : Task :=
  match Line.parse source with
  | .error e => .refuse e
  | .ok line =>
      match line.term? with
      | none => .skip
      | some e =>
          match env.resolve strict e with
          | .error err => .refuse err
          | .ok t => .reduce line t

/-- The calls that are open at the deepest point of finding out what there is to do for a
line: it is read, and the expression on it is resolved. -/
def Environment.taskCalls (env : Environment) (strict : Bool) (source : String) : Nat :=
  match (Line.parse source).toOption.bind Line.term? with
  | none => Line.readCalls source
  | some e =>
      max (Line.readCalls source)
        (max e.height (env.resolveCalls strict (Term.ofExpr e).bind).1)

/-- Evaluates one line of source, up to the point where it overflows the stack: the line is then
nested too deeply.  Showing a contraction to the watcher takes `shown` calls. -/
def evaluateWithin (stack : Stack) (shown : Contraction → Nat) (watch : Watcher σ Interruption)
    (fuel : Nat) (env : Environment) (strict : Bool) (seen : σ) (source : String) :
    σ × Except Interruption Outcome :=
  match stack.room? with
  | none => evaluate watch fuel env strict seen source
  | some room =>
      if room < env.taskCalls strict source then
        (seen, Outcome.ofResult source env (.error .overflow))
      else
        match env.task strict source with
        | .refuse e => (seen, .ok ⟨source, env, .error e⟩)
        | .skip => (seen, .ok ⟨source, env, .ok .empty⟩)
        | .reduce line t =>
            let reducer : Reducer := ⟨Supply.empty.reserve t.ids, 0⟩
            let run := reducer.iterateWithin room shown watch fuel seen t
            (run.seen, Outcome.ofResult source env
              (match run.ending with
              | .normal v => .ok (line.map fun _ => v)
              | .stopped i => .error i
              | .unfinished _ => .error .unfinished))

/-- Without a limit, no line is nested too deeply. -/
@[simp] theorem evaluateWithin_unlimited (shown : Contraction → Nat)
    (watch : Watcher σ Interruption) (fuel : Nat) (env : Environment) (strict : Bool) (seen : σ)
    (source : String) :
    evaluateWithin .unlimited shown watch fuel env strict seen source =
      evaluate watch fuel env strict seen source := rfl

end Evaluate

end UntypedLambda
