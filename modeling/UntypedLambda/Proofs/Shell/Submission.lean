import UntypedLambda.Proofs.Session.Adding
import UntypedLambda.Shell

/-!
# What the shell does with a line

What is typed is nothing, a command, or a line behind what is pending.  This file says once what
becomes of a line, depending on what the session makes of it: it may end too early, fail, have a
value that is printed, have one that is nested too deeply for that, or be cut short.

* `Line.EndsEarly` — more input could complete the line.
* `Shell.input_of_blank`, `Shell.input_of_command`, `Shell.input_of_line` — what is typed.
* `Shell.submit_of_early`, `Shell.submit_of_interrupted`, `Shell.submit_of_accepted`,
  `Shell.submit_of_unprintable` — what becomes of a line.
* `Shell.feed` — what is typed, one after the other.
-/

namespace UntypedLambda

/-- The action without what it answers. -/
def Action.forget {σ α : Type} (a : Action σ α) : Action σ Unit :=
  ⟨a.printed, a.state, a.result.map fun _ => ()⟩

/-- More input could complete the line. -/
def Line.EndsEarly (source : String) : Prop :=
  ∃ e, Line.parse source = .error e ∧ e.atEndOfInput = true

namespace Session

/-- The session after a line whose value has been taken out. -/
def advance (s : Session) (env : Environment) : Session :=
  { s with environment := env, reporter := s.reporter.clear s.path }

end Session

namespace Shell

variable {sh : Shell} {fuel : Nat} {typed line printed text : String} {stack : Stack}

/-! ## What is typed -/

theorem input_of_blank (h : strip typed = "") :
    sh.input fuel typed stack = ⟨"", sh, .ok .idle⟩ := by
  simp [input, h]

theorem input_of_command {c : Command} (h : Command.ofLine? (strip typed) = some c) :
    sh.input fuel typed stack = sh.runCommand c stack := by
  have hne : strip typed ≠ "" := by
    intro hblank
    rw [hblank] at h
    cases h
  simp [input, hne, h]

theorem input_of_line (hne : strip typed ≠ "") (h : Command.ofLine? (strip typed) = none) :
    sh.input fuel typed stack = sh.submit fuel (strip typed) stack := by
  simp [input, hne, h]

/-- What is typed is nothing, a command, or a line. -/
theorem input_cases (sh : Shell) (fuel : Nat) (typed : String) (stack : Stack) :
    sh.input fuel typed stack = ⟨"", sh, .ok .idle⟩ ∨
      (∃ c, Command.ofLine? (strip typed) = some c ∧
        sh.input fuel typed stack = sh.runCommand c stack) ∨
      sh.input fuel typed stack = sh.submit fuel (strip typed) stack := by
  by_cases hne : strip typed = ""
  · exact .inl (input_of_blank hne)
  · cases h : Command.ofLine? (strip typed) with
    | some c => exact .inr (.inl ⟨c, rfl, input_of_command h⟩)
    | none => exact .inr (.inr (input_of_line hne h))

/-! ## What becomes of a line -/

section Submit

variable {s : Session}

/-- What becomes of a line depends on what the session makes of it. -/
theorem submit_eq {added : Action Session Outcome}
    (hadd : sh.session.add fuel (sh.pending ++ line) ↑(sh.lineNumber + 1) stack = added) :
    sh.submit fuel line stack =
      if wantsMore added.result then
        ⟨added.printed,
          ⟨added.state, sh.pending ++ line ++ " ", .continuation, sh.lineNumber + 1⟩, .ok .done⟩
      else
        let guarded := Session.guard (printResult added stack)
        ⟨guarded.printed, ⟨guarded.state, "", .primary, sh.lineNumber + 1⟩,
          guarded.result.map fun _ => .done⟩ := by
  rw [← hadd]
  rfl

/-- A line depends on the text that it completes, on its number, and on what the session makes
of the two. -/
theorem submit_congr {sh sh' : Shell} {fuel fuel' : Nat} {line line' : String}
    (hnumber : sh.lineNumber = sh'.lineNumber) (hsource : sh.pending ++ line = sh'.pending ++ line')
    (hadd : sh.session.add fuel (sh.pending ++ line) ↑(sh.lineNumber + 1) stack =
      sh'.session.add fuel' (sh'.pending ++ line') ↑(sh'.lineNumber + 1) stack) :
    sh.submit fuel line stack = sh'.submit fuel' line' stack := by
  rw [submit_eq hadd, submit_eq rfl, hnumber, hsource]

/-- A line that ends too early becomes the text that is pending. -/
theorem submit_of_early {e : Error}
    (hadd : sh.session.add fuel (sh.pending ++ line) ↑(sh.lineNumber + 1) stack =
      ⟨printed, s, .error (.error e)⟩)
    (he : e.atEndOfInput = true) :
    sh.submit fuel line stack =
      ⟨printed, ⟨s, sh.pending ++ line ++ " ", .continuation, sh.lineNumber + 1⟩, .ok .done⟩ := by
  rw [submit_eq hadd]
  simp only [wantsMore, he, if_true]

/-- Of a line that ends too early, nothing else is seen. -/
theorem submit_of_endsEarly (sh : Shell) {line : String} (h : Line.EndsEarly (sh.pending ++ line))
    (fuel : Nat) :
    sh.submit fuel line =
      ⟨"", ⟨sh.session.registering (sh.pending ++ line) ↑(sh.lineNumber + 1),
        sh.pending ++ line ++ " ", .continuation, sh.lineNumber + 1⟩, .ok .done⟩ := by
  obtain ⟨e, hparse, he⟩ := h
  exact submit_of_early (Session.add_of_refuse (Environment.task_eq_refuse hparse) _) he

/-- Whatever else interrupts a line is reported. -/
theorem submit_of_interrupted {i : Interruption}
    (hadd : sh.session.add fuel (sh.pending ++ line) ↑(sh.lineNumber + 1) stack =
      ⟨printed, s, .error i⟩)
    (hmore : wantsMore (.error i : Except Interruption Outcome) = false) :
    sh.submit fuel line stack =
      ⟨printed ++ (s.reporter.guard (.error i : Except Interruption Unit)).printed,
        ⟨{ s with reporter := (s.reporter.guard (.error i : Except Interruption Unit)).state }, "",
          .primary, sh.lineNumber + 1⟩,
        (s.reporter.guard (.error i : Except Interruption Unit)).result.map fun _ => .done⟩ := by
  rw [submit_eq hadd]
  simp only [hmore, Bool.false_eq_true, if_false]
  rfl

/-- An error that is reported makes the shell forget all lines. -/
theorem submit_of_refused {e : Error}
    (hadd : sh.session.add fuel (sh.pending ++ line) ↑(sh.lineNumber + 1) stack =
      ⟨printed, s, .error (.error e)⟩)
    (he : e.atEndOfInput = false) (hfatal : s.reporter.fatal = false) :
    sh.submit fuel line stack =
      ⟨printed ++ s.reporter.report e,
        ⟨{ s with reporter := s.reporter.clearAll }, "", .primary, sh.lineNumber + 1⟩,
        .ok .done⟩ := by
  rw [submit_of_interrupted hadd he]
  simp [Reporter.guard, Reporter.throwThen, Reporter.throw, hfatal, Except.map]

/-- The value of a line that succeeds is printed and taken out of the results. -/
theorem submit_of_accepted {o : Outcome}
    (hadd : sh.session.add fuel (sh.pending ++ line) ↑(sh.lineNumber + 1) stack =
      ⟨printed, s.accept o, .ok o⟩)
    (htext : Session.lineText o stack = .ok text) :
    sh.submit fuel line stack =
      ⟨printed ++ text, ⟨s.advance o.environment, "", .primary, sh.lineNumber + 1⟩,
        .ok .done⟩ := by
  have hprint : printResult (⟨printed, s.accept o, .ok o⟩ : Action Session Outcome) stack =
      ⟨printed ++ text, s.advance o.environment, .ok ()⟩ := by
    cases hvalue : o.value? with
    | none =>
        rw [Session.lineText_of_value?_eq_none hvalue] at htext
        cases htext
        simp [printResult, hvalue, Session.accept, Session.advance]
    | some v =>
        simp [printResult, hvalue, Session.accept, Session.pop?, htext, Session.advance]
  rw [submit_eq hadd]
  simp [wantsMore, hprint, Session.guard, Reporter.guard, Action.mapState, Action.after,
    Except.map]

/-- A value that is nested too deeply to be printed is taken out of the results, and this is
reported. -/
theorem submit_of_unprintable {o : Outcome}
    (hadd : sh.session.add fuel (sh.pending ++ line) ↑(sh.lineNumber + 1) stack =
      ⟨printed, s.accept o, .ok o⟩)
    (htext : Session.lineText o stack = .error .overflow) (hfatal : s.reporter.fatal = false) :
    sh.submit fuel line stack =
      ⟨printed ++ (s.reporter.clear s.path).report .tooDeep,
        ⟨{ s.advance o.environment with reporter := (s.reporter.clear s.path).clearAll }, "",
          .primary, sh.lineNumber + 1⟩, .ok .done⟩ := by
  have hprint : printResult (⟨printed, s.accept o, .ok o⟩ : Action Session Outcome) stack =
      ⟨printed, s.advance o.environment, .error .overflow⟩ := by
    cases hvalue : o.value? with
    | none =>
        rw [Session.lineText_of_value?_eq_none hvalue] at htext
        cases htext
    | some v =>
        simp [printResult, hvalue, Session.accept, Session.pop?, htext, Session.advance]
  rw [submit_eq hadd]
  simp [wantsMore, hprint, Session.guard, Interruption.overflow, Reporter.guard,
    Reporter.throwThen, Reporter.throw, Session.advance, Reporter.clear, Reporter.register, hfatal,
    Action.mapState, Action.after, Except.map]

theorem submit_of_unfinished
    (hadd : sh.session.add fuel (sh.pending ++ line) ↑(sh.lineNumber + 1) stack =
      ⟨printed, s, .error .unfinished⟩) :
    sh.submit fuel line stack =
      ⟨printed, ⟨s, "", .primary, sh.lineNumber + 1⟩, .error .unfinished⟩ := by
  rw [submit_of_interrupted hadd rfl]
  simp [Reporter.guard, Except.map]

end Submit

/-! ## One line after the other -/

/-- Deals with all that is typed, up to the first interruption. -/
def feed (sh : Shell) (fuel : Nat) (lines : List String) (stack : Stack := .unlimited) :
    Action Shell Unit :=
  match lines with
  | [] => ⟨"", sh, .ok ()⟩
  | typed :: rest =>
      let a := sh.input fuel typed stack
      match a.result with
      | .error i => ⟨a.printed, a.state, .error i⟩
      | .ok _ => (a.state.feed fuel rest stack).after a.printed

theorem feed_singleton (sh : Shell) (fuel : Nat) (typed : String) :
    sh.feed fuel [typed] = (sh.input fuel typed).forget := by
  unfold feed Action.forget
  cases h : (sh.input fuel typed).result with
  | error i => simp [h, Except.map]
  | ok reply => simp [h, Except.map, feed, Action.after]

theorem feed_cons_of_ok {sh' : Shell} {reply : Reply} {rest : List String}
    (h : sh.input fuel typed stack = ⟨printed, sh', .ok reply⟩) :
    sh.feed fuel (typed :: rest) stack = (sh'.feed fuel rest stack).after printed := by
  simp only [feed, h]

end Shell

end UntypedLambda
