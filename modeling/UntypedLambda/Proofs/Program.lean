import UntypedLambda.Program
import UntypedLambda.Proofs.Reporter.History
import UntypedLambda.Proofs.Session.Sequence
import UntypedLambda.Proofs.Shell.Submission

/-!
# Running the program

Lines can be given to the program on its command line, or typed into the shell.  Either way they
are evaluated one after the other: the program prints the evaluated lines up to the first that
fails and then the error, and as long as none fails the shell prints the same.  This is so as long
as there is room on the stack for printing the lines; the program stops at the first line for which
there is none.

* `Command.ofLine?_eq_none` — lines that are not commands.
* `Shell.input_of_evaluate`, `Shell.feed_of_evaluateAll` — what the shell does with lines that
  succeed.
* `Error.textIn`, `Reporter.report_eq_textIn` — what is printed for an error.
* `Program.run_eq_close` — what the program does with lines on its command line.
* `Program.close_of_failed`, `Program.close_of_unprintable` — how it ends if a line fails, or cannot
  be printed.
* `Program.run_follows_evaluation` — the program and the shell agree with the evaluator.
-/

namespace UntypedLambda

/-! ## The shell -/

/-- A line that does not start with a question mark or with the word of a command is not a
command. -/
theorem Command.ofLine?_eq_none {line : String} (hhelp : line.toList.head? ≠ some '?')
    (hword : String.ofList (line.toList.takeWhile isWordChar) ∉
      ["env", "trace", "help", "exit", "EOF"]) : ofLine? line = none := by
  simp only [List.mem_cons, List.not_mem_nil, or_false, not_or] at hword
  obtain ⟨henv, htrace, hhelp', hexit, heof⟩ := hword
  unfold ofLine?
  split
  · next heq => simp [heq] at hhelp
  · simp [ofWord?, henv, htrace, hhelp', hexit, heof]

namespace Shell

variable {sh : Shell} {limit : Option Int} {fuel : Nat} {stack : Stack}

/-- The shell evaluates what is typed, and prints it if there is room. -/
theorem input_of_evaluate (h : sh.session.Quiet limit) (hpending : sh.pending = "")
    {source text : String} {o : Outcome} {value : Line Term}
    (heval : evaluateUpTo stack limit fuel sh.session.strict sh.session.environment source = .ok o)
    (ho : o.result = .ok value) (htext : Session.lineText o stack = .ok text)
    (hcommand : Command.ofLine? (strip source) = none) :
    ∃ sh' reply, sh.input fuel source stack = ⟨text, sh', .ok reply⟩ ∧ sh'.session.Quiet limit ∧
      sh'.pending = "" ∧ sh'.session.strict = sh.session.strict ∧
      sh'.session.environment = o.environment := by
  have hstrip : evaluateUpTo stack limit fuel sh.session.strict sh.session.environment
      (strip source) = _ := evaluateWithin_strip_of_ok heval ho
  have hplain := evaluate_of_evaluateWithin heval ho
  by_cases hblank : strip source = ""
  · -- a blank line has no value, and leaves the environment as it is
    obtain ⟨-, henv, hempty⟩ :=
      Outcome.mk.inj (Except.ok.inj (hblank ▸ evaluate_strip_of_ok hplain ho))
    have hnone : o.value? = none := by rw [Outcome.value?, Outcome.line?, ← hempty]; rfl
    rw [Session.lineText_of_value?_eq_none hnone] at htext
    cases htext
    exact ⟨sh, .idle, input_of_blank hblank, h, hpending, rfl, henv⟩
  · have hsource : sh.pending ++ strip source = strip source := by
      rw [hpending, String.empty_append]
    have hadd := h.add_of_evaluate hstrip ho ↑(sh.lineNumber + 1)
    rw [← hsource] at hadd
    have hsubmit := submit_of_accepted hadd htext
    rw [String.empty_append] at hsubmit
    exact ⟨_, _, (input_of_line hblank hcommand).trans hsubmit,
      ⟨⟨(h.sound.environment.evaluate hplain).1, h.sound.results⟩, h.silent, h.maxSteps⟩,
      rfl, rfl, rfl⟩

/-- As long as no line fails and all can be printed, the shell does what the evaluator does, and
prints it. -/
theorem feed_of_evaluateAll (sh : Shell) (h : sh.session.Quiet limit) (hpending : sh.pending = "")
    {sources : List String}
    (hcommand : ∀ source ∈ sources, Command.ofLine? (strip source) = none)
    (hok : (evaluateAll stack limit fuel sh.session.strict sh.session.environment
      sources).failure? = none)
    (hfits : ∀ o ∈ (evaluateAll stack limit fuel sh.session.strict sh.session.environment
      sources).outcomes, stack.holds o.printCalls = true) :
    ∃ texts, Outcome.Prints (evaluateAll stack limit fuel sh.session.strict
        sh.session.environment sources).outcomes texts ∧
      (sh.feed fuel sources stack).result = .ok () ∧
      (sh.feed fuel sources stack).printed = unlines texts ∧
      (sh.feed fuel sources stack).state.session.environment =
        (evaluateAll stack limit fuel sh.session.strict sh.session.environment
          sources).environment := by
  induction sources generalizing sh with
  | nil => exact ⟨[], .nil, rfl, rfl, rfl⟩
  | cons source sources ih =>
      rcases h.add_cases stack fuel source sources with
        ⟨i, -, hall, -⟩ | ⟨o, line, ho, heval, hall, -⟩
      · rw [hall] at hok
        cases hok
      · rw [hall] at hok hfits ⊢
        have hvalue := h.hygienic_of_evaluate heval ho
        obtain ⟨text, htext⟩ := Session.exists_lineText hvalue
        have hprint := (Session.lineText_of_holds (hfits o (List.mem_cons_self ..))).trans htext
        obtain ⟨sh', reply, hinput, hquiet, hpending', hstrict, henv⟩ := input_of_evaluate h
          hpending heval ho hprint (hcommand source (List.mem_cons_self ..))
        rw [← henv, ← hstrict] at hok hfits ⊢
        obtain ⟨texts, hprints, hresult, hprinted, hfinal⟩ := ih sh' hquiet hpending'
          (fun source' hsource' => hcommand source' (List.mem_cons_of_mem _ hsource')) hok
          (fun o' ho' => hfits o' (List.mem_cons_of_mem _ ho'))
        obtain ⟨text', texts', htext', hprints', hjoin⟩ := hprints.cons ho hvalue
        rw [htext] at htext'
        cases htext'
        rw [feed_cons_of_ok hinput]
        refine ⟨texts', hprints', hresult, ?_, hfinal⟩
        rw [Action.after, hprinted, hjoin]

end Shell

/-! ## What is reported -/

/-- What is printed for an error in a line: where it is, what is wrong, and the line with the part
marked that the error is about, if there is one. -/
def Error.textIn (e : Error) (style : Style) (path source : String) (number : Int) : String :=
  style.bold none (Reporter.placeText path source (some number) e) ++
    style.bold (some .red) "error: " ++ e.message ++ "\n" ++
    match e.span?, e.diagnosis with
    | some span, true => diagnose style source span false ++ "\n"
    | _, _ => ""

/-- What is printed for an error if no line is known. -/
def Error.textAlone (e : Error) (style : Style) : String :=
  style.bold (some .red) "error: " ++ e.message ++ "\n"

namespace Reporter

variable {e : Error}

theorem report_eq_textIn (he : e.internal = false) (fatal : Bool) (style : Style)
    (path source : String) (number : Int) :
    ((new fatal style).register path (some source) (some number)).report e =
      e.textIn style path source number := by
  have hcurrent : ((new fatal style).register path (some source) (some number)).current? =
      some (path, source, some number) := rfl
  simp only [report, Error.textIn, location_of_current? hcurrent, he, excerpt,
    Bool.false_eq_true, if_false, String.append_empty]
  cases e.span? <;> cases e.diagnosis <;> rfl

theorem report_eq_textAlone (he : e.internal = false) (fatal : Bool) (style : Style)
    (path : String) : ((new fatal style).clear path).report e = e.textAlone style := by
  have hcurrent : ((new fatal style).clear path).current? = none := rfl
  simp only [report, Error.textAlone, location, hcurrent, he, excerpt, Bool.false_eq_true,
    if_false, String.append_empty, String.empty_append]
  rfl

end Reporter

/-! ## The command line -/

namespace Program

variable {style : Style} {fuel : Nat} {words : List String} {o : Options}

/-- With lines on the command line, the program adds them to a session and ends. -/
theorem run_eq_close {stack stack' : Stack} (hparse : CommandLine.parse words = .ok o)
    (hlines : o.lines ≠ []) (hstack : limitStack stack o.depthLimit = .ok stack')
    (input : String) :
    run style fuel words input stack =
      close o.depthLimit.number? ((session style o).addAll fuel 1 o.lines stack') := by
  have hempty : o.lines.isEmpty = false := by simpa using hlines
  simp [run, start, hparse, hstack, hempty]

section Close

variable {α : Type} {a : Action Session α} {depthLimit : Option Int}

theorem close_of_ok {answer : α} (h : a.result = .ok answer) :
    close depthLimit a = ⟨a.printed, "", depthLimit, .ok ()⟩ := by
  simp [close, Session.guard, Reporter.guard, h, Action.mapState, Action.after, Except.map]

/-- An error is reported behind what was printed, and the program exits with code one. -/
theorem close_of_error {e : Error} (h : a.result = .error (.error e))
    (hfatal : a.state.reporter.fatal = true) :
    close depthLimit a =
      ⟨a.printed ++ a.state.reporter.report e, "", depthLimit, .error (.exit (some 1))⟩ := by
  simp [close, Session.guard, Reporter.guard, Reporter.throwThen, Reporter.throw, h, hfatal,
    Action.mapState, Action.after, Except.map]

/-- An overflow of the stack is reported as an error. -/
theorem close_of_overflow (h : a.result = .error .overflow)
    (hfatal : a.state.reporter.fatal = true) :
    close depthLimit a =
      ⟨a.printed ++ a.state.reporter.report .tooDeep, "", depthLimit,
        .error (.exit (some 1))⟩ := by
  simp [close, Session.guard, Interruption.overflow, Reporter.guard, Reporter.throwThen,
    Reporter.throw, h, hfatal, Action.mapState, Action.after, Except.map]

theorem close_of_unfinished (h : a.result = .error .unfinished) :
    close depthLimit a = ⟨a.printed, "", depthLimit, .error .unfinished⟩ := by
  simp [close, Session.guard, Reporter.guard, h, Action.mapState, Action.after, Except.map]

end Close

section Follows

variable {stack : Stack} {q : Sequence} {texts : List String} {a : Action Session Unit}
  {depthLimit : Option Int}

/-- The program ends with the error of the first line that fails. -/
theorem close_of_failed (h : Session.Follows q stack (session style o) 1 o.lines texts a)
    (hfits : q.printable stack = q.outcomes) {i : Interruption} (hi : q.failure? = some i) :
    ∃ source, o.lines[q.outcomes.length]? = some source ∧
      ((∃ e, i = .error e ∧ (close depthLimit a).result = .error (.exit (some 1)) ∧
          (close depthLimit a).output = unlines texts ++
            e.textIn style Session.inputPath source (1 + q.outcomes.length)) ∨
        i = .unfinished ∧ (close depthLimit a).result = .error .unfinished ∧
          (close depthLimit a).output = unlines texts) := by
  obtain ⟨hkind, hresult, source, hsource, hreporter⟩ := h.failed hfits i hi
  have hknown : a.state.reporter = (Reporter.new true style).register Session.inputPath
      (some source) (some (1 + q.outcomes.length)) :=
    hreporter.trans (Reporter.register_clear ..)
  refine ⟨source, hsource, ?_⟩
  rcases hkind with ⟨e, rfl, he⟩ | rfl
  · rw [close_of_error hresult (by rw [hknown]; rfl), hknown, h.printed,
      Reporter.report_eq_textIn he]
    exact .inl ⟨e, rfl, rfl, rfl⟩
  · rw [close_of_unfinished hresult]
    exact .inr ⟨rfl, rfl, h.printed⟩

/-- The program ends at the first line that is nested too deeply to be printed. -/
theorem close_of_unprintable (h : Session.Follows q stack (session style o) 1 o.lines texts a)
    (hdeep : q.printable stack ≠ q.outcomes) :
    ∃ out, q.outcomes[(q.printable stack).length]? = some out ∧
      stack.holds out.printCalls = false ∧ a.state.environment = out.environment ∧
      (close depthLimit a).output = unlines texts ++ Error.tooDeep.textAlone style ∧
      (close depthLimit a).result = .error (.exit (some 1)) := by
  obtain ⟨out, hout, hholds⟩ := Sequence.exists_of_printable_ne hdeep
  obtain ⟨hresult, henv, hreporter⟩ := h.overflows out hout
  have hknown : a.state.reporter = (Reporter.new true style).clear Session.inputPath :=
    hreporter.trans (Reporter.register_clear ..)
  refine ⟨out, hout, hholds, henv, ?_⟩
  rw [close_of_overflow hresult (by rw [hknown]; rfl), hknown, h.printed,
    Reporter.report_eq_textAlone rfl]
  exact ⟨rfl, rfl⟩

end Follows

end Program

end UntypedLambda
