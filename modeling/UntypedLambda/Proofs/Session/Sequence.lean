import UntypedLambda.Proofs.Session.Adding

/-!
# Lines in a row

Evaluating lines one after the other needs no session: each line is evaluated in the environment
that the one before it left behind, up to the first that fails.  A session that prints no
contractions does just this, and prints the evaluated lines on the way.  Printing takes room on
the stack as well, so that a session may stop at a line that has been evaluated.

* `evaluateAll` — lines evaluated one after the other.
* `Sequence.printable` — those of them that can be printed.
* `Outcome.Prints` — what is to be printed for them.
* `Session.Quiet` — a session that prints no contractions.
* `Session.Quiet.add_cases` — what one line does to such a session.
* `Session.Quiet.follows_addAll` — what several lines do to it.
-/

namespace UntypedLambda

/-- Counts contractions, and stops at the first one past a limit. -/
def Watcher.upTo (limit : Option Int) : Watcher Nat Interruption := fun steps _ =>
  (steps + 1,
    match limit with
    | none => none
    | some n => if n < (steps + 1 : Nat) then some (.error (.stepLimit n)) else none)

/-- Evaluates a line, counting its contractions up to a limit. -/
def evaluateUpTo (stack : Stack) (limit : Option Int) (fuel : Nat) (strict : Bool)
    (env : Environment) (source : String) : Except Interruption Outcome :=
  (evaluateWithin stack (fun _ => 0) (Watcher.upTo limit) fuel env strict 0 source).2

/-- A line whose term is normal is its own value, if there is room to find that out. -/
theorem evaluateUpTo_of_isNormal {stack : Stack} {strict : Bool} {env : Environment}
    {source : String} {line : Line Expr} {t : Term}
    (htask : env.task strict source = .reduce line t) (ht : t.IsNormal)
    (hholds : stack.holds (max (env.taskCalls strict source) t.search.calls) = true)
    (limit : Option Int) (fuel : Nat) :
    evaluateUpTo stack limit fuel strict env source =
      .ok (Outcome.ofValue source env line t) := by
  rw [← evaluateCalls_of_isNormal htask ht] at hholds
  rw [evaluateUpTo, evaluateWithin_of_holds hholds, evaluate_eq_task, htask]
  simp only [Reducer.run_of_isNormal _ _ _ _ ht]

/-- What becomes of lines that are evaluated one after the other. -/
structure Sequence where
  /-- The outcomes of the lines up to the first that fails. -/
  outcomes : List Outcome
  /-- The environment that these lines leave behind. -/
  environment : Environment
  /-- Why the next line failed, if there is one. -/
  failure? : Option Interruption

namespace Sequence

/-- A sequence behind a line that succeeds. -/
def cons (o : Outcome) (q : Sequence) : Sequence := ⟨o :: q.outcomes, q.environment, q.failure?⟩

/-- The outcomes up to the first that is nested too deeply to be printed. -/
def printable (q : Sequence) (stack : Stack) : List Outcome :=
  q.outcomes.takeWhile fun o => stack.holds o.printCalls

variable {stack : Stack} {o : Outcome} {q : Sequence}

theorem printable_cons_of_holds (h : stack.holds o.printCalls = true) :
    (q.cons o).printable stack = o :: q.printable stack := by
  simp [printable, cons, h]

theorem printable_cons_of_overflows (h : stack.holds o.printCalls = false) :
    (q.cons o).printable stack = [] := by
  simp [printable, cons, h]

/-- Behind the outcomes that can be printed is one that cannot be, if there is any. -/
theorem exists_of_printable_ne (h : q.printable stack ≠ q.outcomes) :
    ∃ o, q.outcomes[(q.printable stack).length]? = some o ∧
      stack.holds o.printCalls = false := by
  obtain ⟨outcomes, env, failure?⟩ := q
  simp only [printable] at h ⊢
  induction outcomes with
  | nil => exact absurd rfl h
  | cons o os ih =>
      cases hholds : stack.holds o.printCalls with
      | false => exact ⟨o, by simp [hholds], hholds⟩
      | true =>
          simp only [List.takeWhile_cons, hholds, if_true] at h ⊢
          exact ih fun heq => h (by rw [heq])

theorem holds_of_printable_eq (h : q.printable stack = q.outcomes) :
    ∀ o ∈ q.outcomes, stack.holds o.printCalls = true := by
  rw [← h]
  exact List.all_eq_true.1 List.all_takeWhile

end Sequence

/-- Evaluates lines one after the other, up to the first that fails. -/
def evaluateAll (stack : Stack) (limit : Option Int) (fuel : Nat) (strict : Bool)
    (env : Environment) : List String → Sequence
  | [] => ⟨[], env, none⟩
  | source :: sources =>
      match evaluateUpTo stack limit fuel strict env source with
      | .error i => ⟨[], env, some i⟩
      | .ok o =>
          match o.result with
          | .error e => ⟨[], env, some (.error e)⟩
          | .ok _ => (evaluateAll stack limit fuel strict o.environment sources).cons o

/-! ## What is printed -/

/-- Texts, each in a line of its own. -/
def unlines (texts : List String) : String := String.join (texts.map (· ++ "\n"))

namespace Outcome

/-- The evaluated lines that are not empty. -/
def lines (os : List Outcome) : List (Line Term) :=
  (os.filterMap line?).filter fun line => line.term?.isSome

/-- The texts of the evaluated lines that are not empty. -/
def Prints (os : List Outcome) (texts : List String) : Prop :=
  List.Forall₂ (fun line text => line.render = .ok text) (lines os) texts

/-- The evaluated line of an outcome that is not a refusal. -/
theorem line?_eq_some {o : Outcome} {line : Line Term} (ho : o.result = .ok line) :
    o.line? = some line := by
  rw [line?, ho]
  rfl

/-- What is printed for a line comes in front of what is printed for the lines behind it. -/
theorem Prints.cons {o : Outcome} {line : Line Term} (ho : o.result = .ok line)
    (hvalue : ∀ v, o.value? = some v → v.Hygienic) {os : List Outcome} {texts : List String}
    (h : Prints os texts) :
    ∃ text texts', Session.lineText o = .ok text ∧ Prints (o :: os) texts' ∧
      unlines texts' = text ++ unlines texts := by
  have hline := line?_eq_some ho
  have hlines : lines (o :: os) = if line.term?.isSome then line :: lines os else lines os := by
    simp only [lines, List.filterMap_cons, hline, List.filter_cons]
  have hterm : ∀ v, line.term? = some v → v.Hygienic := by
    intro v hv
    exact hvalue v (by rw [value?, hline]; exact hv)
  obtain ⟨text, htext⟩ := Line.exists_render hterm
  by_cases hsome : line.term?.isSome
  · refine ⟨text ++ "\n", text :: texts, ?_, ?_, by simp [unlines]⟩
    · rw [Session.lineText_of_line hline htext, if_pos hsome]
    · rw [Prints, hlines, if_pos hsome]
      exact .cons htext h
  · refine ⟨"", texts, ?_, ?_, by simp⟩
    · rw [Session.lineText_of_line hline htext, if_neg hsome]
    · rw [Prints, hlines, if_neg hsome]
      exact h

/-- There is one way to print lines. -/
theorem Prints.unique {os : List Outcome} {texts texts' : List String} (h : Prints os texts)
    (h' : Prints os texts') : texts = texts' := by
  refine List.right_unique_forall₂' ?_ h h'
  intro line text text' htext htext'
  exact Except.ok.inj (htext.symm.trans htext')

end Outcome

/-! ## Sessions that print no contractions -/

namespace Session

/-- The session holds values only, prints no contractions, and has the bound given. -/
structure Quiet (s : Session) (limit : Option Int) : Prop where
  /-- The session holds values only. -/
  sound : s.Sound
  /-- Contractions are not printed. -/
  silent : s.trace = false
  /-- The bound is a number, if there is one. -/
  maxSteps : s.maxSteps = .ofOption limit

variable {s : Session} {limit : Option Int} {stack : Stack} {fuel : Nat} {source : String}
  {o : Outcome} {line : Line Term}

theorem Quiet.maxSteps_ne_blank (h : s.Quiet limit) : s.maxSteps ≠ .blank := by
  simp [h.maxSteps]

/-- Such a session does nothing but count contractions. -/
theorem Quiet.evaluateWithin_eq (h : s.Quiet limit) (stack : Stack) (fuel : Nat)
    (source : String) :
    ∃ steps, evaluateWithin stack s.shownCalls s.watch fuel s.environment s.strict ⟨0, ""⟩ source =
      (⟨steps, ""⟩, evaluateUpTo stack limit fuel s.strict s.environment source) := by
  have hshown : s.shownCalls = fun _ => 0 := by
    funext c
    simp [shownCalls, h.silent]
  rw [hshown]
  refine evaluateWithin_map (fun steps => (⟨steps, ""⟩ : Progress)) ?_ stack _ fuel _ _ 0 source
  intro steps c
  cases limit <;>
    simp [watch, traceText, h.silent, overLimit, h.maxSteps, Bound.ofOption, Watcher.upTo]

/-- The outcome of a line that is evaluated is taken over. -/
theorem Quiet.add_of_evaluate (h : s.Quiet limit)
    (heval : evaluateUpTo stack limit fuel s.strict s.environment source = .ok o)
    (ho : o.result = .ok line) (number : Int) :
    s.add fuel source number stack = ⟨"", s.accept o, .ok o⟩ := by
  obtain ⟨steps, heq⟩ := h.evaluateWithin_eq stack fuel source
  rw [← s.accept_registering source number]
  simp only [add, heq, heval, ho]
  rfl

theorem Quiet.accept (h : s.Quiet limit)
    (hadd : ∀ number, s.add fuel source number stack = ⟨"", s.accept o, .ok o⟩) :
    (s.accept o).Quiet limit where
  sound := by
    have hsound := h.sound.add fuel source 0 stack
    rwa [hadd] at hsound
  silent := h.silent
  maxSteps := h.maxSteps

/-- The value of a line that is evaluated can be printed, if there is room. -/
theorem Quiet.hygienic_of_evaluate (h : s.Quiet limit)
    (heval : evaluateUpTo stack limit fuel s.strict s.environment source = .ok o)
    (ho : o.result = .ok line) : ∀ v, o.value? = some v → v.Hygienic := by
  obtain ⟨-, hvalue⟩ := h.sound.environment.evaluate (evaluate_of_evaluateWithin heval ho)
  exact fun v hv => (hvalue v hv).hygienic

/-- A line is interrupted by an error of its own, or it is cut short. -/
def IsFailure (i : Interruption) : Prop :=
  (∃ e, i = .error e ∧ e.internal = false) ∨ i = .unfinished

theorem Quiet.isFailure_of_add (h : s.Quiet limit) {number : Int} {i : Interruption}
    (hi : (s.add fuel source number stack).result = .error i) : IsFailure i := by
  cases hholds : stack.holds (s.addCalls fuel source) with
  | false =>
      obtain ⟨j, -, heq⟩ := add_of_overflows hholds number
      rw [heq] at hi
      cases hi
      exact .inl ⟨.tooDeep, rfl, rfl⟩
  | true =>
      have hadds := adds_add h.sound h.maxSteps_ne_blank fuel source number
      rw [← add_of_holds hholds number] at hadds
      generalize s.add fuel source number stack = a at hadds hi
      cases hadds with
      | refused htask =>
          cases hi
          exact .inl ⟨_, rfl, Environment.internal_of_task_eq_refuse htask⟩
      | skipped => cases hi
      | evaluated => cases hi
      | exceeded =>
          cases hi
          exact .inl ⟨_, rfl, rfl⟩
      | unfinished =>
          cases hi
          exact .inr rfl

/-- A line fails in such a session as it does when it is evaluated, and otherwise its outcome is
taken over. -/
theorem Quiet.add_cases (h : s.Quiet limit) (stack : Stack) (fuel : Nat) (source : String)
    (sources : List String) :
    (∃ i, IsFailure i ∧
        evaluateAll stack limit fuel s.strict s.environment (source :: sources) =
          ⟨[], s.environment, some i⟩ ∧
        ∀ number, s.add fuel source number stack =
          ⟨"", s.registering source number, .error i⟩) ∨
      ∃ o line, o.result = .ok line ∧
        evaluateUpTo stack limit fuel s.strict s.environment source = .ok o ∧
        evaluateAll stack limit fuel s.strict s.environment (source :: sources) =
          (evaluateAll stack limit fuel s.strict o.environment sources).cons o ∧
        ∀ number, s.add fuel source number stack = ⟨"", s.accept o, .ok o⟩ := by
  obtain ⟨steps, heq⟩ := h.evaluateWithin_eq stack fuel source
  cases heval : evaluateUpTo stack limit fuel s.strict s.environment source with
  | error i =>
      have hadd : ∀ number, s.add fuel source number stack =
          ⟨"", s.registering source number, .error i⟩ := by
        intro number
        simp only [add, heq, heval]
        rfl
      have hi := h.isFailure_of_add (congrArg Action.result (hadd 0))
      exact .inl ⟨i, hi, by simp only [evaluateAll, heval], hadd⟩
  | ok o =>
      cases ho : o.result with
      | error e =>
          have hadd : ∀ number, s.add fuel source number stack =
              ⟨"", s.registering source number, .error (.error e)⟩ := by
            intro number
            simp only [add, heq, heval, ho]
            rfl
          have he := h.isFailure_of_add (congrArg Action.result (hadd 0))
          exact .inl ⟨.error e, he, by simp only [evaluateAll, heval, ho], hadd⟩
      | ok line =>
          exact .inr ⟨o, line, ho, rfl, by simp only [evaluateAll, heval, ho],
            h.add_of_evaluate heval ho⟩

/-- The action prints the texts and leaves behind what the sequence says. -/
structure Follows (q : Sequence) (stack : Stack) (s : Session) (number : Int)
    (sources texts : List String) (a : Action Session Unit) : Prop where
  /-- The texts are those of the lines up to the first that is nested too deeply to be printed. -/
  prints : Outcome.Prints (q.printable stack) texts
  /-- The texts are printed. -/
  printed : a.printed = unlines texts
  /-- If there is such a line, the action is interrupted there, and no line is registered. -/
  overflows : ∀ o, q.outcomes[(q.printable stack).length]? = some o →
    a.result = .error .overflow ∧ a.state.environment = o.environment ∧
      a.state.reporter = s.reporter.clear s.path
  /-- Otherwise the definitions are those of the sequence. -/
  environment : q.printable stack = q.outcomes → a.state.environment = q.environment
  /-- If no line failed either, the action ends normally. -/
  done : q.printable stack = q.outcomes → q.failure? = none → a.result = .ok ()
  /-- Otherwise it is interrupted by an error of the line, or cut short, and the line is
  registered with its number. -/
  failed : q.printable stack = q.outcomes → ∀ i, q.failure? = some i →
    IsFailure i ∧ a.result = .error i ∧
      ∃ source, sources[q.outcomes.length]? = some source ∧
        a.state.reporter = s.reporter.register s.path (some source)
          (some (number + q.outcomes.length))

/-- **Adding several lines** is evaluating them one after the other, and printing them. -/
theorem Quiet.follows_addAll (h : s.Quiet limit) (stack : Stack) (fuel : Nat) (number : Int)
    (sources : List String) :
    ∃ texts, Follows (evaluateAll stack limit fuel s.strict s.environment sources) stack s number
      sources texts (s.addAll fuel number sources stack) := by
  induction sources generalizing s number with
  | nil =>
      refine ⟨[], .nil, rfl, fun o ho => ?_, fun _ => rfl, fun _ _ => rfl, fun _ i hi => ?_⟩
      · cases ho
      · cases hi
  | cons source sources ih =>
      rcases h.add_cases stack fuel source sources with
        ⟨i, hi, hall, hadd⟩ | ⟨o, line, ho, heval, hall, hadd⟩
      · rw [hall]
        simp only [addAll, hadd]
        refine ⟨[], .nil, rfl, fun o ho => ?_, fun _ => rfl, fun _ hnone => ?_, fun _ j hj => ?_⟩
        · cases ho
        · cases hnone
        · cases hj
          exact ⟨hi, rfl, source, rfl, by simp [registering]⟩
      · rw [hall]
        obtain ⟨texts, hnext⟩ := ih (h.accept hadd) (number + 1)
        generalize hq : evaluateAll stack limit fuel s.strict o.environment sources = q
        replace hnext : Follows q .. := hq ▸ hnext
        cases hholds : stack.holds o.printCalls with
        | false =>
            -- the line has been evaluated, but the session stops before the next one
            simp only [addAll, hadd, lineText_of_overflows hholds]
            have hprintable := Sequence.printable_cons_of_overflows (q := q) hholds
            have hfits : (q.cons o).printable stack ≠ (q.cons o).outcomes := by
              rw [hprintable]
              simp [Sequence.cons]
            refine ⟨[], ?_, rfl, fun o' ho' => ?_, fun hp => absurd hp hfits,
              fun hp => absurd hp hfits, fun hp => absurd hp hfits⟩
            · rw [hprintable]
              exact .nil
            · rw [hprintable] at ho'
              cases ho'
              exact ⟨rfl, rfl, rfl⟩
        | true =>
            obtain ⟨text, texts', htext, hprints, hjoin⟩ :=
              hnext.prints.cons ho (h.hygienic_of_evaluate heval ho)
            have hprintable := Sequence.printable_cons_of_holds (q := q) hholds
            have hfits : (q.cons o).printable stack = (q.cons o).outcomes →
                q.printable stack = q.outcomes := by
              rw [hprintable]
              exact fun heq => (List.cons.inj heq).2
            simp only [addAll, hadd, (lineText_of_holds hholds).trans htext, Action.after,
              String.empty_append]
            refine ⟨texts', ?_, ?_, ?_, fun hp => hnext.environment (hfits hp),
              fun hp => hnext.done (hfits hp), fun hp i hi => ?_⟩
            · rwa [hprintable]
            · rw [hnext.printed, hjoin]
            · intro o' ho'
              rw [hprintable] at ho'
              obtain ⟨hresult, henv, hreporter⟩ := hnext.overflows o' ho'
              exact ⟨hresult, henv, hreporter.trans (Reporter.clear_register ..)⟩
            · obtain ⟨hkind, hresult, source', hsource', hreporter⟩ :=
                hnext.failed (hfits hp) i hi
              refine ⟨hkind, hresult, source', hsource', ?_⟩
              rw [hreporter]
              simp only [Session.accept, Reporter.register_clear, Sequence.cons, List.length_cons]
              congr 2
              omega

end Session

end UntypedLambda
