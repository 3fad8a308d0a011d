import UntypedLambda.Proofs.Evaluation.Task
import UntypedLambda.Proofs.Reporter
import UntypedLambda.Proofs.Session
import UntypedLambda.Proofs.Term.Rendering

/-!
# Adding a line to a session

A session watches the reduction of a line: it prints the contractions if it is asked to, counts
them, and stops at the first one past its bound.  Printing never fails, since all terms on the
way are hygienic, so the bound is the only reason to stop.  Within a stack there is one more: the
line may not have room for its calls.

* `Session.Counts` — what a session makes of a run.
* `Session.counts_lineRun` — this is what it makes of the run on a hygienic term.
* `Session.Adds` — what a line does to a session.
* `Session.adds_add` — adding a line does this, in every state that a session gets into.
* `Session.add_mono` — what a line does, unless it was cut short, does not depend on how many
  contractions are allowed.
* `Session.addCalls` — the calls that a line needs room for.
* `Session.add_of_holds`, `Session.add_of_overflows` — what it does if it has the room, and if it
  does not.
* `Session.exists_lineText`, `Session.lineText_of_holds`, `Session.lineText_of_overflows` — what
  has been evaluated can be printed, if there is room.
-/

namespace UntypedLambda

namespace Session

variable {s : Session}

/-! ## Counting contractions -/

/-- The run on the term of a line. -/
def lineRun (s : Session) (fuel : Nat) (t : Term) : Run Progress Interruption :=
  Reducer.fresh.run s.watch fuel ⟨0, ""⟩ t

theorem contractionText_of_render {c : Contraction} {left right : String}
    (hleft : c.redex.render = .ok left) (hright : c.contractum.render = .ok right) :
    contractionText c = .ok (left ++ "  →  " ++ right) := by
  rw [contractionText, hleft, hright]
  rfl

/-- A contraction with hygienic sides can be printed. -/
theorem exists_contractionText {c : Contraction} (hr : c.redex.Hygienic)
    (hc : c.contractum.Hygienic) : ∃ text, contractionText c = .ok text := by
  obtain ⟨left, hleft⟩ := hr.exists_render
  obtain ⟨right, hright⟩ := hc.exists_render
  exact ⟨_, contractionText_of_render hleft hright⟩

/-- All contractions of a hygienic term can be printed. -/
theorem exists_contractionText_of_steps {t u : Term} {r r' : Supply} {sts : List Step}
    (h : Steps (fun t s st => t.Settled s ∧ t.step? s = some st) t r sts u r') :
    ∀ c ∈ sts.map Step.contraction, ∃ text, contractionText c = .ok text := by
  rw [List.forall_mem_map]
  refine h.forall_mem ?_
  intro t r st hst
  have hclean := hst.1.clean hst.2
  exact exists_contractionText hclean.redex.hygienic hclean.contractum.hygienic

/-- A contraction that can be printed is counted, and then compared with the bound. -/
theorem watch_eq (s : Session) (p : Progress) {c : Contraction} {text : String}
    (h : contractionText c = .ok text) :
    ∃ printed, s.watch p c = (⟨p.steps + 1, printed⟩, s.overLimit (p.steps + 1)) := by
  unfold watch traceText
  rw [h]
  by_cases htrace : s.trace <;> simp [htrace, Except.map]

/-- The contractions shown are counted.  None of them but the last is past the bound, and the
last one is if it made the session stop. -/
theorem count_of_shown {p p' : Progress} {cs : List Contraction} {stop? : Option Interruption}
    (h : Shown s.watch p cs p' stop?) (hcs : ∀ c ∈ cs, ∃ text, contractionText c = .ok text) :
    (∀ k, p.steps < k → k < p.steps + cs.length → s.overLimit k = none) ∧
      stop? = if cs = [] then none else s.overLimit (p.steps + cs.length) := by
  induction h with
  | nil p =>
      refine ⟨fun k hk hlt => ?_, rfl⟩
      simp only [List.length_nil] at hlt
      omega
  | @stop p p' c e hw =>
      obtain ⟨text, htext⟩ := hcs c (List.mem_cons_self ..)
      obtain ⟨printed, heq⟩ := s.watch_eq p htext
      rw [hw] at heq
      obtain ⟨-, hstop⟩ := Prod.mk.inj heq
      refine ⟨fun k hk hlt => ?_, hstop⟩
      simp only [List.length_singleton] at hlt
      omega
  | @cons p p' p'' c cs stop? hw _ ih =>
      obtain ⟨text, htext⟩ := hcs c (List.mem_cons_self ..)
      obtain ⟨printed, heq⟩ := s.watch_eq p htext
      rw [hw] at heq
      obtain ⟨rfl, hpass⟩ := Prod.mk.inj heq
      obtain ⟨hallowed, hstop⟩ := ih fun d hd => hcs d (List.mem_cons_of_mem _ hd)
      simp only [Nat.add_assoc, Nat.add_comm 1] at hallowed hstop
      refine ⟨fun k hk hlt => ?_, ?_⟩
      · by_cases hfirst : k = p.steps + 1
        · rw [hfirst, ← hpass]
        · exact hallowed k (by omega) hlt
      · rw [hstop, if_neg (List.cons_ne_nil c cs)]
        split
        · next hnil => rw [hnil, hpass]; rfl
        · rfl

/-- What a session makes of a run: none of the contractions but the last is past the bound, and
the run is stopped exactly if the last one is. -/
structure Counts (s : Session) (run : Run Progress Interruption) : Prop where
  /-- Before the last contraction, the bound has not been passed. -/
  allowed : ∀ k, 0 < k → k < run.reducer.steps → s.overLimit k = none
  /-- A run without a contraction is not stopped, and any other one is if the bound has been
  passed. -/
  stop : run.ending.stop? =
    if run.reducer.steps = 0 then none else s.overLimit run.reducer.steps

theorem counts_lineRun (s : Session) (fuel : Nat) {t : Term} (ht : t.Hygienic) :
    s.Counts (s.lineRun fuel t) := by
  obtain ⟨sts, u, hs, hp, -⟩ := Reducer.exists_settled_steps s.watch fuel Reducer.fresh ⟨0, ""⟩ ht
  have hsteps : (s.lineRun fuel t).reducer.steps = sts.length := by
    rw [lineRun, hp.steps]
    exact Nat.zero_add _
  obtain ⟨hallowed, hstop⟩ := count_of_shown hp.shown (exists_contractionText_of_steps hs)
  simp only [List.length_map, Nat.zero_add, List.map_eq_nil_iff] at hallowed hstop
  refine ⟨?_, ?_⟩
  · rw [hsteps]
    exact hallowed
  · rw [hsteps]
    simp only [List.length_eq_zero_iff]
    exact hstop

theorem measures_lineRun (s : Session) (fuel : Nat) {t : Term} (ht : t.Hygienic) :
    Reducer.Measures t fuel (s.lineRun fuel t) :=
  Reducer.measures_run s.watch fuel ⟨0, ""⟩ ht

/-- A run is stopped only by the bound, at the first contraction past it. -/
theorem Counts.stopped {run : Run Progress Interruption} (h : s.Counts run)
    (hb : s.maxSteps ≠ .blank) {i : Interruption} (hend : run.ending = .stopped i) :
    ∃ n, s.maxSteps = .number n ∧ i = .error (.stepLimit n) ∧ n < run.reducer.steps ∧
      ∀ k : Nat, 0 < k → k < run.reducer.steps → k ≤ n := by
  have hstop := h.stop
  have hallowed := h.allowed
  simp only [hend, Ending.stop?, overLimit] at hstop hallowed
  split at hstop
  · cases hstop
  · cases hmax : s.maxSteps with
    | none =>
        simp only [hmax] at hstop
        cases hstop
    | blank => exact absurd hmax hb
    | number n =>
        simp only [hmax] at hstop hallowed
        split at hstop
        · next hlt =>
            cases hstop
            refine ⟨n, rfl, rfl, hlt, fun k hk hkr => ?_⟩
            have hnone := hallowed k hk hkr
            split at hnone
            · cases hnone
            · next hle => omega
        · cases hstop

/-- A run that was not stopped has not passed the bound. -/
theorem Counts.le_of_not_stopped {run : Run Progress Interruption} (h : s.Counts run)
    (hend : run.ending.stop? = none) {n : Int} (hn : s.maxSteps = .number n)
    (hsteps : 0 < run.reducer.steps) : run.reducer.steps ≤ n := by
  have hstop := h.stop
  rw [hend, if_neg (by omega)] at hstop
  simp only [overLimit, hn] at hstop
  split at hstop
  · cases hstop
  · omega

/-! ## What a line does -/

/-- The session while a line is evaluated, and after it failed. -/
def registering (s : Session) (source : String) (number : Int) : Session :=
  { s with reporter := s.reporter.register s.path (some source) (some number) }

/-- What becomes of a session once the evaluation of a line has come to an end. -/
def conclude (s : Session) (source : String) (number : Int)
    (r : Progress × Except Interruption Outcome) : Action Session Outcome :=
  match r.2 with
  | .error i => ⟨r.1.printed, s.registering source number, .error i⟩
  | .ok o =>
      match o.result with
      | .error e => ⟨r.1.printed, s.registering source number, .error (.error e)⟩
      | .ok _ => ⟨r.1.printed, (s.registering source number).accept o, .ok o⟩

/-- Adding a line is evaluating it and drawing the conclusion. -/
theorem add_eq_conclude (s : Session) (fuel : Nat) (source : String) (number : Int)
    (stack : Stack) :
    s.add fuel source number stack =
      s.conclude source number
        (evaluateWithin stack s.shownCalls s.watch fuel s.environment s.strict ⟨0, ""⟩ source) :=
  rfl

theorem printed_conclude (s : Session) (source : String) (number : Int)
    (r : Progress × Except Interruption Outcome) :
    (s.conclude source number r).printed = r.1.printed := by
  unfold conclude
  split
  · rfl
  · split <;> rfl

/-- After a line that succeeded, nothing is left of its being registered. -/
@[simp] theorem accept_registering (s : Session) (source : String) (number : Int) (o : Outcome) :
    (s.registering source number).accept o = s.accept o := by
  simp [registering, accept]

/-- What is registered before makes no difference to a line. -/
@[simp] theorem add_registering (s : Session) (source source' : String) (number number' : Int)
    (fuel : Nat) :
    (s.registering source' number').add fuel source number = s.add fuel source number := by
  have hwatch : (s.registering source' number').watch = s.watch := rfl
  unfold add
  rw [evaluateWithin_unlimited, evaluateWithin_unlimited, hwatch]
  simp [registering]

/-- The number of a line makes no difference but to what is registered. -/
theorem exists_add_eq (s : Session) (fuel : Nat) (source : String)
    (stack : Stack := .unlimited) :
    (∃ printed i, ∀ number, s.add fuel source number stack =
        ⟨printed, s.registering source number, .error i⟩) ∨
      ∃ printed o, ∀ number, s.add fuel source number stack = ⟨printed, s.accept o, .ok o⟩ := by
  unfold add
  simp only
  split
  · exact .inl ⟨_, _, fun number => rfl⟩
  · next o ho =>
      split
      · exact .inl ⟨_, _, fun number => rfl⟩
      · exact .inr ⟨_, o, fun number => congrArg (Action.mk _ · _) (s.accept_registering ..)⟩

/-- A line changes the definitions, the results and the lines being evaluated, and nothing
else. -/
theorem exists_add_state_eq (s : Session) (fuel : Nat) (source : String) (number : Int)
    (stack : Stack := .unlimited) :
    ∃ env results lines, (s.add fuel source number stack).state =
      { s with
        environment := env
        results := results
        reporter := { s.reporter with lines := lines } } := by
  rcases s.exists_add_eq fuel source stack with ⟨printed, i, hadd⟩ | ⟨printed, o, hadd⟩
  · rw [hadd]
    exact ⟨_, _, _, rfl⟩
  · rw [hadd]
    exact ⟨_, _, _, rfl⟩

section Ending

variable {fuel : Nat} {source : String} {line : Line Expr} {t : Term}

theorem add_of_refuse {e : Error} (htask : s.environment.task s.strict source = .refuse e)
    (number : Int) :
    s.add fuel source number = ⟨"", s.registering source number, .error (.error e)⟩ := by
  simp only [add, evaluateWithin_unlimited, evaluate_eq_task, htask]
  rfl

theorem add_of_skip (htask : s.environment.task s.strict source = .skip) (number : Int) :
    s.add fuel source number =
      ⟨"", s.accept ⟨source, s.environment, .ok .empty⟩,
        .ok ⟨source, s.environment, .ok .empty⟩⟩ := by
  rw [← s.accept_registering source number]
  simp only [add, evaluateWithin_unlimited, evaluate_eq_task, htask]
  rfl

theorem add_of_normal (htask : s.environment.task s.strict source = .reduce line t) {v : Term}
    (hend : (s.lineRun fuel t).ending = .normal v) (number : Int) :
    s.add fuel source number =
      ⟨(s.lineRun fuel t).seen.printed,
        s.accept (Outcome.ofValue source s.environment line v),
        .ok (Outcome.ofValue source s.environment line v)⟩ := by
  rw [← s.accept_registering source number]
  unfold lineRun at hend ⊢
  simp only [add, evaluateWithin_unlimited, evaluate_eq_task, htask, hend]
  rfl

/-- A line whose term is normal is its own value. -/
theorem add_of_isNormal (htask : s.environment.task s.strict source = .reduce line t)
    (ht : t.IsNormal) (fuel : Nat) (number : Int) :
    s.add fuel source number =
      ⟨"", s.accept (Outcome.ofValue source s.environment line t),
        .ok (Outcome.ofValue source s.environment line t)⟩ := by
  have hrun : s.lineRun fuel t = ⟨.normal t, ⟨Supply.empty.reserve t.ids, 0⟩, ⟨0, ""⟩⟩ :=
    Reducer.run_of_isNormal s.watch fuel Reducer.fresh ⟨0, ""⟩ ht
  rw [add_of_normal htask (congrArg Run.ending hrun), hrun]

theorem add_of_stopped (htask : s.environment.task s.strict source = .reduce line t) {e : Error}
    (hend : (s.lineRun fuel t).ending = .stopped (.error e)) (number : Int) :
    s.add fuel source number =
      ⟨(s.lineRun fuel t).seen.printed, s.registering source number, .error (.error e)⟩ := by
  unfold lineRun at hend ⊢
  simp only [add, evaluateWithin_unlimited, evaluate_eq_task, htask, hend]
  rfl

theorem add_of_unfinished (htask : s.environment.task s.strict source = .reduce line t) {u : Term}
    (hend : (s.lineRun fuel t).ending = .unfinished u) (number : Int) :
    s.add fuel source number =
      ⟨(s.lineRun fuel t).seen.printed, s.registering source number, .error .unfinished⟩ := by
  unfold lineRun at hend ⊢
  simp only [add, evaluateWithin_unlimited, evaluate_eq_task, htask, hend]
  rfl

end Ending

/-- What a line does to a session. -/
inductive Adds (s : Session) (fuel : Nat) (source : String) (number : Int) :
    Action Session Outcome → Prop
  /-- The line is refused before anything is reduced. -/
  | refused {e : Error} : s.environment.task s.strict source = .refuse e →
      Adds s fuel source number ⟨"", s.registering source number, .error (.error e)⟩
  /-- There is nothing on the line. -/
  | skipped {o : Outcome} : s.environment.task s.strict source = .skip →
      o = ⟨source, s.environment, .ok .empty⟩ →
      Adds s fuel source number ⟨"", s.accept o, .ok o⟩
  /-- The line has a value. -/
  | evaluated {line : Line Expr} {t v : Term} {o : Outcome} :
      s.environment.task s.strict source = .reduce line t → (s.lineRun fuel t).ending = .normal v →
      o = Outcome.ofValue source s.environment line v →
      Adds s fuel source number ⟨(s.lineRun fuel t).seen.printed, s.accept o, .ok o⟩
  /-- The bound is passed. -/
  | exceeded {line : Line Expr} {t : Term} {n : Int} :
      s.environment.task s.strict source = .reduce line t →
      (s.lineRun fuel t).ending = .stopped (.error (.stepLimit n)) →
      Adds s fuel source number
        ⟨(s.lineRun fuel t).seen.printed, s.registering source number,
          .error (.error (.stepLimit n))⟩
  /-- The reduction is cut short. -/
  | unfinished {line : Line Expr} {t u : Term} :
      s.environment.task s.strict source = .reduce line t →
      (s.lineRun fuel t).ending = .unfinished u →
      Adds s fuel source number
        ⟨(s.lineRun fuel t).seen.printed, s.registering source number, .error .unfinished⟩

/-- **Adding a line** to a session that holds values only is one of these. -/
theorem adds_add (hs : s.Sound) (hb : s.maxSteps ≠ .blank) (fuel : Nat) (source : String)
    (number : Int) : Adds s fuel source number (s.add fuel source number) := by
  cases htask : s.environment.task s.strict source with
  | refuse e =>
      rw [add_of_refuse htask]
      exact .refused htask
  | skip =>
      rw [add_of_skip htask]
      exact .skipped htask rfl
  | reduce line t =>
      have ht := hs.environment.hygienic_of_task htask
      cases hend : (s.lineRun fuel t).ending with
      | normal v =>
          rw [add_of_normal htask hend]
          exact .evaluated htask hend rfl
      | stopped i =>
          obtain ⟨n, -, rfl, -⟩ := (s.counts_lineRun fuel ht).stopped hb hend
          rw [add_of_stopped htask hend]
          exact .exceeded htask hend
      | unfinished u =>
          rw [add_of_unfinished htask hend]
          exact .unfinished htask hend

/-- A line that was dealt with is dealt with in the same way if more contractions are allowed. -/
theorem add_mono {fuel fuel' : Nat} {source : String} {number : Int} {stack : Stack}
    (hle : fuel ≤ fuel') (h : (s.add fuel source number stack).result ≠ .error .unfinished) :
    s.add fuel' source number stack = s.add fuel source number stack := by
  rw [add_eq_conclude, add_eq_conclude, evaluateWithin_mono hle]
  intro hcut
  simp [add, hcut] at h

/-! ## Within a stack -/

section Within

variable {fuel : Nat} {source : String} {stack : Stack}

/-- The calls that are open at the deepest point of adding a line without a limit. -/
def addCalls (s : Session) (fuel : Nat) (source : String) : Nat :=
  evaluateCalls s.shownCalls s.watch fuel s.environment s.strict ⟨0, ""⟩ source

/-- A line that has room for its calls does what it does without a limit. -/
theorem add_of_holds (h : stack.holds (s.addCalls fuel source) = true) (number : Int) :
    s.add fuel source number stack = s.add fuel source number := by
  rw [add_eq_conclude, add_eq_conclude, evaluateWithin_of_holds h, evaluateWithin_unlimited]

/-- A line that does not have room for its calls fails, because it is nested too deeply; until
then, what is printed is the same as without a limit. -/
theorem add_of_overflows (h : stack.holds (s.addCalls fuel source) = false) (number : Int) :
    ∃ j ≤ fuel, s.add fuel source number stack =
      ⟨(s.add j source number).printed, s.registering source number,
        .error (.error .tooDeep)⟩ := by
  obtain ⟨j, hj, heq⟩ := evaluateWithin_of_overflows h
  refine ⟨j, hj, ?_⟩
  rw [add_eq_conclude, heq, add_eq_conclude s j, printed_conclude, evaluateWithin_unlimited]
  rfl

end Within

/-! ## What is printed for a line -/

theorem lineText_of_line {o : Outcome} {line : Line Term} {text : String} (h : o.line? = some line)
    (htext : line.render = .ok text) :
    lineText o = .ok (if line.term?.isSome then text ++ "\n" else "") := by
  unfold lineText
  rw [h]
  cases line with
  | empty => rfl
  | expression t => simp [Line.renderWithin, htext, Line.term?, Except.map]
  | definition name t => simp [Line.renderWithin, htext, Line.term?, Except.map]

/-- What has been evaluated can be printed. -/
theorem exists_lineText {o : Outcome} (h : ∀ v, o.value? = some v → v.Hygienic) :
    ∃ text, lineText o = .ok text := by
  cases hline : o.line? with
  | none => exact ⟨"", by rw [lineText, hline]⟩
  | some line =>
      have hterm : ∀ v, line.term? = some v → v.Hygienic := by
        intro v hv
        exact h v (by rw [Outcome.value?, hline]; exact hv)
      obtain ⟨text, htext⟩ := Line.exists_render hterm
      exact ⟨_, lineText_of_line hline htext⟩

/-- Nothing is printed for an outcome without a value. -/
theorem lineText_of_value?_eq_none {o : Outcome} {stack : Stack} (h : o.value? = none) :
    lineText o stack = .ok "" := by
  unfold lineText
  cases hline : o.line? with
  | none => rfl
  | some line =>
      rw [Outcome.value?, hline, Option.bind_some] at h
      cases line with
      | empty => rfl
      | expression t => cases h
      | definition name t => cases h

/-- A line that there is room to print is printed as without a limit. -/
theorem lineText_of_holds {o : Outcome} {stack : Stack} (h : stack.holds o.printCalls = true) :
    lineText o stack = lineText o := by
  unfold lineText
  cases hline : o.line? with
  | none => rfl
  | some line =>
      rw [Outcome.printCalls_of_line? hline] at h
      cases line <;> simp only [Line.renderWithin_of_holds h]

/-- A line that there is no room to print is not printed. -/
theorem lineText_of_overflows {o : Outcome} {stack : Stack}
    (h : stack.holds o.printCalls = false) : lineText o stack = .error .overflow := by
  obtain ⟨room, -, hlt⟩ := Stack.holds_eq_false_iff.1 h
  unfold lineText
  cases hline : o.line? with
  | none => simp [Outcome.printCalls, Outcome.value?, hline] at hlt
  | some line =>
      rw [Outcome.printCalls_of_line? hline] at h hlt
      cases line with
      | empty => cases hlt
      | expression t =>
          simp only [Line.renderWithin_of_overflows h]
          rfl
      | definition name t =>
          simp only [Line.renderWithin_of_overflows h]
          rfl

end Session

end UntypedLambda
