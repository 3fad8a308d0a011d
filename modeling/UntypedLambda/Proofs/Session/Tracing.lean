import UntypedLambda.Proofs.Session.Failure
import UntypedLambda.Proofs.Session.StepLimit
import UntypedLambda.Proofs.Term.Loose

/-!
# Printing contractions

A session that prints the contractions of its lines does the same as one that does not, as long
as there is room on the stack for printing them.  Nothing else can go wrong: the sides of a
contraction are hygienic, although variables may be loose in them.  To compare the two sessions,
the contractions of a line are recorded by a third watcher, which neither prints nor looks at
whether contractions are printed.

* `Contraction.Sound` — what holds of all contractions in a session.
* `Session.contractions` — the contractions of a line.
* `Session.add_eq_recorded` — what a line does, in terms of its contractions.
* `Session.add_with_trace` — without a limit, printing contractions changes what is printed, and
  nothing else.
* `Session.RoomToTrace` — there is room for printing the contractions of a line.
* `Session.add_with_trace_of_room`, `Session.afterLines_with_trace` — then it is the same within a
  stack.
* `Session.tracing_is_transparent` — the same for two new sessions, and what is printed.
-/

namespace UntypedLambda

/-! ## What holds of a contraction -/

/-- A contraction whose sides can be printed and read back. -/
structure Contraction.Sound (c : Contraction) : Prop where
  /-- One number means one function in the redex. -/
  redex : c.redex.Hygienic
  /-- One number means one function in the contractum. -/
  contractum : c.contractum.Hygienic
  /-- All names in the redex are written as variables. -/
  plain : ∀ x ∈ c.redex.names, IsVariableName x
  /-- There are no other names in the contractum. -/
  names : c.contractum.names ⊆ c.redex.names
  /-- Nothing else is loose in the contractum. -/
  loose : c.contractum.looseIds ⊆ c.redex.looseIds
  /-- Nothing else is free in the contractum. -/
  free : c.contractum.freeNames ⊆ c.redex.freeNames
  /-- The redex means a redex, and the contractum what it is contracted to. -/
  meaning : ∃ body arg, c.redex.nameless = .app (.lam body) arg ∧
    c.contractum.nameless = Nameless.contract body arg

theorem Term.Settled.sound_contraction {t : Term} {r : Supply} {st : Step} (ht : t.Settled r)
    (hnames : ∀ x ∈ t.names, IsVariableName x) (h : t.step? r = some st) :
    st.contraction.Sound := by
  obtain ⟨p, hp⟩ := exists_contracts h
  obtain ⟨hevolves, -⟩ := hp.evolves ht.hygienic ht.known
  obtain ⟨hcontractum, hredex⟩ := hp.names
  exact ⟨ht.hygienic.at? hp.place, hevolves.hygienic, fun x hx => hnames x (hredex hx),
    hcontractum, hevolves.loose, hevolves.free, hp.meaning ht []⟩

/-- In an environment whose names stand for values, the term of a line is written with variables
only. -/
theorem Environment.Sound.isVariableName_of_task {env : Environment} {strict : Bool}
    {source : String} {line : Line Expr} {t : Term} (henv : env.Sound)
    (htask : env.task strict source = .reduce line t) : ∀ x ∈ t.names, IsVariableName x := by
  obtain ⟨e, hparse, hterm, hresolve⟩ := of_task_eq_reduce htask
  intro x hx
  rcases (resolves_of_resolve henv hresolve).names x hx with hx | hx
  · exact Line.isVariableName_of_parse hparse (Line.names_subset_of_term? hterm hx)
  · exact hx

namespace Session

variable {s : Session} {fuel : Nat} {source : String}

/-! ## Recording contractions -/

/-- Keeps the contractions of a line, and stops at the first one past the bound. -/
def recorder (s : Session) : Watcher (List Contraction) Interruption := fun cs c =>
  (cs ++ [c], s.overLimit (cs.length + 1))

/-- The contractions that are performed for a line, in order. -/
def contractions (s : Session) (fuel : Nat) (source : String) : List Contraction :=
  (evaluate s.recorder fuel s.environment s.strict [] source).1

/-- What a session has seen and printed when contractions were performed. -/
def progress (s : Session) (cs : List Contraction) : Progress :=
  ⟨cs.length, String.join (cs.map fun c => (s.traceText c).toOption.getD "")⟩

theorem exists_traceText {c : Contraction} (hr : c.redex.Hygienic) (hc : c.contractum.Hygienic) :
    ∃ text, s.traceText c = .ok text := by
  obtain ⟨text, htext⟩ := exists_contractionText hr hc
  unfold traceText
  split
  · rw [htext]
    exact ⟨_, rfl⟩
  · exact ⟨"", rfl⟩

/-- A session makes of a contraction what the recorder does, apart from what it remembers. -/
theorem watch_progress (s : Session) (cs : List Contraction) (c : Contraction)
    (hr : c.redex.Hygienic) (hc : c.contractum.Hygienic) :
    s.watch (s.progress cs) c =
      (s.progress (s.recorder cs c).1, (s.recorder cs c).2) := by
  obtain ⟨text, htext⟩ := s.exists_traceText hr hc
  unfold watch
  rw [htext]
  simp [recorder, progress, htext, Except.toOption]

/-- What a line does, in terms of its contractions. -/
theorem add_eq_recorded (hs : s.Sound) (fuel : Nat) (source : String) (number : Int) :
    s.add fuel source number =
      s.conclude source number (s.progress (s.contractions fuel source),
        (evaluate s.recorder fuel s.environment s.strict [] source).2) := by
  rw [add_eq_conclude, evaluateWithin_unlimited]
  exact congrArg (s.conclude source number)
    (evaluate_map_of_sound s.progress s.watch_progress fuel hs.environment s.strict [] source)

theorem printed_add (hs : s.Sound) (fuel : Nat) (source : String) (number : Int) :
    (s.add fuel source number).printed = (s.progress (s.contractions fuel source)).printed := by
  rw [add_eq_recorded hs, printed_conclude]

/-- Nothing is recorded but what is shown. -/
theorem eq_append_of_shown {cs cs' cs'' : List Contraction} {stop? : Option Interruption}
    (h : Shown s.recorder cs cs' cs'' stop?) : cs'' = cs ++ cs' := by
  induction h with
  | nil cs => exact (List.append_nil cs).symm
  | stop hw => exact (Prod.mk.inj hw).1.symm
  | cons hw _ ih =>
      rw [ih, ← (Prod.mk.inj hw).1, List.append_assoc]
      rfl

theorem contractions_of_task {line : Line Expr} {t : Term}
    (htask : s.environment.task s.strict source = .reduce line t) (fuel : Nat) :
    s.contractions fuel source = (Reducer.fresh.run s.recorder fuel [] t).seen := by
  rw [contractions, evaluate_eq_task, htask]

/-- The contractions of a line are those of the run on its term, one for each step. -/
theorem exists_steps_contractions (hs : s.Sound) {line : Line Expr} {t : Term}
    (htask : s.environment.task s.strict source = .reduce line t) (fuel : Nat) :
    ∃ sts u, Steps (fun t r st => t.Settled r ∧ t.step? r = some st) t
        (Supply.empty.reserve t.ids) sts u (s.lineRun fuel t).reducer.supply ∧
      s.contractions fuel source = sts.map Step.contraction ∧
      (s.lineRun fuel t).reducer.steps = sts.length := by
  have ht := hs.environment.hygienic_of_task htask
  obtain ⟨sts, u, hsts, hp, -⟩ := Reducer.exists_settled_steps s.recorder fuel Reducer.fresh [] ht
  have hrun : (s.lineRun fuel t).reducer =
      (Reducer.fresh.run s.recorder fuel [] t).reducer :=
    congrArg Run.reducer
      (Reducer.run_map_of_hygienic s.progress s.watch_progress fuel Reducer.fresh [] ht)
  rw [hrun]
  refine ⟨sts, u, hsts, ?_, ?_⟩
  · rw [contractions_of_task htask]
    exact eq_append_of_shown hp.shown
  · rw [hp.steps]
    exact Nat.zero_add _

/-- All contractions in a session can be printed and read back. -/
theorem sound_of_mem_contractions (hs : s.Sound) {c : Contraction}
    (hc : c ∈ s.contractions fuel source) : c.Sound := by
  cases htask : s.environment.task s.strict source with
  | refuse e =>
      rw [contractions, evaluate_eq_task, htask] at hc
      cases hc
  | skip =>
      rw [contractions, evaluate_eq_task, htask] at hc
      cases hc
  | reduce line t =>
      obtain ⟨sts, u, hsts, heq, -⟩ := exists_steps_contractions hs htask fuel
      have hkeep : ∀ (t : Term) (r : Supply) (st : Step), (∀ x ∈ t.names, IsVariableName x) →
          t.Settled r ∧ t.step? r = some st → ∀ x ∈ st.result.names, IsVariableName x := by
        intro t r st hnames hst x hx
        exact hnames x (Term.names_step? hst.2 hx)
      obtain ⟨hsts, -⟩ := @Steps.invariant _ (fun t _ => ∀ x ∈ t.names, IsVariableName x) hkeep
        _ _ _ _ _ hsts (hs.environment.isVariableName_of_task htask)
      rw [heq] at hc
      obtain ⟨st, hst, rfl⟩ := List.mem_map.1 hc
      exact hsts.forall_mem (fun t r st h => h.2.1.sound_contraction h.1 h.2.2) st hst

/-! ## What is printed -/

/-- The text is a single line. -/
def IsLine (text : String) : Prop := ∃ line : String, text = line ++ "\n" ∧ '\n' ∉ line.toList

/-- The text has one line for each contraction, in order, which shows its two sides. -/
def Traces (r : Reporter) (cs : List Contraction) (printed : String) : Prop :=
  ∃ lines, printed = String.join lines ∧
    List.Forall₂ (fun c line => IsLine line ∧
      ∃ redex contractum, c.redex.render = .ok redex ∧ c.contractum.render = .ok contractum ∧
        line = r.style.bold none "β  " ++ redex ++ "  →  " ++ contractum ++ "\n") cs lines

theorem not_mem_of_noBlank {text : String} (h : Expr.NoBlank text) : '\n' ∉ text.toList := by
  intro hm
  exact absurd (h '\n' hm) (by decide)

theorem exists_trace_of_sound {c : Contraction} (h : c.Sound) (r : Reporter) :
    ∃ left right, c.redex.render = .ok left ∧ c.contractum.render = .ok right ∧
      IsLine (r.style.bold none "β  " ++ left ++ "  →  " ++ right ++ "\n") := by
  obtain ⟨left, hleft⟩ := h.redex.exists_render
  obtain ⟨right, hright⟩ := h.contractum.exists_render
  have hredex := not_mem_of_noBlank (Term.noBlank_render hleft h.plain)
  have hcontractum := not_mem_of_noBlank
    (Term.noBlank_render hright fun x hx => h.plain x (h.names hx))
  have hlabel : '\n' ∉ (r.style.bold none "β  ").toList := by
    cases r.style <;> decide
  have harrow : '\n' ∉ "  →  ".toList := by decide
  refine ⟨left, right, hleft, hright,
    r.style.bold none "β  " ++ left ++ "  →  " ++ right, rfl, ?_⟩
  simp only [String.toList_append, List.mem_append, not_or] at hlabel ⊢
  exact ⟨⟨⟨hlabel, hredex⟩, harrow⟩, hcontractum⟩

/-- What is printed for a contraction shows both of its sides. -/
theorem traceText_of_trace (htrace : s.trace = true) {c : Contraction} {left right : String}
    (hleft : c.redex.render = .ok left) (hright : c.contractum.render = .ok right) :
    s.traceText c =
      .ok (s.reporter.style.bold none "β  " ++ left ++ "  →  " ++ right ++ "\n") := by
  have hlabel : "β" ++ "  " = "β  " := by decide
  rw [traceText, if_pos htrace, contractionText_of_render hleft hright, Except.map,
    Reporter.trace, hlabel]
  simp only [String.append_assoc]

/-- A session that prints contractions prints a line for each of them. -/
theorem traces_progress (htrace : s.trace = true) {cs : List Contraction}
    (h : ∀ c ∈ cs, c.Sound) : Traces s.reporter cs (s.progress cs).printed := by
  refine ⟨_, rfl, List.forall₂_map_right_iff.2 (List.forall₂_same.2 ?_)⟩
  intro c hc
  obtain ⟨left, right, hleft, hright, hline⟩ := exists_trace_of_sound (h c hc) s.reporter
  rw [traceText_of_trace htrace hleft hright]
  exact ⟨hline, left, right, hleft, hright, rfl⟩

/-- A session that prints no contractions prints nothing for them. -/
theorem printed_progress_of_silent (htrace : s.trace = false) (cs : List Contraction) :
    (s.progress cs).printed = "" := by
  induction cs with
  | nil => rfl
  | cons c cs ih =>
      have hnone : s.traceText c = .ok "" := by simp [traceText, htrace]
      simp only [progress] at ih
      simp only [progress, List.map_cons, String.join_cons, ih, hnone]
      rfl

/-! ## Printing makes no difference -/

/-- The conclusion that is drawn depends on whether contractions are printed only in what is
printed. -/
theorem conclude_with_trace (s : Session) (b : Bool) (source : String) (number : Int)
    (p p' : Progress) (r : Except Interruption Outcome) :
    { s with trace := b }.conclude source number (p, r) =
      ⟨p.printed, { (s.conclude source number (p', r)).state with trace := b },
        (s.conclude source number (p', r)).result⟩ := by
  cases r with
  | error i => rfl
  | ok o =>
      obtain ⟨line, env, result⟩ := o
      cases result <;> rfl

theorem Sound.with_trace (hs : s.Sound) (b : Bool) : { s with trace := b }.Sound :=
  ⟨hs.environment, hs.results⟩

/-- A line does the same whether contractions are printed or not, apart from what is printed. -/
theorem add_with_trace (hs : s.Sound) (b : Bool) (fuel : Nat) (source : String) (number : Int) :
    { s with trace := b }.add fuel source number =
      ⟨({ s with trace := b }.progress (s.contractions fuel source)).printed,
        { (s.add fuel source number).state with trace := b },
        (s.add fuel source number).result⟩ := by
  rw [add_eq_recorded (hs.with_trace b), add_eq_recorded hs]
  exact s.conclude_with_trace b source number _ _ _

/-! ## Within a stack -/

/-- A session takes as many turns for a line whether contractions are printed or not. -/
theorem turns_lineRun_with_trace (s : Session) (b : Bool) (fuel : Nat) {t : Term}
    (ht : t.Hygienic) : ({ s with trace := b }.lineRun fuel t).turns = (s.lineRun fuel t).turns := by
  have hrun : ∀ s : Session, s.lineRun fuel t = _ := fun s =>
    Reducer.run_map_of_hygienic s.progress s.watch_progress fuel Reducer.fresh [] ht
  rw [hrun, hrun]
  exact Run.turns_congr rfl rfl

/-- If contractions are printed, a line needs room for at least as many calls. -/
theorem addCalls_le_with_trace (hs : s.Sound) (hsilent : s.trace = false) (fuel : Nat)
    (source : String) :
    s.addCalls fuel source ≤ { s with trace := true }.addCalls fuel source := by
  have hshown : ∀ c, s.shownCalls c ≤ { s with trace := true }.shownCalls c := by
    intro c
    simp [shownCalls, hsilent]
  refine max_le_max (Nat.le_refl _) ?_
  cases htask : s.environment.task s.strict source with
  | refuse e => exact Nat.zero_le _
  | skip => exact Nat.zero_le _
  | reduce line t =>
      have ht := hs.environment.hygienic_of_task htask
      have hturns := s.turns_lineRun_with_trace true fuel ht
      unfold lineRun at hturns
      simp only [hturns]
      exact Term.reduceCalls_mono hshown _ _ _

/-- If a stack has room for adding a line, it also has room for printing its contractions. -/
def RoomToTrace (s : Session) (fuel : Nat) (source : String) (stack : Stack) : Prop :=
  stack.holds (s.addCalls fuel source) = true →
    stack.holds ({ s with trace := true }.addCalls fuel source) = true

section Within

variable {stack : Stack} {number : Int}

/-- Where there is room for printing contractions, a line does the same whether they are printed
or not. -/
theorem add_with_trace_of_room (hs : s.Sound) (hsilent : s.trace = false)
    (hroom : s.RoomToTrace fuel source stack) (number : Int) :
    ({ s with trace := true }.add fuel source number stack).state =
        { (s.add fuel source number stack).state with trace := true } ∧
      ({ s with trace := true }.add fuel source number stack).result =
        (s.add fuel source number stack).result := by
  cases hholds : stack.holds (s.addCalls fuel source) with
  | true =>
      rw [add_of_holds hholds, add_of_holds (hroom hholds), add_with_trace hs true]
      exact ⟨rfl, rfl⟩
  | false =>
      have hfull : stack.holds ({ s with trace := true }.addCalls fuel source) = false := by
        rw [Bool.eq_false_iff]
        intro h
        rw [Stack.holds_of_le (addCalls_le_with_trace hs hsilent fuel source) h] at hholds
        cases hholds
      obtain ⟨j, -, heq⟩ := add_of_overflows hholds number
      obtain ⟨j', -, heq'⟩ := add_of_overflows hfull number
      rw [heq, heq']
      exact ⟨rfl, rfl⟩

/-- Where there is no room for printing contractions, a line that prints them is nested too
deeply. -/
theorem add_with_trace_of_no_room (hroom : ¬s.RoomToTrace fuel source stack) (number : Int) :
    ({ s with trace := true }.add fuel source number stack).result = .error (.error .tooDeep) ∧
      ({ s with trace := true }.add fuel source number stack).state.environment =
        s.environment ∧
      ({ s with trace := true }.add fuel source number stack).state.results = s.results := by
  have hfull : stack.holds ({ s with trace := true }.addCalls fuel source) = false := by
    rw [Bool.eq_false_iff]
    exact fun h => hroom fun _ => h
  obtain ⟨j, -, heq⟩ := add_of_overflows hfull number
  rw [heq]
  exact ⟨rfl, rfl, rfl⟩

/-- A session that prints contractions prints a line for each of those that it gets to. -/
theorem exists_traces_add (hs : s.Sound) (fuel : Nat) (source : String) (number : Int)
    (stack : Stack) :
    ∃ j ≤ fuel, Traces s.reporter (s.contractions j source)
        ({ s with trace := true }.add fuel source number stack).printed ∧
      (stack.holds ({ s with trace := true }.addCalls fuel source) = true → j = fuel) := by
  have htraces : ∀ j, Traces s.reporter (s.contractions j source)
      ({ s with trace := true }.add j source number).printed := by
    intro j
    rw [add_with_trace hs true]
    exact traces_progress (s := { s with trace := true }) rfl
      fun c hc => sound_of_mem_contractions hs hc
  cases hholds : stack.holds ({ s with trace := true }.addCalls fuel source) with
  | true =>
      rw [add_of_holds hholds]
      exact ⟨fuel, Nat.le_refl fuel, htraces fuel, fun _ => rfl⟩
  | false =>
      obtain ⟨j, hj, heq⟩ := add_of_overflows hholds number
      rw [heq]
      exact ⟨j, hj, htraces j, nofun⟩

/-- A session that prints no contractions prints nothing. -/
theorem printed_add_of_silent (hs : s.Sound) (hsilent : s.trace = false) (fuel : Nat)
    (source : String) (number : Int) (stack : Stack) :
    (s.add fuel source number stack).printed = "" := by
  have hnone : ∀ j, (s.add j source number).printed = "" := by
    intro j
    rw [printed_add hs]
    exact printed_progress_of_silent hsilent _
  cases hholds : stack.holds (s.addCalls fuel source) with
  | true =>
      rw [add_of_holds hholds]
      exact hnone fuel
  | false =>
      obtain ⟨j, -, heq⟩ := add_of_overflows hholds number
      rw [heq]
      exact hnone j

end Within

/-! ## Several lines -/

/-- The session after lines have been added within a stack, whether they fail or not. -/
def afterLines (s : Session) (fuel : Nat) (stack : Stack) (lines : List (String × Int)) :
    Session :=
  (s.inTurn (fun s l => s.add fuel l.1 l.2 stack) lines).1

@[simp] theorem afterLines_nil (s : Session) (fuel : Nat) (stack : Stack) :
    s.afterLines fuel stack [] = s := rfl

@[simp] theorem afterLines_cons (s : Session) (fuel : Nat) (stack : Stack) (l : String × Int)
    (lines : List (String × Int)) :
    s.afterLines fuel stack (l :: lines) =
      (s.add fuel l.1 l.2 stack).state.afterLines fuel stack lines := rfl

theorem Reachable.afterLines {s₀ : Session} (h : Reachable s₀ s) (fuel : Nat) (stack : Stack)
    (lines : List (String × Int)) : Reachable s₀ (s.afterLines fuel stack lines) := by
  induction lines generalizing s with
  | nil => exact h
  | cons l lines ih => exact ih (h.add fuel l.1 l.2 stack)

/-- Lines lead to the same state whether contractions are printed or not, if there is room for
printing them. -/
theorem afterLines_with_trace (hs : s.Sound) (hsilent : s.trace = false) {fuel : Nat}
    {stack : Stack} {lines : List (String × Int)}
    (hroom : ∀ earlier l later, lines = earlier ++ l :: later →
      (s.afterLines fuel stack earlier).RoomToTrace fuel l.1 stack) :
    { s with trace := true }.afterLines fuel stack lines =
      { s.afterLines fuel stack lines with trace := true } := by
  induction lines generalizing s with
  | nil => rfl
  | cons l lines ih =>
      obtain ⟨env, results, known, hstate⟩ := s.exists_add_state_eq fuel l.1 l.2 stack
      have hnext := (add_with_trace_of_room hs hsilent (hroom [] l lines rfl) l.2).1
      rw [afterLines_cons, hnext]
      refine ih (hs.add fuel l.1 l.2 stack) ?_ ?_
      · rw [hstate]
        exact hsilent
      · intro earlier l' later heq
        exact hroom (l :: earlier) l' later (congrArg (l :: ·) heq)

/-- A line is dealt with if there is a bound on its contractions, or if the reduction of its term
has an end. -/
theorem settles_of_bounded_or_finite (hs : s.Sound)
    (h : s.maxSteps ≠ .none ∨ ∀ line t, s.environment.task s.strict source = .reduce line t →
      t.nameless.leftmostLength ≠ ⊤) (number : Int) :
    ∃ bound a, Action.Settles (fun fuel => s.add fuel source number) bound a := by
  cases hmax : s.maxSteps with
  | none => exact settles_of_finite hs (by simp [hmax]) (h.resolve_left (by simp [hmax])) number
  | number n => exact ⟨_, settles_of_number hs hmax source number⟩
  | blank => exact ⟨_, settles_of_blank hs hmax source number⟩

end Session

end UntypedLambda
