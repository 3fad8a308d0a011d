import UntypedLambda.Proofs.Session.Adding

/-!
# The bound on contractions

A session gives a line up at the first contraction past its bound.  So every line is dealt with
at some time; it succeeds exactly if the reduction of its term is not longer than the bound, and
then the bound makes no difference.  All of this is so as long as there is room on the stack; a
line that overflows it fails for that reason.

* `Action.Settles` — an action that is the same whenever enough contractions are allowed.
* `Session.settles_of_number`, `Session.settles_of_blank`, `Session.settles_of_finite`,
  `Session.settles_within` — lines that are dealt with.
* `Session.lineRun_within_limit` — how a run ends under a bound.
* `Session.add_of_passes` — a larger bound makes no difference to a line that succeeds.
* `Session.addCalls_within_limit` — the calls that a line needs room for under a bound.
* `Session.add_within_limit` — all of this for a line.
-/

namespace UntypedLambda

/-- If at least `bound` contractions are allowed, the action is `a`, and it is not cut short. -/
structure Action.Settles {σ α : Type} (act : Nat → Action σ α) (bound : Nat) (a : Action σ α) :
    Prop where
  /-- The action is not cut short. -/
  done : a.result ≠ .error .unfinished
  /-- Allowing more contractions makes no difference. -/
  eq : ∀ fuel ≥ bound, act fuel = a

namespace Session

variable {s : Session} {fuel : Nat} {source : String} {number : Int}

/-! ## Lines that are dealt with -/

/-- A line is cut short only if its reduction is longer than that, and the bound has not been
passed. -/
theorem length_of_unfinished (hs : s.Sound) (hb : s.maxSteps ≠ .blank)
    (h : (s.add fuel source number).result = .error .unfinished) :
    ∃ line t, s.environment.task s.strict source = .reduce line t ∧
      (fuel : ℕ∞) < t.nameless.leftmostLength ∧
      ∀ n, s.maxSteps = .number n → 0 < fuel → fuel ≤ n := by
  have hadds := adds_add hs hb fuel source number
  generalize s.add fuel source number = a at hadds h
  cases hadds with
  | refused htask => cases h
  | skipped htask ho => cases h
  | evaluated htask hend ho => cases h
  | exceeded htask hend => cases h
  | @unfinished line t u htask hend =>
      have ht := hs.environment.hygienic_of_task htask
      obtain ⟨hsteps, hlt⟩ := (s.measures_lineRun fuel ht).unfinished u hend
      refine ⟨line, t, htask, hlt, fun n hn hpos => ?_⟩
      have hle := (s.counts_lineRun fuel ht).le_of_not_stopped (by rw [hend]; rfl) hn
      rw [hsteps] at hle
      exact hle hpos

theorem settles_of_done {stack : Stack}
    (h : (s.add fuel source number stack).result ≠ .error .unfinished) :
    Action.Settles (fun fuel => s.add fuel source number stack) fuel
      (s.add fuel source number stack) :=
  ⟨h, fun _ hle => add_mono hle h⟩

/-- A line that is dealt with without a limit is also dealt with within a stack. -/
theorem settles_within {bound : Nat} {a : Action Session Outcome}
    (h : Action.Settles (fun fuel => s.add fuel source number) bound a) (stack : Stack) :
    ∃ a', Action.Settles (fun fuel => s.add fuel source number stack) bound a' := by
  refine ⟨s.add bound source number stack, settles_of_done ?_⟩
  cases hholds : stack.holds (s.addCalls bound source) with
  | true =>
      rw [add_of_holds hholds, h.eq bound (Nat.le_refl bound)]
      exact h.done
  | false =>
      obtain ⟨j, -, heq⟩ := add_of_overflows hholds number
      simp [heq]

/-- Under a bound, every line is dealt with. -/
theorem settles_of_number (hs : s.Sound) {n : Int} (hn : s.maxSteps = .number n)
    (source : String) (number : Int) :
    ∃ a, Action.Settles (fun fuel => s.add fuel source number) (n.toNat + 1) a := by
  refine ⟨_, settles_of_done ?_⟩
  intro hcut
  obtain ⟨line, t, -, -, hle⟩ := length_of_unfinished hs (by simp [hn]) hcut
  have := hle n hn (Nat.succ_pos _)
  omega

/-- If the bound has no number, every line is dealt with by the first contraction. -/
theorem settles_of_blank (hs : s.Sound) (hb : s.maxSteps = .blank) (source : String)
    (number : Int) : ∃ a, Action.Settles (fun fuel => s.add fuel source number) 1 a := by
  refine ⟨_, settles_of_done ?_⟩
  intro hcut
  cases htask : s.environment.task s.strict source with
  | refuse e =>
      rw [add_of_refuse htask] at hcut
      cases hcut
  | skip =>
      rw [add_of_skip htask] at hcut
      cases hcut
  | reduce line t =>
      have ht := hs.environment.hygienic_of_task htask
      have hstop := (s.counts_lineRun 1 ht).stop
      simp only [overLimit, hb] at hstop
      cases hend : (s.lineRun 1 t).ending with
      | normal v =>
          rw [add_of_normal htask hend] at hcut
          cases hcut
      | stopped i =>
          obtain rfl : i = .fault .blankSteps := by
            simp only [hend, Ending.stop?] at hstop
            split at hstop
            · cases hstop
            · exact Option.some.inj hstop
          unfold lineRun at hend
          simp only [add, evaluateWithin_unlimited, evaluate_eq_task, htask, hend] at hcut
          cases hcut
      | unfinished u =>
          obtain ⟨hsteps, -⟩ := (s.measures_lineRun 1 ht).unfinished u hend
          simp [hend, hsteps, Ending.stop?] at hstop

/-- Without a bound, a line is dealt with if the reduction of its term has an end. -/
theorem settles_of_finite (hs : s.Sound) (hb : s.maxSteps ≠ .blank)
    (hfinite : ∀ line t, s.environment.task s.strict source = .reduce line t →
      t.nameless.leftmostLength ≠ ⊤) (number : Int) :
    ∃ bound a, Action.Settles (fun fuel => s.add fuel source number) bound a := by
  obtain ⟨k, hk⟩ : ∃ k : ℕ, ∀ line t, s.environment.task s.strict source = .reduce line t →
      t.nameless.leftmostLength ≤ k := by
    cases htask : s.environment.task s.strict source with
    | refuse e => exact ⟨0, nofun⟩
    | skip => exact ⟨0, nofun⟩
    | reduce line t =>
        obtain ⟨k, hk⟩ := ENat.ne_top_iff_exists.1 (hfinite line t htask)
        refine ⟨k, ?_⟩
        rintro line' t' ⟨⟩
        exact hk.ge
  refine ⟨k, _, settles_of_done ?_⟩
  intro hcut
  obtain ⟨line, t, htask, hlt, -⟩ := length_of_unfinished hs hb hcut
  exact absurd (hk line t htask) (not_le_of_gt hlt)

/-! ## Lines under a bound -/

/-- Under a bound, a run ends with a normal form if the reduction is not longer than the bound,
and otherwise right after the bound has been passed. -/
theorem lineRun_within_limit {n : Nat} (hn : s.maxSteps = .number n) {t : Term} (ht : t.Hygienic)
    (hfuel : n + 1 ≤ fuel) :
    (∃ v, (s.lineRun fuel t).ending = .normal v ∧ t.nameless.leftmostLength ≤ n) ∨
      (s.lineRun fuel t).ending = .stopped (.error (.stepLimit n)) ∧
        (s.lineRun fuel t).reducer.steps = n + 1 ∧ ¬t.nameless.leftmostLength ≤ n := by
  have hcounts := s.counts_lineRun fuel ht
  have hmeasures := s.measures_lineRun fuel ht
  have hpass : (s.lineRun fuel t).ending.stop? = none → (s.lineRun fuel t).reducer.steps ≤ n := by
    intro hstop
    rcases Nat.eq_zero_or_pos (s.lineRun fuel t).reducer.steps with hzero | hpos
    · omega
    · exact_mod_cast hcounts.le_of_not_stopped hstop hn hpos
  cases hend : (s.lineRun fuel t).ending with
  | normal v =>
      refine .inl ⟨v, rfl, ?_⟩
      rw [hmeasures.normal v hend]
      exact Nat.cast_le.2 (hpass (by rw [hend]; rfl))
  | stopped i =>
      obtain ⟨m, hm, rfl, hlt, hfirst⟩ := hcounts.stopped (by simp [hn]) hend
      rw [hn] at hm
      cases hm
      have heq : (s.lineRun fuel t).reducer.steps = n + 1 := by
        have := hfirst (n + 1) (Nat.succ_pos n)
        omega
      refine .inr ⟨rfl, heq, ?_⟩
      intro hle
      have hle := Nat.cast_le.1 (hmeasures.le.trans hle)
      omega
  | unfinished u =>
      have hle := hpass (by rw [hend]; rfl)
      obtain ⟨hsteps, -⟩ := hmeasures.unfinished u hend
      omega

/-- A session whose bound is not passed earlier lets the same contractions pass. -/
theorem watch_of_passes {b : Bound}
    (hb : ∀ k, s.overLimit k = none → { s with maxSteps := b }.overLimit k = none)
    (p : Progress) (c : Contraction) (p' : Progress) (h : s.watch p c = (p', none)) :
    { s with maxSteps := b }.watch p c = (p', none) := by
  have htext : { s with maxSteps := b }.traceText c = s.traceText c := rfl
  unfold watch at h ⊢
  rw [htext]
  cases hc : s.traceText c with
  | error m => simp [hc] at h
  | ok text =>
      simp only [hc] at h ⊢
      obtain ⟨rfl, hpass⟩ := Prod.mk.inj h
      rw [hb _ hpass]

/-- A line that succeeds does the same under every bound that is not passed earlier. -/
theorem add_of_passes {b : Bound}
    (hb : ∀ k, s.overLimit k = none → { s with maxSteps := b }.overLimit k = none)
    {o : Outcome} (h : (s.add fuel source number).result = .ok o) :
    { s with maxSteps := b }.add fuel source number =
      (s.add fuel source number).mapState fun s' => { s' with maxSteps := b } := by
  have heval : ∃ value, (evaluate s.watch fuel s.environment s.strict ⟨0, ""⟩ source).2 = .ok o ∧
      o.result = .ok value := by
    unfold add at h
    simp only [evaluateWithin_unlimited] at h
    split at h
    · cases h
    · next o' ho' =>
        split at h
        · cases h
        · next value hvalue =>
            cases h
            exact ⟨value, ho', hvalue⟩
  obtain ⟨value, heval, hvalue⟩ := heval
  have hsame := evaluate_of_passes (watch_of_passes hb) heval hvalue
  unfold add
  simp only [evaluateWithin_unlimited, hsame, heval, hvalue]
  rfl

/-- A line whose reduction has an end needs room for the same calls under every bound that is not
passed earlier. -/
theorem addCalls_of_passes {b : Bound}
    (hb : ∀ k, s.overLimit k = none → { s with maxSteps := b }.overLimit k = none)
    {line : Line Expr} {t v : Term} (htask : s.environment.task s.strict source = .reduce line t)
    (hend : (s.lineRun fuel t).ending = .normal v) :
    { s with maxSteps := b }.addCalls fuel source = s.addCalls fuel source := by
  have hrun := Reducer.run_of_passes (watch_of_passes hb) hend
  simp only [addCalls, evaluateCalls, htask, hrun]
  rfl

/-- Adding lines does not change the settings. -/
theorem Reachable.settings {s₀ : Session} (h : Reachable s₀ s) :
    s.maxSteps = s₀.maxSteps ∧ s.trace = s₀.trace := by
  induction h with
  | refl => exact ⟨rfl, rfl⟩
  | @add s fuel source number _ stack ih =>
      obtain ⟨env, results, lines, hstate⟩ := s.exists_add_state_eq fuel source number stack
      rw [hstate]
      exact ih
  | pop _ hpop ih =>
      obtain ⟨o', -, heq⟩ := Option.map_eq_some_iff.1 hpop
      cases heq
      exact ih

theorem Reachable.maxSteps {s₀ : Session} (h : Reachable s₀ s) : s.maxSteps = s₀.maxSteps :=
  h.settings.1

/-! ## Lines under a bound within a stack -/

/-- The calls that a line needs room for under a bound: those of finding out what there is to do,
and those of as many turns as it takes to pass the bound. -/
theorem addCalls_within_limit (hs : s.Sound) {n : Nat} (hn : s.maxSteps = .number n)
    {line : Line Expr} {t : Term} (htask : s.environment.task s.strict source = .reduce line t)
    (hfuel : n + 1 ≤ fuel) :
    s.addCalls fuel source =
      max (s.environment.taskCalls s.strict source)
        (t.reduceCalls s.shownCalls (n + 1) (Supply.empty.reserve t.ids)) := by
  have ht := hs.environment.hygienic_of_task htask
  have hcalls : s.addCalls fuel source =
      max (s.environment.taskCalls s.strict source)
        (t.reduceCalls s.shownCalls (s.lineRun fuel t).turns (Supply.empty.reserve t.ids)) := by
    rw [addCalls, evaluateCalls, htask]
    rfl
  rw [hcalls]
  congr 1
  rcases lineRun_within_limit hn ht hfuel with ⟨v, hend, hle⟩ | ⟨hend, hsteps, -⟩
  · have hturns : (s.lineRun fuel t).turns ≤ n + 1 := by
      rw [(s.measures_lineRun fuel ht).normal v hend] at hle
      simp only [Run.turns, hend]
      exact Nat.succ_le_succ (Nat.cast_le.1 hle)
    have hrun : s.lineRun fuel t = _ := Reducer.fresh_run_eq s.watch fuel ⟨0, ""⟩ t
    rw [hrun] at hend hturns ⊢
    exact (Reducer.reduceCalls_of_normal hend (Nat.zero_add _).symm hturns).symm
  · simp only [Run.turns, hend, hsteps]

/-- **A line under a bound.**  Let a session be given whose bound is `n`, in any state that lines
have led to, and a stack.  Every line is dealt with once `n + 1` contractions are allowed.  Let the
line have a term to be reduced, and let there be room for the calls of reading the line, of
resolving its names and of the first `n + 1` turns of the reduction.  Then it succeeds exactly if
the reduction of the term from left to right takes at most `n` contractions.  What it does is then
the same without a bound, and under any larger one.  Otherwise the line fails after `n + 1`
contractions because the bound is passed, and leaves the definitions and the results as they were.
If there is no room for the calls, the line fails because it is nested too deeply, and leaves the
definitions and the results as they were. -/
theorem add_within_limit (reporter : Reporter) (strict : Bool) (n : Nat) (trace : Bool)
    (path : String) (s : Session) (h : Reachable (new reporter strict (.number n) trace path) s)
    (source : String) (number : Int) (stack : Stack) :
    (∃ a, Action.Settles (fun fuel => s.add fuel source number stack) (n + 1) a) ∧
    ∀ line e t, Line.parse source = .ok line → line.term? = some e →
      s.environment.resolve s.strict e = .ok t → ∀ fuel ≥ n + 1,
      let calls := max (s.environment.taskCalls s.strict source)
        (t.reduceCalls s.shownCalls (n + 1) (Supply.empty.reserve t.ids))
      (stack.holds calls = true →
        ((∃ o, (s.add fuel source number stack).result = .ok o) ↔
          t.nameless.leftmostLength ≤ n) ∧
        (t.nameless.leftmostLength ≤ n →
          ∀ b, b = .none ∨ (∃ m : Int, n ≤ m ∧ b = .number m) →
            { s with maxSteps := b }.add fuel source number stack =
              (s.add fuel source number stack).mapState fun s' => { s' with maxSteps := b }) ∧
        (¬t.nameless.leftmostLength ≤ n →
          (s.add fuel source number stack).result = .error (.error (.stepLimit n)) ∧
          (s.lineRun fuel t).reducer.steps = n + 1 ∧
          (s.add fuel source number stack).state.environment = s.environment ∧
          (s.add fuel source number stack).state.results = s.results)) ∧
      (stack.holds calls = false →
        (s.add fuel source number stack).result = .error (.error .tooDeep) ∧
        (s.add fuel source number stack).state.environment = s.environment ∧
        (s.add fuel source number stack).state.results = s.results) := by
  have hs := h.sound (sound_new reporter strict (.number n) trace path)
  have hn : s.maxSteps = .number n := h.maxSteps
  obtain ⟨a, hsettles⟩ := settles_of_number hs hn source number
  refine ⟨settles_within hsettles stack, ?_⟩
  intro line e t hparse hterm hresolve fuel hfuel calls
  have htask := Environment.task_eq_reduce hparse hterm hresolve
  have ht := hs.environment.hygienic_of_task htask
  have hcalls : calls = s.addCalls fuel source := (addCalls_within_limit hs hn htask hfuel).symm
  rw [hcalls]
  refine ⟨fun hholds => ?_, fun hfull => ?_⟩
  · rw [add_of_holds hholds]
    rcases lineRun_within_limit hn ht hfuel with ⟨v, hend, hle⟩ | ⟨hend, hsteps, hnot⟩
    · have hok := congrArg Action.result (add_of_normal htask hend number)
      refine ⟨⟨fun _ => hle, fun _ => ⟨_, hok⟩⟩, fun _ b hb => ?_, fun hnot => absurd hle hnot⟩
      have hpass : ∀ k, s.overLimit k = none → { s with maxSteps := b }.overLimit k = none := by
        intro k hk
        rcases hb with rfl | ⟨m, hm, rfl⟩
        · rfl
        · simp only [overLimit, hn] at hk ⊢
          split at hk
          · cases hk
          · rw [if_neg (by omega)]
      rw [← addCalls_of_passes hpass htask hend] at hholds
      rw [add_of_holds hholds]
      exact add_of_passes hpass hok
    · rw [add_of_stopped htask hend]
      refine ⟨⟨?_, fun hle => absurd hle hnot⟩, fun hle => absurd hle hnot,
        fun _ => ⟨rfl, hsteps, rfl, rfl⟩⟩
      rintro ⟨o, ho⟩
      cases ho
  · obtain ⟨j, -, heq⟩ := add_of_overflows hfull number
    rw [heq]
    exact ⟨rfl, rfl, rfl⟩

/-- The theorem at a session that allows one contraction, within a stack of ten calls.  A line
without a normal form is given up after two contractions, and the next line may again take one.  A
line that is nested too deeply fails, although it needs no more than one either. -/
theorem add_within_limit_after_failure :
    let s₀ := new default false (.number 1) false inputPath
    let stack : Stack := ⟨some 10, 0⟩
    let s₁ := (s₀.add 2 "(λx.xx)(λx.xx)" 1 stack).state
    (s₀.add 2 "(λx.xx)(λx.xx)" 1 stack).result = .error (.error (.stepLimit 1)) ∧
      Reachable s₀ s₁ ∧ (∃ o, (s₁.add 2 "(λx.x)y" 2 stack).result = .ok o) ∧
      (s₁.add 2 "(λx.x)(yyyyyyyyy)" 2 stack).result = .error (.error .tooDeep) := by
  intro s₀ stack s₁
  let loop : Term :=
    .app (.lam (.bound 1 "x") (.app (.var (.bound 1 "x")) (.var (.bound 1 "x"))))
      (.lam (.bound 2 "x") (.app (.var (.bound 2 "x")) (.var (.bound 2 "x"))))
  let short : Term := .app (.lam (.bound 1 "x") (.var (.bound 1 "x"))) (.var (.free "y"))
  have hlong : ¬loop.nameless.leftmostLength ≤ (1 : ℕ) := by
    have hle : ((2 : ℕ) : ℕ∞) ≤ loop.nameless.leftmostLength := Nameless.le_leftmostLength rfl
    intro h
    exact absurd (Nat.cast_le.1 (hle.trans h)) (by decide)
  have hshort : short.nameless.leftmostLength ≤ (1 : ℕ) := by
    rw [Nameless.leftmostLength_eq (t := short.nameless) (n := .free "y") (k := 1) rfl trivial]
  obtain ⟨-, h₀⟩ :=
    add_within_limit default false 1 false inputPath s₀ .refl "(λx.xx)(λx.xx)" 1 stack
  obtain ⟨hfits, -⟩ := h₀ _ _ loop rfl rfl rfl 2 (Nat.le_refl 2)
  obtain ⟨-, -, hfail⟩ := hfits (by decide +kernel)
  obtain ⟨hresult, -, henv, -⟩ := hfail hlong
  have hreach : Reachable s₀ s₁ := .add 2 _ 1 .refl stack
  obtain ⟨env, results, lines, hstate⟩ := s₀.exists_add_state_eq 2 "(λx.xx)(λx.xx)" 1 stack
  have hstrict : s₁.strict = false := congrArg Session.strict hstate
  have hshown : s₁.shownCalls = s₀.shownCalls := (congrArg shownCalls hstate).trans rfl
  obtain ⟨-, h₁⟩ := add_within_limit default false 1 false inputPath s₁ hreach "(λx.x)y" 2 stack
  obtain ⟨-, h₂⟩ :=
    add_within_limit default false 1 false inputPath s₁ hreach "(λx.x)(yyyyyyyyy)" 2 stack
  rw [henv, hstrict, hshown] at h₁ h₂
  obtain ⟨hfits, -⟩ := h₁ _ _ short rfl rfl rfl 2 (Nat.le_refl 2)
  obtain ⟨hok, -⟩ := hfits (by decide +kernel)
  obtain ⟨-, hfull⟩ := h₂ _ _ _ rfl rfl rfl 2 (Nat.le_refl 2)
  obtain ⟨hdeep, -⟩ := hfull (by decide +kernel)
  exact ⟨hresult, hreach, hok.2 hshort, hdeep⟩

/-- A line may fail although its reduction is not longer than the bound: with room for five calls,
the line `(λx.xy)(yyy)` can be read and its names can be resolved, but it is nested too deeply to
be contracted. -/
theorem add_too_deep_within_bound :
    let s := new default false (.number 10) false inputPath
    let stack : Stack := ⟨some 5, 0⟩
    ∃ line e t, Line.parse "(λx.xy)(yyy)" = .ok line ∧ line.term? = some e ∧
      s.environment.resolve s.strict e = .ok t ∧
      stack.holds (s.environment.taskCalls s.strict "(λx.xy)(yyy)") = true ∧
      t.nameless.leftmostLength ≤ (10 : ℕ) ∧
      (s.add 11 "(λx.xy)(yyy)" 1 stack).result = .error (.error .tooDeep) := by
  intro s stack
  let e : Expr := .app (.lam "x" (.app (.var "x") (.var "y")))
    (.app (.app (.var "y") (.var "y")) (.var "y"))
  let t : Term := .app (.lam (.bound 1 "x") (.app (.var (.bound 1 "x")) (.var (.free "y"))))
    (.app (.app (.var (.free "y")) (.var (.free "y"))) (.var (.free "y")))
  have hparse : Line.parse "(λx.xy)(yyy)" = .ok (.expression e) := by rfl
  have hresolve : s.environment.resolve s.strict e = .ok t := by rfl
  have hlength : t.nameless.leftmostLength ≤ (10 : ℕ) := by
    let n : Nameless := .app (.app (.app (.free "y") (.free "y")) (.free "y")) (.free "y")
    have hn : n.IsNormal := ⟨rfl, ⟨rfl, ⟨rfl, trivial, trivial⟩, trivial⟩, trivial⟩
    rw [Nameless.leftmostLength_eq (t := t.nameless) (k := 1) rfl hn]
    exact Nat.cast_le.2 (by decide)
  have htask := Environment.task_eq_reduce hparse rfl hresolve
  have hfull : stack.holds (s.addCalls 11 "(λx.xy)(yyy)") = false := by
    rw [addCalls_within_limit (s := s) (sound_new ..) rfl htask (Nat.le_refl 11)]
    decide +kernel
  obtain ⟨j, -, heq⟩ := add_of_overflows hfull 1
  exact ⟨_, e, t, hparse, rfl, hresolve, by decide +kernel, hlength, by rw [heq]⟩

end Session

end UntypedLambda
