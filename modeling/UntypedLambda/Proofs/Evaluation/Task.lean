import UntypedLambda.Proofs.Evaluation
import UntypedLambda.Proofs.Reduction.Length

/-!
# What there is to do for a line

Before anything is reduced, it is settled what a line asks for: it is refused, there is nothing
to do, or a term has to be reduced.  This depends on the environment only, and neither on the
watcher nor on the number of contractions allowed, which then have a say in the reduction alone.

* `evaluate_eq_task` — evaluating a line does just that.
* `evaluate_mono`, `evaluate_of_passes`, `evaluate_map`, `evaluate_map_of_sound` — what holds of
  runs holds of lines.
* `evaluate_strip` — the blanks around a line do not matter.
-/

namespace UntypedLambda

section Task

variable {env : Environment} {strict : Bool} {source : String} {line : Line Expr} {t : Term}

theorem Environment.task_eq_refuse {e : Error} (h : Line.parse source = .error e) :
    env.task strict source = .refuse e := by
  rw [task, h]

theorem Environment.task_eq_reduce {e : Expr} (hparse : Line.parse source = .ok line)
    (hterm : line.term? = some e) (hresolve : env.resolve strict e = .ok t) :
    env.task strict source = .reduce line t := by
  simp only [task, hparse, hterm, hresolve]

/-- A term that has to be reduced is the one of the expression on the line. -/
theorem Environment.of_task_eq_reduce (h : env.task strict source = .reduce line t) :
    ∃ e, Line.parse source = .ok line ∧ line.term? = some e ∧ env.resolve strict e = .ok t := by
  unfold task at h
  split at h
  · cases h
  · next hparse =>
      split at h
      · cases h
      · next e hterm =>
          split at h
          · cases h
          · next hresolve =>
              cases h
              exact ⟨e, hparse, hterm, hresolve⟩

/-- In an environment whose names stand for values, the term of a line is hygienic. -/
theorem Environment.Sound.hygienic_of_task (henv : env.Sound)
    (h : env.task strict source = .reduce line t) : t.Hygienic := by
  obtain ⟨e, -, -, hresolve⟩ := of_task_eq_reduce h
  exact (resolves_of_resolve henv hresolve).hygienic

/-- A line is refused because it cannot be read, or because a name is not defined. -/
theorem Environment.of_task_eq_refuse {e : Error} (h : env.task strict source = .refuse e) :
    Line.parse source = .error e ∨ ∃ x, e = .undefined x := by
  unfold task at h
  split at h
  · next hparse =>
      cases h
      exact .inl hparse
  · split at h
    · cases h
    · next expr hterm =>
        rw [resolve_eq] at h
        split at h
        · next err herr =>
            cases h
            split at herr
            · next x hx =>
                cases herr
                exact .inr ⟨x, rfl⟩
            · cases herr
        · cases h

/-- What is wrong with a line that ends too early is that it ends too early. -/
theorem Environment.parse_of_task_eq_refuse {e : Error} (h : env.task strict source = .refuse e)
    (hend : e.atEndOfInput = true) : Line.parse source = .error e := by
  rcases of_task_eq_refuse h with hparse | ⟨x, rfl⟩
  · exact hparse
  · cases hend

/-- A line is refused for a fault of its own. -/
theorem Environment.internal_of_task_eq_refuse {e : Error}
    (h : env.task strict source = .refuse e) : e.internal = false := by
  rcases of_task_eq_refuse h with hparse | ⟨x, rfl⟩
  · have hearliest := Line.earliest_parse source
    rw [hparse] at hearliest
    cases hearliest <;> rfl
  · rfl

variable {σ τ : Type}

/-- Evaluating a line is doing what there is to do for it. -/
theorem evaluate_eq_task (watch : Watcher σ Interruption) (fuel : Nat) (env : Environment)
    (strict : Bool) (seen : σ) (source : String) :
    evaluate watch fuel env strict seen source =
      match env.task strict source with
      | .refuse e => (seen, .ok ⟨source, env, .error e⟩)
      | .skip => (seen, .ok ⟨source, env, .ok .empty⟩)
      | .reduce line t =>
          ((Reducer.fresh.run watch fuel seen t).seen,
            match (Reducer.fresh.run watch fuel seen t).ending with
            | .normal v => .ok (Outcome.ofValue source env line v)
            | .stopped i => Outcome.ofResult source env (.error i)
            | .unfinished _ => .error .unfinished) := by
  cases hparse : Line.parse source with
  | error e => simp [evaluate, Environment.task, hparse]
  | ok line =>
      cases hterm : line.term? with
      | none =>
          cases line with
          | empty =>
              simp [evaluate, Environment.task, hparse, hterm, evaluateLine, Outcome.ofResult,
                Environment.extend]
          | expression e => cases hterm
          | definition name e => cases hterm
      | some e =>
          cases hresolve : env.resolve strict e with
          | error err =>
              obtain ⟨x, rfl⟩ : ∃ x, err = .undefined x := by
                have hrefuse : env.task strict source = .refuse err := by
                  simp [Environment.task, hparse, hterm, hresolve]
                refine (Environment.of_task_eq_refuse hrefuse).resolve_left ?_
                simp [hparse]
              simp [evaluate, Environment.task, hparse, hterm, hresolve,
                evaluateLine_eq watch fuel seen hterm, normalize, Except.map, Outcome.ofResult]
          | ok t =>
              rw [evaluate_eq_run watch fuel seen hparse hterm hresolve]
              cases hend : (Reducer.fresh.run watch fuel seen t).ending <;>
                simp only [Environment.task_eq_reduce hparse hterm hresolve, hend]

/-! ## Evaluations that agree -/

/-- A line that is dealt with, or refused, stays so if more contractions are allowed. -/
theorem evaluate_mono {watch : Watcher σ Interruption} {fuel fuel' : Nat} {seen : σ}
    (hle : fuel ≤ fuel')
    (h : (evaluate watch fuel env strict seen source).2 ≠ .error .unfinished) :
    evaluate watch fuel' env strict seen source = evaluate watch fuel env strict seen source := by
  rw [evaluate_eq_task] at h ⊢
  rw [evaluate_eq_task]
  cases htask : env.task strict source with
  | refuse e => rfl
  | skip => rfl
  | reduce line t =>
      rw [htask] at h
      have hend : ∀ u, (Reducer.fresh.run watch fuel seen t).ending ≠ .unfinished u := by
        intro u hu
        simp [hu] at h
      simp only [Reducer.run_mono hle hend]

/-- A line that has been evaluated has the same outcome under every watcher that lets the same
contractions pass. -/
theorem evaluate_of_passes {watch watch' : Watcher σ Interruption} {fuel : Nat} {seen : σ}
    {o : Outcome} {value : Line Term}
    (hpass : ∀ seen c seen', watch seen c = (seen', none) → watch' seen c = (seen', none))
    (h : (evaluate watch fuel env strict seen source).2 = .ok o) (ho : o.result = .ok value) :
    evaluate watch' fuel env strict seen source = evaluate watch fuel env strict seen source := by
  rw [evaluate_eq_task] at h ⊢
  rw [evaluate_eq_task]
  cases htask : env.task strict source with
  | refuse e => rfl
  | skip => rfl
  | reduce line t =>
      rw [htask] at h
      have hend : ∃ v, (Reducer.fresh.run watch fuel seen t).ending = .normal v := by
        cases hend : (Reducer.fresh.run watch fuel seen t).ending with
        | normal v => exact ⟨v, rfl⟩
        | stopped i =>
            simp only [hend] at h
            obtain ⟨err, rfl⟩ := Outcome.refused_of_ofResult h
            cases ho
        | unfinished u => simp [hend] at h
      obtain ⟨v, hend⟩ := hend
      simp only [Reducer.run_of_passes hpass hend]

/-- What becomes of a line does not depend on what else the watcher remembers. -/
theorem evaluate_map {watch : Watcher σ Interruption} {watch' : Watcher τ Interruption} (f : σ → τ)
    (hmap : ∀ seen c, watch' (f seen) c = (f (watch seen c).1, (watch seen c).2))
    (fuel : Nat) (env : Environment) (strict : Bool) (seen : σ) (source : String) :
    evaluate watch' fuel env strict (f seen) source =
      (f (evaluate watch fuel env strict seen source).1,
        (evaluate watch fuel env strict seen source).2) := by
  rw [evaluate_eq_task, evaluate_eq_task]
  cases env.task strict source with
  | refuse e => rfl
  | skip => rfl
  | reduce line t => simp only [Reducer.run_map f hmap]

/-- In an environment whose names stand for values, the watchers need to agree only on contractions
with hygienic sides. -/
theorem evaluate_map_of_sound {watch : Watcher σ Interruption} {watch' : Watcher τ Interruption}
    (f : σ → τ)
    (hmap : ∀ seen c, c.redex.Hygienic → c.contractum.Hygienic →
      watch' (f seen) c = (f (watch seen c).1, (watch seen c).2))
    (fuel : Nat) {env : Environment} (henv : env.Sound) (strict : Bool) (seen : σ)
    (source : String) :
    evaluate watch' fuel env strict (f seen) source =
      (f (evaluate watch fuel env strict seen source).1,
        (evaluate watch fuel env strict seen source).2) := by
  rw [evaluate_eq_task, evaluate_eq_task]
  cases htask : env.task strict source with
  | refuse e => rfl
  | skip => rfl
  | reduce line t =>
      have ht := henv.hygienic_of_task htask
      simp only [Reducer.run_map_of_hygienic f hmap fuel _ seen ht]

/-- A line that can be read is read in the same way without the blanks around it. -/
theorem Line.parse_strip (hparse : Line.parse source = .ok line) :
    Line.parse (strip source) = .ok line := by
  rw [Line.parse_eq_ok_iff, map_symbol_tokenize_strip]
  exact Line.parse_eq_ok_iff.1 hparse

/-- The blanks around a line that can be read do not matter. -/
theorem evaluate_strip {watch : Watcher σ Interruption} {fuel : Nat} {seen : σ}
    (hparse : Line.parse source = .ok line) :
    evaluate watch fuel env strict seen (strip source) =
      ((evaluate watch fuel env strict seen source).1,
        (evaluate watch fuel env strict seen source).2.map
          fun o => { o with source := strip source }) := by
  have htask : env.task strict (strip source) = env.task strict source := by
    unfold Environment.task
    rw [Line.parse_strip hparse, hparse]
  rw [evaluate_eq_task, evaluate_eq_task, htask]
  cases env.task strict source with
  | refuse e => rfl
  | skip => rfl
  | reduce line' t =>
      cases hend : (Reducer.fresh.run watch fuel seen t).ending with
      | normal v => simp [hend, Except.map, Outcome.ofValue]
      | stopped i => cases i <;> simp [hend, Except.map, Outcome.ofResult]
      | unfinished u => simp [hend, Except.map]

/-- A line that was evaluated could be read. -/
theorem exists_parse_of_evaluate {watch : Watcher σ Interruption} {fuel : Nat} {seen : σ}
    {o : Outcome} {value : Line Term}
    (h : (evaluate watch fuel env strict seen source).2 = .ok o) (ho : o.result = .ok value) :
    ∃ line, Line.parse source = .ok line := by
  cases hparse : Line.parse source with
  | ok line => exact ⟨line, rfl⟩
  | error e =>
      simp only [evaluate, hparse, Except.ok.injEq] at h
      subst h
      cases ho

/-- A line that was evaluated is evaluated in the same way without the blanks around it. -/
theorem evaluate_strip_of_ok {watch : Watcher σ Interruption} {fuel : Nat} {seen : σ}
    {o : Outcome} {value : Line Term}
    (h : (evaluate watch fuel env strict seen source).2 = .ok o) (ho : o.result = .ok value) :
    (evaluate watch fuel env strict seen (strip source)).2 =
      .ok { o with source := strip source } := by
  obtain ⟨line, hparse⟩ := exists_parse_of_evaluate h ho
  rw [evaluate_strip hparse, h]
  rfl

end Task

end UntypedLambda
