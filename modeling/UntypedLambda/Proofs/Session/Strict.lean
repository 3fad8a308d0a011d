import UntypedLambda.Proofs.Evaluation.Task
import UntypedLambda.Proofs.Session.Adding

/-!
# Strict sessions

If names that are not defined are errors, a line is refused because of the first of them, before
anything is reduced.  Only the names on the line are looked at, and not those in the terms they
stand for.  That is enough: what is filled in was evaluated under the same rule, so that nothing
in it is free, and reduction sets no name free either.

* `Environment.FirstMissing` — the first free name of a term that is not defined.
* `Environment.undefined?_eq_some_iff`, `Environment.undefined?_eq_none_iff` — when a strict
  environment reports a name.
* `Environment.Closed` — an environment in which nothing is free.
* `Session.Closed.add` — a line keeps a strict session free of free names.
* `Session.strict_refuses_undefined` — what strict evaluation does, and what strict sessions hold.
-/

namespace UntypedLambda

namespace Environment

variable {env : Environment} {t : Term} {x : String}

/-- The name is the first one from the left that is free in the term and not defined. -/
def FirstMissing (env : Environment) (t : Term) (x : String) : Prop :=
  x ∉ env.keys ∧
    ∃ before after, t.freeNames = before ++ x :: after ∧ ∀ y ∈ before, y ∈ env.keys

theorem contains_iff (env : Environment) (x : String) : env.contains x = true ↔ x ∈ env.keys := by
  rw [Table.mem_keys_iff, Table.contains, Option.isSome_iff_exists]

/-- The name that is reported is the first one that is missing. -/
theorem undefined?_eq_some_iff : env.undefined? true t = some x ↔ env.FirstMissing t x := by
  simp only [undefined?, Bool.true_and, List.find?_eq_some_iff_append, Bool.not_not,
    Bool.not_eq_true', ← Bool.not_eq_true, contains_iff, FirstMissing]

/-- No name is reported exactly if all of them are defined. -/
theorem undefined?_eq_none_iff :
    env.undefined? true t = none ↔ ∀ x ∈ t.freeNames, x ∈ env.keys := by
  simp only [undefined?, Bool.true_and, List.find?_eq_none, Bool.not_eq_true', Bool.not_eq_false,
    contains_iff]

section Task

variable {source : String} {line : Line Expr} {e : Expr}

theorem task_of_missing (hparse : Line.parse source = .ok line) (hterm : line.term? = some e)
    (h : env.FirstMissing (Term.ofExpr e).bind x) :
    env.task true source = .refuse (.undefined x) := by
  simp only [task, hparse, hterm, resolve_eq, undefined?_eq_some_iff.2 h]

theorem exists_task_of_defined (hparse : Line.parse source = .ok line)
    (hterm : line.term? = some e) (h : ∀ x ∈ (Term.ofExpr e).bind.freeNames, x ∈ env.keys) :
    ∃ t, env.task true source = .reduce line t := by
  simp only [task, hparse, hterm, resolve_eq, undefined?_eq_none_iff.2 h]
  exact ⟨_, rfl⟩

end Task

end Environment

/-! ## Who reports an undefined name -/

/-- The reason for which a watcher stops is one that it gives for some contraction. -/
theorem Shown.exists_of_stop {σ ε : Type} {watch : Watcher σ ε} {seen seen' : σ}
    {cs : List Contraction} {i : ε} (h : Shown watch seen cs seen' (some i)) :
    ∃ seen₀ c, (watch seen₀ c).2 = some i := by
  generalize hstop : some i = stop? at h
  induction h with
  | nil seen => cases hstop
  | stop hw =>
      cases hstop
      exact ⟨_, _, congrArg Prod.snd hw⟩
  | cons _ _ ih => exact ih hstop

/-- The watcher never gives an undefined name as its reason to stop. -/
def Watcher.ReportsNoName {σ : Type} (watch : Watcher σ Interruption) : Prop :=
  ∀ seen c x, (watch seen c).2 ≠ some (.error (.undefined x))

/-- A line whose names are all defined is not refused for an undefined name. -/
theorem evaluate_ne_undefined {σ : Type} {watch : Watcher σ Interruption} {fuel : Nat}
    {env : Environment} {seen : σ} {source : String} {line : Line Expr} {t : Term} {o : Outcome}
    (hw : watch.ReportsNoName) (htask : env.task true source = .reduce line t)
    (h : (evaluate watch fuel env true seen source).2 = .ok o) (x : String) :
    o.result ≠ .error (.undefined x) := by
  simp only [evaluate_eq_task, htask] at h
  cases hend : (Reducer.fresh.run watch fuel seen t).ending with
  | normal v =>
      simp only [hend, Except.ok.injEq] at h
      subst h
      exact nofun
  | unfinished u =>
      simp only [hend] at h
      cases h
  | stopped i =>
      simp only [hend] at h
      obtain ⟨sts, u, -, hp⟩ := Reducer.exists_steps watch fuel Reducer.fresh seen t
      have hshown := hp.shown
      rw [hend] at hshown
      obtain ⟨seen₀, c, hstop⟩ := hshown.exists_of_stop
      have hne := hw seen₀ c x
      rw [hstop] at hne
      cases i <;> cases h <;> simp_all

/-! ## Environments in which nothing is free -/

namespace Environment

variable {env : Environment}

/-- Nothing is free in the terms that names stand for. -/
def Closed (env : Environment) : Prop := ∀ x d, env.get? x = some d → d.term.freeNames = []

theorem closed_empty : Closed Table.empty := by
  intro x d h
  cases h

/-- What is free after definitions have been filled in was free before, and is not defined. -/
theorem Closed.mem_freeNames_fillIn (henv : env.Closed) {t : Term} {s : Supply} {x : String}
    (h : x ∈ (env.fillIn t s).1.freeNames) : x ∈ t.freeNames ∧ x ∉ env.keys := by
  fun_induction fillIn env t s with
  | case1 id name s => cases h
  | case2 name s d hd =>
      rw [Term.freeNames_refresh, henv name d hd] at h
      cases h
  | case3 name s hnone =>
      obtain rfl := List.mem_singleton.1 h
      refine ⟨h, ?_⟩
      rw [Table.mem_keys_iff, hnone]
      rintro ⟨d, hd⟩
      cases hd
  | case4 fn arg s fn' arg' ihf iha =>
      rcases List.mem_append.1 h with hf | ha
      · exact (ihf hf).imp_left (List.mem_append_left _)
      · exact (iha ha).imp_left (List.mem_append_right _)
  | case5 param body s body' ih => exact ih h

/-- Nothing is free in what a strict environment makes of an expression. -/
theorem Closed.resolve (henv : env.Closed) {e : Expr} {t : Term}
    (h : env.resolve true e = .ok t) : t.freeNames = [] := by
  rw [resolve_eq] at h
  cases hmissing : env.undefined? true (Term.ofExpr e).bind with
  | some x =>
      rw [hmissing] at h
      cases h
  | none =>
      rw [hmissing] at h
      cases h
      refine List.eq_nil_iff_forall_not_mem.2 fun x hx => ?_
      obtain ⟨hfree, hnot⟩ := henv.mem_freeNames_fillIn hx
      exact hnot (undefined?_eq_none_iff.1 hmissing x hfree)

/-- A line that is evaluated strictly sets no name free. -/
theorem Closed.evaluate {σ : Type} {watch : Watcher σ Interruption} {fuel : Nat} {seen : σ}
    {source : String} {o : Outcome} (henv : env.Closed) (hsound : env.Sound)
    (h : (UntypedLambda.evaluate watch fuel env true seen source).2 = .ok o) :
    o.environment.Closed ∧ ∀ v, o.value? = some v → v.freeNames = [] := by
  rcases evaluate_cases h with ⟨err, rfl⟩ | rfl |
    ⟨line, e, t, v, hparse, hterm, hresolve, hend, rfl⟩
  · exact ⟨henv, nofun⟩
  · exact ⟨henv, nofun⟩
  · have hhygienic := (resolves_of_resolve hsound hresolve).hygienic
    have hfree := (Reducer.yields_of_run hhygienic hend).free
    rw [henv.resolve hresolve, List.subset_nil] at hfree
    constructor
    · intro x d hx
      cases line with
      | empty => cases hterm
      | expression e' => exact henv x d hx
      | definition name e' =>
          simp only [Outcome.ofValue, Line.map, extend, Table.get?_put] at hx
          split at hx
          · cases hx
            exact hfree
          · exact henv x d hx
    · intro w hw
      rw [Outcome.value?_ofValue hterm] at hw
      cases hw
      exact hfree

end Environment

/-! ## Strict sessions -/

namespace Session

variable {s : Session}

/-- The session is strict, and nothing in it is free. -/
structure Closed (s : Session) : Prop where
  /-- Undefined names are errors. -/
  strict : s.strict = true
  /-- Nothing is free in what names stand for. -/
  environment : s.environment.Closed
  /-- Nothing is free in the results. -/
  results : ∀ o ∈ s.results, ∃ v, o.value? = some v ∧ v.freeNames = []

theorem closed_new (reporter : Reporter) (maxSteps : Bound) (trace : Bool) (path : String) :
    (new reporter true maxSteps trace path).Closed where
  strict := rfl
  environment := Environment.closed_empty
  results o ho := by cases ho

/-- A line keeps a strict session free of free names, whether it fails or not. -/
theorem Closed.add (h : s.Closed) (hs : s.Sound) (fuel : Nat) (source : String) (number : Int)
    (stack : Stack) : (s.add fuel source number stack).state.Closed := by
  have hline : ∀ o, (evaluate s.watch fuel s.environment s.strict ⟨0, ""⟩ source).2 = .ok o →
      o.environment.Closed ∧ ∀ v, o.value? = some v → v.freeNames = [] := by
    intro o ho
    rw [h.strict] at ho
    exact h.environment.evaluate hs.environment ho
  refine ⟨?_, ?_, forall_results_add h.results (fun o ho => (hline o ho).2) number stack⟩
  · obtain ⟨env, results, lines, hstate⟩ := s.exists_add_state_eq fuel source number stack
    rw [hstate]
    exact h.strict
  · rcases s.add_cases fuel source number stack with ⟨-, henv, -⟩ | ⟨o, -, ho, henv, -⟩
    · rw [henv]
      exact h.environment
    · rw [henv]
      exact (hline o ho).1

theorem Closed.pop {s' : Session} {o : Outcome} (h : s.Closed) (hpop : s.pop? = some (o, s')) :
    s'.Closed := by
  obtain ⟨o', -, heq⟩ := Option.map_eq_some_iff.1 hpop
  cases heq
  exact ⟨h.strict, h.environment, fun o ho => h.results o (List.dropLast_subset _ ho)⟩

theorem Reachable.closed {s₀ : Session} (h : Reachable s₀ s) (h₀ : s₀.Closed) (hs₀ : s₀.Sound) :
    s.Closed := by
  induction h with
  | refl => exact h₀
  | add fuel source number hreach stack ih =>
      exact ih.add (hreach.sound hs₀) fuel source number stack
  | pop _ hpop ih => exact ih.pop hpop

/-- **Strict mode.**  In any environment, a line with an expression is refused for an undefined
name exactly if some name is free in the expression and not defined.  The name that is reported is
the first such name from the left; nothing has been contracted by then, and the environment is as
it was.  So whatever is added to a strict session, nothing is free in the terms that its names
stand for, nor in its results. -/
theorem strict_refuses_undefined (env : Environment) (source : String) (line : Line Expr)
    (e : Expr) (hparse : Line.parse source = .ok line) (hterm : line.term? = some e) :
    (∀ (σ : Type) (watch : Watcher σ Interruption) (fuel : Nat) (seen : σ), watch.ReportsNoName →
      ((∃ o x, (evaluate watch fuel env true seen source).2 = .ok o ∧
          o.result = .error (.undefined x)) ↔
        ∃ x ∈ (Term.ofExpr e).bind.freeNames, x ∉ env.keys)) ∧
    ((∃ x ∈ (Term.ofExpr e).bind.freeNames, x ∉ env.keys) →
      ∃ x, env.FirstMissing (Term.ofExpr e).bind x ∧
        ∀ (σ : Type) (watch : Watcher σ Interruption) (fuel : Nat) (seen : σ),
          evaluate watch fuel env true seen source =
            (seen, .ok ⟨source, env, .error (.undefined x)⟩)) ∧
    ∀ (reporter : Reporter) (maxSteps : Bound) (trace : Bool) (path : String) (s : Session),
      Reachable (new reporter true maxSteps trace path) s →
      (∀ x d, s.environment.get? x = some d → d.term.freeNames = []) ∧
      ∀ o ∈ s.results, ∃ v, o.value? = some v ∧ v.freeNames = [] := by
  have hmissing : (∃ x ∈ (Term.ofExpr e).bind.freeNames, x ∉ env.keys) →
      ∃ x, env.FirstMissing (Term.ofExpr e).bind x ∧
        ∀ (σ : Type) (watch : Watcher σ Interruption) (fuel : Nat) (seen : σ),
          evaluate watch fuel env true seen source =
            (seen, .ok ⟨source, env, .error (.undefined x)⟩) := by
    rintro ⟨y, hy, hnot⟩
    cases hfirst : env.undefined? true (Term.ofExpr e).bind with
    | none => exact absurd (Environment.undefined?_eq_none_iff.1 hfirst y hy) hnot
    | some x =>
        have hx := Environment.undefined?_eq_some_iff.1 hfirst
        refine ⟨x, hx, fun σ watch fuel seen => ?_⟩
        rw [evaluate_eq_task, Environment.task_of_missing hparse hterm hx]
  refine ⟨fun σ watch fuel seen hw => ⟨?_, ?_⟩, hmissing, ?_⟩
  · rintro ⟨o, x, heval, ho⟩
    by_contra hnone
    push Not at hnone
    obtain ⟨t, htask⟩ := Environment.exists_task_of_defined hparse hterm hnone
    exact evaluate_ne_undefined hw htask heval x ho
  · intro hsome
    obtain ⟨x, -, heval⟩ := hmissing hsome
    exact ⟨_, x, by rw [heval], rfl⟩
  · intro reporter maxSteps trace path s h
    have hclosed := h.closed (closed_new reporter maxSteps trace path)
      (sound_new reporter true maxSteps trace path)
    exact ⟨hclosed.environment, hclosed.results⟩

/-- The theorem at a line whose second free name is not defined; reduction would have discarded
it.  A session that has been given the first one holds nothing free. -/
theorem strict_refuses_undefined_discarded :
    let identity : Term := .lam (.bound 1 "z") (.var (.bound 1 "z"))
    let env : Environment := ⟨[("I", ⟨"I", identity⟩)]⟩
    let e : Expr := .app (.app (.lam "x" (.lam "y" (.var "x"))) (.var "I")) (.var "u")
    let s₀ := new default true .none false inputPath
    Line.parse "(λxy.x)Iu" = .ok (.expression e) ∧
      (∃ x ∈ (Term.ofExpr e).bind.freeNames, x ∉ env.keys) ∧
      (∀ (σ : Type) (watch : Watcher σ Interruption) (fuel : Nat) (seen : σ),
        evaluate watch fuel env true seen "(λxy.x)Iu" =
          (seen, .ok ⟨"(λxy.x)Iu", env, .error (.undefined "u")⟩)) ∧
      (Watcher.ReportsNoName (fun (_ : Unit) _ => ((), none)) ∧
        ∃ o x, (evaluate (fun (_ : Unit) _ => ((), none)) 0 env true () "(λxy.x)Iu").2 = .ok o ∧
          o.result = .error (.undefined x)) ∧
      Reachable s₀ (s₀.add 0 "I := λz.z" 1).state ∧
      ∃ d, (s₀.add 0 "I := λz.z" 1).state.environment.get? "I" = some d ∧
        d.term.freeNames = [] := by
  intro identity env e s₀
  have hparse : Line.parse "(λxy.x)Iu" = .ok (.expression e) := by rfl
  have hundefined : env.undefined? true (Term.ofExpr e).bind = some "u" := by rfl
  have hmissing : ∃ x ∈ (Term.ofExpr e).bind.freeNames, x ∉ env.keys :=
    ⟨"u", by decide +zetaReduce, by decide +zetaReduce⟩
  have hwatch : Watcher.ReportsNoName (fun (_ : Unit) _ => ((), none)) := by
    intro seen c x
    exact nofun
  obtain ⟨hiff, hfirst, hsession⟩ := strict_refuses_undefined env "(λxy.x)Iu" _ e hparse rfl
  obtain ⟨x, hx, heval⟩ := hfirst hmissing
  obtain rfl : "u" = x :=
    Option.some.inj (hundefined.symm.trans (Environment.undefined?_eq_some_iff.2 hx))
  have htask : s₀.environment.task s₀.strict "I := λz.z" =
      .reduce (.definition "I" (.lam "z" (.var "z"))) identity := by rfl
  have hreach : Reachable s₀ (s₀.add 0 "I := λz.z" 1).state := .add 0 "I := λz.z" 1 .refl
  have hget : (s₀.add 0 "I := λz.z" 1).state.environment.get? "I" = some ⟨"I", identity⟩ := by
    rw [add_of_isNormal htask trivial]
    rfl
  obtain ⟨hclosed, -⟩ := hsession default .none false inputPath _ hreach
  exact ⟨hparse, hmissing, heval, ⟨hwatch, (hiff Unit _ 0 () hwatch).2 hmissing⟩, hreach,
    _, hget, hclosed _ _ hget⟩

end Session

end UntypedLambda
