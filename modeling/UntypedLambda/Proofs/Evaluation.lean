import UntypedLambda.Evaluation
import UntypedLambda.Proofs.Environment
import UntypedLambda.Proofs.Line
import UntypedLambda.Proofs.Reduction.Result

/-!
# What a line evaluates to

A line means its expression, in which the names that are free and defined have been
replaced by their values; it evaluates to the normal form of this term.

* `evaluate_cases` — what can come of a line.
* `Environment.Sound.evaluate` — a line that is evaluated has a value, and the names of the
  environment go on standing for values.
* `Environment.Reachable` — the environments that lines lead to.
* `evaluate_line_meaning` — the meaning of a line in such an environment.
-/

namespace UntypedLambda

open Relation (ReflTransGen)

/-- The outcome of a line that is replaced by its value. -/
def Outcome.ofValue (source : String) (env : Environment) (line : Line Expr) (v : Term) : Outcome :=
  ⟨source, env.extend (line.map fun _ => v), .ok (line.map fun _ => v)⟩

theorem Outcome.value?_ofValue {line : Line Expr} {e : Expr} (h : line.term? = some e)
    (source : String) (env : Environment) (v : Term) :
    (Outcome.ofValue source env line v).value? = some v := by
  show (line.map fun _ => v).term? = some v
  rw [Line.term?_map, h, Option.map_some]

section Evaluate

variable {σ : Type} (watch : Watcher σ Interruption) (fuel : Nat) {env : Environment}
  {strict : Bool} (seen : σ) {source : String} {line : Line Expr} {e : Expr} {t : Term}

/-- The expression of a line is replaced by what it evaluates to. -/
theorem evaluateLine_eq (h : line.term? = some e) :
    evaluateLine watch fuel env strict seen line =
      ((normalize watch fuel env strict seen e).1,
        (normalize watch fuel env strict seen e).2.map fun v => line.map fun _ => v) := by
  cases line with
  | empty => cases h
  | expression e' =>
      cases h
      rfl
  | definition name e' =>
      cases h
      rfl

/-- What a line leads to is decided by the run on the term of its expression. -/
theorem evaluate_eq_run (hparse : Line.parse source = .ok line) (hterm : line.term? = some e)
    (hresolve : env.resolve strict e = .ok t) :
    evaluate watch fuel env strict seen source =
      ((Reducer.fresh.run watch fuel seen t).seen,
        match (Reducer.fresh.run watch fuel seen t).ending with
        | .normal v => .ok (Outcome.ofValue source env line v)
        | .stopped i => Outcome.ofResult source env (.error i)
        | .unfinished _ => .error .unfinished) := by
  unfold evaluate
  rw [hparse]
  simp only [evaluateLine_eq watch fuel seen hterm, normalize, hresolve]
  cases (Reducer.fresh.run watch fuel seen t).ending <;> rfl

/-- An interruption that becomes an outcome leaves the environment as it is. -/
theorem Outcome.refused_of_ofResult {i : Interruption} {o : Outcome}
    (h : Outcome.ofResult source env (.error i) = .ok o) :
    ∃ err, o = ⟨source, env, .error err⟩ := by
  cases i <;> cases h <;> exact ⟨_, rfl⟩

variable {watch fuel seen} {o : Outcome}

/-- A line whose names are all found is refused, or it evaluates to what the run on its term
ends with. -/
theorem evaluate_cases_of_resolve (hparse : Line.parse source = .ok line)
    (hterm : line.term? = some e) (hresolve : env.resolve strict e = .ok t)
    (h : (evaluate watch fuel env strict seen source).2 = .ok o) :
    (∃ err, o = ⟨source, env, .error err⟩) ∨
      ∃ v, (Reducer.fresh.run watch fuel seen t).ending = .normal v ∧
        o = Outcome.ofValue source env line v := by
  rw [evaluate_eq_run watch fuel seen hparse hterm hresolve] at h
  cases hend : (Reducer.fresh.run watch fuel seen t).ending with
  | normal v =>
      rw [hend] at h
      exact .inr ⟨v, rfl, (Except.ok.inj h).symm⟩
  | stopped i =>
      rw [hend] at h
      exact .inl (Outcome.refused_of_ofResult h)
  | unfinished u =>
      rw [hend] at h
      cases h

/-- What can come of a line: it is refused, it is empty, or it evaluates to what the run on its
term ends with. -/
theorem evaluate_cases (h : (evaluate watch fuel env strict seen source).2 = .ok o) :
    (∃ err, o = ⟨source, env, .error err⟩) ∨ o = ⟨source, env, .ok .empty⟩ ∨
      ∃ line e t v, Line.parse source = .ok line ∧ line.term? = some e ∧
        env.resolve strict e = .ok t ∧
        (Reducer.fresh.run watch fuel seen t).ending = .normal v ∧
        o = Outcome.ofValue source env line v := by
  cases hparse : Line.parse source with
  | error err =>
      rw [evaluate, hparse] at h
      exact .inl ⟨err, (Except.ok.inj h).symm⟩
  | ok line =>
      cases hterm : line.term? with
      | none =>
          cases line with
          | empty =>
              rw [evaluate, hparse] at h
              exact .inr (.inl (Except.ok.inj h).symm)
          | expression e => cases hterm
          | definition name e => cases hterm
      | some e =>
          cases hresolve : env.resolve strict e with
          | error err =>
              rw [evaluate, hparse] at h
              simp only [evaluateLine_eq watch fuel seen hterm, normalize, hresolve] at h
              exact .inl (Outcome.refused_of_ofResult h)
          | ok t =>
              rcases evaluate_cases_of_resolve hparse hterm hresolve h with
                hrefused | ⟨v, hend, ho⟩
              · exact .inl hrefused
              · exact .inr (.inr ⟨line, e, t, v, rfl, hterm, hresolve, hend, ho⟩)

end Evaluate

/-! ## Environments that lines lead to -/

namespace Environment

/-- A line that is evaluated to a value may define a name by it. -/
theorem Sound.extend {env : Environment} (henv : env.Sound) {line : Line Expr} {v : Term}
    (hnames : ∀ x ∈ line.names, IsVariableName x) (hv : v.IsValue) :
    (env.extend (line.map fun _ => v)).Sound := by
  cases line with
  | empty => exact henv
  | expression e => exact henv
  | definition name e =>
      intro x d hx
      rw [Line.map, Environment.extend, Table.get?_put] at hx
      split at hx
      · next hname =>
          cases hx
          subst hname
          exact ⟨hnames name (List.mem_cons_self ..), rfl, hv⟩
      · exact henv x d hx

/-- A line that is evaluated has a value, and the names of the environment go on standing for
values. -/
theorem Sound.evaluate {σ : Type} {watch : Watcher σ Interruption} {fuel : Nat}
    {env : Environment} {strict : Bool} {seen : σ} {source : String} {o : Outcome}
    (henv : env.Sound) (h : (evaluate watch fuel env strict seen source).2 = .ok o) :
    o.environment.Sound ∧ ∀ v, o.value? = some v → v.IsValue := by
  rcases evaluate_cases h with ⟨err, rfl⟩ | rfl |
    ⟨line, e, t, v, hparse, hterm, hresolve, hend, rfl⟩
  · exact ⟨henv, fun v hv => by cases hv⟩
  · exact ⟨henv, fun v hv => by cases hv⟩
  · have hresolves := resolves_of_resolve henv hresolve
    have hyields := Reducer.yields_of_run hresolves.hygienic hend
    have hread : ∀ x ∈ line.names, IsVariableName x := fun x => Line.isVariableName_of_parse hparse
    have hvalue : v.IsValue := by
      refine ⟨hyields.hygienic, ?_, hyields.normal, ?_⟩
      · have hloose := hyields.loose
        rwa [hresolves.closed, List.subset_nil] at hloose
      · intro x hx
        rcases hresolves.names x (hyields.names hx) with hx | hx
        · exact hread x (Line.names_subset_of_term? hterm hx)
        · exact hx
    refine ⟨henv.extend hread hvalue, ?_⟩
    intro w hw
    rw [Outcome.value?_ofValue hterm] at hw
    cases hw
    exact hvalue

/-- The environments that lines lead to, each evaluated in the one that the line before it left
behind, in any way. -/
inductive Reachable : Environment → Prop
  /-- Nothing is defined at first. -/
  | empty : Reachable Table.empty
  /-- A line is evaluated. -/
  | evaluate {σ : Type} (watch : Watcher σ Interruption) (fuel : Nat) (strict : Bool) (seen : σ)
      (source : String) {env : Environment} {o : Outcome} : Reachable env →
      (evaluate watch fuel env strict seen source).2 = .ok o → Reachable o.environment

theorem Reachable.sound {env : Environment} (h : env.Reachable) : env.Sound := by
  induction h with
  | empty => exact sound_empty
  | evaluate watch fuel strict seen source _ heval ih => exact (ih.evaluate heval).1

end Environment

/-! ## The meaning of a line -/

/-- **What a line means.**  Let an environment be given that lines have led to, and a line with
an expression.  What is reduced is a hygienic term: the expression with its names resolved, in
which the free names that are defined have been replaced by the terms they stand for, all at
once and without capture, and the other free names are left alone.  The line has a value exactly
if the run on this term ends with it; and unless the line is refused, its value is the only
normal form of the term. -/
theorem evaluate_line_meaning (env : Environment) (henv : env.Reachable) (source : String)
    (line : Line Expr) (e : Expr) (hparse : Line.parse source = .ok line)
    (hterm : line.term? = some e) :
    ∃ t, env.resolve false e = .ok t ∧ t.Hygienic ∧
      t.nameless = (Term.ofExpr e).bind.nameless.instantiate
        (fun x => (env.get? x).map fun d => d.term.nameless) ∧
      ∀ (σ : Type) (watch : Watcher σ Interruption) (fuel : Nat) (seen : σ),
        (evaluate watch fuel env false seen source).1 =
          (Reducer.fresh.run watch fuel seen t).seen ∧
        (∀ v, (Reducer.fresh.run watch fuel seen t).ending = .normal v ↔
          ∃ o, (evaluate watch fuel env false seen source).2 = .ok o ∧ o.value? = some v) ∧
        ∀ o, (evaluate watch fuel env false seen source).2 = .ok o →
          (∃ err, o.result = .error err) ∨
          ∃ v, o.value? = some v ∧
            ∀ n, ReflTransGen Nameless.Beta t.nameless n ∧ n.IsNormal ↔ n = v.nameless := by
  obtain ⟨t, ht⟩ : ∃ t, env.resolve false e = .ok t := by
    rw [Environment.resolve_eq, Environment.undefined?_false]
    exact ⟨_, rfl⟩
  have hresolves := Environment.resolves_of_resolve henv.sound ht
  refine ⟨t, ht, hresolves.hygienic, hresolves.meaning, ?_⟩
  intro σ watch fuel seen
  refine ⟨by rw [evaluate_eq_run watch fuel seen hparse hterm ht], fun v => ⟨?_, ?_⟩, ?_⟩
  · intro hend
    refine ⟨Outcome.ofValue source env line v, ?_, Outcome.value?_ofValue hterm source env v⟩
    rw [evaluate_eq_run watch fuel seen hparse hterm ht, hend]
  · rintro ⟨o, ho, hv⟩
    rcases evaluate_cases_of_resolve hparse hterm ht ho with ⟨err, rfl⟩ | ⟨w, hend, rfl⟩
    · cases hv
    · rw [Outcome.value?_ofValue hterm] at hv
      cases hv
      exact hend
  · intro o ho
    rcases evaluate_cases_of_resolve hparse hterm ht ho with ⟨err, rfl⟩ | ⟨v, hend, rfl⟩
    · exact .inl ⟨err, rfl⟩
    · have hyields := Reducer.yields_of_run hresolves.hygienic hend
      exact .inr ⟨v, Outcome.value?_ofValue hterm source env v, hyields.normalForm⟩

/-- The theorem at the line `λy.wy` where `w` stands for `λx.xy`: the `y` in the value is not
the parameter of the line, and stays free. -/
theorem evaluate_line_meaning_free_name_in_value :
    let env : Environment :=
      ⟨[("w", ⟨"w", .lam (.bound 1 "x") (.app (.var (.bound 1 "x")) (.var (.free "y")))⟩)]⟩
    let e : Expr := .lam "y" (.app (.var "w") (.var "y"))
    env.Reachable ∧ Line.parse "λy.wy" = .ok (.expression e) ∧
      ∃ t, env.resolve false e = .ok t ∧ t.Hygienic ∧
        t.nameless = .lam (.app (.lam (.app (.index 0) (.free "y"))) (.index 0)) ∧
        ∀ (σ : Type) (watch : Watcher σ Interruption) (fuel : Nat) (seen : σ) (o : Outcome),
          (evaluate watch fuel env false seen "λy.wy").2 = .ok o →
          (∃ err, o.result = .error err) ∨
          ∃ v, o.value? = some v ∧ v.nameless = .lam (.app (.index 0) (.free "y")) := by
  intro env e
  have henv : env.Reachable := by
    let value : Term := .lam (.bound 1 "x") (.app (.var (.bound 1 "x")) (.var (.free "y")))
    let watch : Watcher Unit Interruption := fun _ _ => ((), none)
    have hparse : Line.parse "w := λx.xy" =
        .ok (.definition "w" (.lam "x" (.app (.var "x") (.var "y")))) := by rfl
    have hresolve : Environment.resolve Table.empty false
        (.lam "x" (.app (.var "x") (.var "y"))) = .ok value := by rfl
    have hnormal : value.IsNormal := ⟨rfl, trivial, trivial⟩
    have heval : (evaluate watch 0 Table.empty false () "w := λx.xy").2 =
        .ok ⟨"w := λx.xy", env, .ok (.definition "w" value)⟩ := by
      rw [evaluate_eq_run watch 0 () hparse rfl hresolve,
        Reducer.run_of_isNormal watch 0 Reducer.fresh () hnormal]
      rfl
    exact .evaluate watch 0 false () "w := λx.xy" .empty heval
  have hparse : Line.parse "λy.wy" = .ok (.expression e) := by rfl
  obtain ⟨t, ht, hhygienic, hmeaning, heval⟩ :=
    evaluate_line_meaning env henv "λy.wy" (.expression e) e hparse rfl
  have hnameless : t.nameless = .lam (.app (.lam (.app (.index 0) (.free "y"))) (.index 0)) := by
    rw [hmeaning]
    rfl
  refine ⟨henv, hparse, t, ht, hhygienic, hnameless, ?_⟩
  intro σ watch fuel seen o ho
  obtain ⟨-, -, hout⟩ := heval σ watch fuel seen
  refine (hout o ho).imp_right ?_
  rintro ⟨v, hv, hnormal⟩
  refine ⟨v, hv, ((hnormal _).1 ⟨?_, ?_⟩).symm⟩
  · rw [hnameless]
    exact .single (.body (.head _ _))
  · exact ⟨rfl, trivial, trivial⟩

end UntypedLambda
