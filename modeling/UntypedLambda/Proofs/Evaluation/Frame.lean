import Mathlib.Data.List.Find
import UntypedLambda.Proofs.Evaluation.Task
import UntypedLambda.Proofs.Term.Renumbering

/-!
# What a line depends on

Of an environment, a line sees the definitions of its free names and nothing else, and of
these it sees no numbers: what is filled in is a copy, whose numbers are drawn for the line.
So two environments in which these names are defined alike, or not at all, lead to the same
term, with the same numbers, and from there on to the same contractions and the same result.
Two definitions that do not use each other may therefore be made in either order.

* `Environment.AgreeOn` — names are defined alike up to numbers, or not at all.
* `Environment.AgreeOn.resolve_eq`, `Environment.AgreesFor.task_eq` — then what there is to do for
  a line is the same.
* `Environment.AgreesFor.evaluate` — and so is what comes of it.
* `evaluate_frame` — this, and the order of two definitions.
-/

namespace UntypedLambda

/-- The second term is the first one with other numbers. -/
def Term.SameUpToIds (t u : Term) : Prop :=
  ∃ ρ : Int → Int, Set.InjOn ρ {i | i ∈ t.ids} ∧ u = t.mapIds ρ

theorem Term.sameUpToIds_refl (t : Term) : t.SameUpToIds t := by
  have hvar : ∀ v : Var, v.mapId id = v := by
    intro v
    cases v <;> rfl
  refine ⟨id, Function.injective_id.injOn, ?_⟩
  induction t with
  | var v => rw [mapIds, hvar]
  | app fn arg ihf iha => rw [mapIds, ← ihf, ← iha]
  | lam param body ih => rw [mapIds, hvar, ← ih]

namespace Environment

/-- Each of the names is defined in neither environment, or in both by the same term up to
numbers. -/
def AgreeOn (env env' : Environment) (names : List String) : Prop :=
  ∀ x ∈ names, (env.get? x = none ∧ env'.get? x = none) ∨
    ∃ d d', env.get? x = some d ∧ env'.get? x = some d' ∧ d.term.SameUpToIds d'.term

/-- The environments agree on the free names of the expression on a line, if there is one. -/
def AgreesFor (env env' : Environment) (source : String) : Prop :=
  ∀ line e, Line.parse source = .ok line → line.term? = some e →
    env.AgreeOn env' (Term.ofExpr e).bind.freeNames

section Agree

variable {env env' : Environment} {strict : Bool}

/-- Another definition is not seen by those who do not use the name. -/
theorem agreeOn_put {names : List String} {a : String} (h : a ∉ names) (d : Definition) :
    env.AgreeOn (env.put a d) names := by
  intro x hx
  have hne : a ≠ x := fun heq => h (heq ▸ hx)
  rw [Table.get?_put, if_neg hne]
  cases env.get? x with
  | none => exact .inl ⟨rfl, rfl⟩
  | some d' => exact .inr ⟨d', d', rfl, rfl, d'.term.sameUpToIds_refl⟩

theorem AgreeOn.contains_eq {names : List String} (h : env.AgreeOn env' names) {x : String}
    (hx : x ∈ names) : env.contains x = env'.contains x := by
  unfold Table.contains
  rcases h x hx with ⟨hnone, hnone'⟩ | ⟨d, d', hd, hd', -⟩
  · rw [hnone, hnone']
  · rw [hd, hd']
    rfl

/-- The same names are missing. -/
theorem AgreeOn.undefined?_eq {t : Term} (h : env.AgreeOn env' t.freeNames) :
    env.undefined? strict t = env'.undefined? strict t := by
  refine List.find?_congr fun x hx => ?_
  rw [h.contains_eq hx]

/-- The same is filled in, with the same numbers: a value has no loose variables, so all numbers in
its copy are drawn. -/
theorem AgreeOn.fillIn_eq (henv : env.Sound) {t : Term} (h : env.AgreeOn env' t.freeNames)
    (s : Supply) : env.fillIn t s = env'.fillIn t s := by
  induction t generalizing s with
  | var v =>
      cases v with
      | bound i x => rfl
      | free x =>
          unfold fillIn
          rcases h x (List.mem_singleton_self x) with ⟨hnone, hnone'⟩ | ⟨d, d', hd, hd', hsame⟩
          · rw [hnone, hnone']
          · obtain ⟨ρ, hρ, hterm⟩ := hsame
            simp only [hd, hd', hterm]
            exact (Term.refresh_mapIds_eq hρ (henv x d hd).value.closed s).symm
  | app fn arg ihf iha =>
      obtain ⟨hfn, harg⟩ := List.forall_mem_append.1 h
      rw [fillIn, fillIn, ihf hfn, iha harg]
  | lam param body ih => rw [fillIn, fillIn, ih h]

/-- The expression becomes the same term, with the same numbers. -/
theorem AgreeOn.resolve_eq (henv : env.Sound) {e : Expr}
    (h : env.AgreeOn env' (Term.ofExpr e).bind.freeNames) :
    env.resolve strict e = env'.resolve strict e := by
  rw [Environment.resolve_eq, Environment.resolve_eq, h.undefined?_eq, h.fillIn_eq henv]

/-- There is the same to do for the line. -/
theorem AgreesFor.task_eq {source : String} (henv : env.Sound) (h : env.AgreesFor env' source) :
    env.task strict source = env'.task strict source := by
  unfold task
  cases hparse : Line.parse source with
  | error e => rfl
  | ok line =>
      cases hterm : line.term? with
      | none => simp only [hterm]
      | some e => simp only [hterm, (h line e hparse hterm).resolve_eq henv]

/-- **What comes of a line depends on the definitions of its free names**, and not on their
numbers: the watcher sees the same, and the line has the same result. -/
theorem AgreesFor.evaluate {σ : Type} {source : String} (henv : env.Sound)
    (h : env.AgreesFor env' source) (watch : Watcher σ Interruption) (fuel : Nat) (strict : Bool)
    (seen : σ) :
    (evaluate watch fuel env strict seen source).1 =
        (evaluate watch fuel env' strict seen source).1 ∧
      (evaluate watch fuel env strict seen source).2.map Outcome.result =
        (evaluate watch fuel env' strict seen source).2.map Outcome.result := by
  rw [evaluate_eq_task, evaluate_eq_task, h.task_eq henv]
  cases env'.task strict source with
  | refuse e => exact ⟨rfl, rfl⟩
  | skip => exact ⟨rfl, rfl⟩
  | reduce line t =>
      refine ⟨rfl, ?_⟩
      cases hend : (Reducer.fresh.run watch fuel seen t).ending with
      | normal v => simp only [hend]; rfl
      | stopped i => simp only [hend]; cases i <;> rfl
      | unfinished u => simp only [hend]

end Agree

end Environment

/-! ## Definitions in either order -/

section Definitions

variable {σ : Type} {watch : Watcher σ Interruption} {fuel : Nat} {env : Environment}
  {strict : Bool} {seen : σ} {source : String} {a : String} {e : Expr}

/-- A line that is evaluated as a definition adds it to the environment. -/
theorem outcome_of_definition {o : Outcome} {value : Line Term}
    (hparse : Line.parse source = .ok (.definition a e))
    (h : (evaluate watch fuel env strict seen source).2 = .ok o) (ho : o.result = .ok value) :
    ∃ v, value = .definition a v ∧ o = ⟨source, env.put a ⟨a, v⟩, .ok (.definition a v)⟩ := by
  cases hresolve : env.resolve strict e with
  | error err =>
      simp only [evaluate, hparse, evaluateLine, normalize, hresolve, Except.map, Outcome.ofResult,
        Except.ok.injEq] at h
      subst h
      cases ho
  | ok t =>
      rcases evaluate_cases_of_resolve hparse rfl hresolve h with ⟨err, rfl⟩ | ⟨v, -, rfl⟩
      · cases ho
      · exact ⟨v, (Except.ok.inj ho).symm, rfl⟩

/-- A definition that is made in one environment is made in every other one where the line has the
same result. -/
theorem evaluate_eq_put_of_result_eq {env' : Environment} {o : Outcome} {v : Term}
    (hparse : Line.parse source = .ok (.definition a e))
    (hsame : (evaluate watch fuel env strict seen source).2.map Outcome.result =
      (evaluate watch fuel env' strict seen source).2.map Outcome.result)
    (heval : (evaluate watch fuel env strict seen source).2 = .ok o)
    (hresult : o.result = .ok (.definition a v)) :
    (evaluate watch fuel env' strict seen source).2 =
      .ok ⟨source, env'.put a ⟨a, v⟩, .ok (.definition a v)⟩ := by
  rw [heval] at hsame
  cases heval' : (evaluate watch fuel env' strict seen source).2 with
  | error i =>
      rw [heval'] at hsame
      cases hsame
  | ok o' =>
      rw [heval'] at hsame
      have hresult' : o'.result = .ok (.definition a v) :=
        (Except.ok.inj hsame).symm.trans hresult
      obtain ⟨w, hw, rfl⟩ := outcome_of_definition hparse heval' hresult'
      cases hw
      rfl

/-- A definition of a name that the line does not use changes nothing for the line. -/
theorem agreesFor_put {b : String} (hparse : Line.parse source = .ok (.definition a e))
    (hb : b ∉ (Term.ofExpr e).bind.freeNames) (d : Definition) :
    env.AgreesFor (env.put b d) source := by
  intro line e' hline hterm
  cases hparse.symm.trans hline
  cases hterm
  exact Environment.agreeOn_put hb d

end Definitions

/-- **A line sees the definitions of its free names, without their numbers**: in environments that
agree on these names, every watcher is shown the same contractions, and the line has the same
result or the same error, with the same numbers. So two definitions that succeed one after the
other, and do not use each other's name, succeed in the other order with the same results, and
afterwards every name has the same definition. -/
theorem evaluate_frame (env : Environment) (henv : env.Reachable) :
    (∀ (env' : Environment) (source : String), env.AgreesFor env' source →
      ∀ (σ : Type) (watch : Watcher σ Interruption) (fuel : Nat) (strict : Bool) (seen : σ),
        (evaluate watch fuel env strict seen source).1 =
            (evaluate watch fuel env' strict seen source).1 ∧
          (evaluate watch fuel env strict seen source).2.map Outcome.result =
            (evaluate watch fuel env' strict seen source).2.map Outcome.result) ∧
    ∀ (source₁ source₂ a b : String) (e₁ e₂ : Expr),
      Line.parse source₁ = .ok (.definition a e₁) →
      Line.parse source₂ = .ok (.definition b e₂) →
      a ≠ b → a ∉ (Term.ofExpr e₂).bind.freeNames → b ∉ (Term.ofExpr e₁).bind.freeNames →
      ∀ (σ₁ σ₂ : Type) (watch₁ : Watcher σ₁ Interruption) (watch₂ : Watcher σ₂ Interruption)
        (fuel₁ fuel₂ : Nat) (strict₁ strict₂ : Bool) (seen₁ : σ₁) (seen₂ : σ₂)
        (o₁ o₂ : Outcome) (value₁ value₂ : Line Term),
        (evaluate watch₁ fuel₁ env strict₁ seen₁ source₁).2 = .ok o₁ → o₁.result = .ok value₁ →
        (evaluate watch₂ fuel₂ o₁.environment strict₂ seen₂ source₂).2 = .ok o₂ →
        o₂.result = .ok value₂ →
        ∃ o₂' o₁' : Outcome,
          (evaluate watch₂ fuel₂ env strict₂ seen₂ source₂).2 = .ok o₂' ∧
          o₂'.result = .ok value₂ ∧
          (evaluate watch₁ fuel₁ o₂'.environment strict₁ seen₁ source₁).2 = .ok o₁' ∧
          o₁'.result = .ok value₁ ∧
          ∀ x, o₁'.environment.get? x = o₂.environment.get? x := by
  refine ⟨fun env' source h σ watch fuel strict seen =>
    h.evaluate henv.sound watch fuel strict seen, ?_⟩
  intro source₁ source₂ a b e₁ e₂ hparse₁ hparse₂ hab ha hb σ₁ σ₂ watch₁ watch₂ fuel₁ fuel₂
    strict₁ strict₂ seen₁ seen₂ o₁ o₂ value₁ value₂ heval₁ hresult₁ heval₂ hresult₂
  obtain ⟨v₁, rfl, rfl⟩ := outcome_of_definition hparse₁ heval₁ hresult₁
  obtain ⟨v₂, rfl, rfl⟩ := outcome_of_definition hparse₂ heval₂ hresult₂
  -- Neither line sees what the other one adds to `env`.
  have hsame₁ := ((agreesFor_put hparse₁ hb ⟨b, v₂⟩).evaluate henv.sound
    watch₁ fuel₁ strict₁ seen₁).2
  have hsame₂ := ((agreesFor_put hparse₂ ha ⟨a, v₁⟩).evaluate henv.sound
    watch₂ fuel₂ strict₂ seen₂).2
  refine ⟨_, _, evaluate_eq_put_of_result_eq hparse₂ hsame₂.symm heval₂ rfl, rfl,
    evaluate_eq_put_of_result_eq hparse₁ hsame₁ heval₁ rfl, rfl, ?_⟩
  intro x
  simp only [Table.get?_put]
  split_ifs with hax hbx
  · exact absurd (hax.trans hbx.symm) hab
  · rfl
  · rfl
  · rfl

/-- A number in the value of `w` that comes from a contraction is not seen by a line that uses `w`;
and two more definitions that both use `w` can be made in either order. -/
theorem evaluate_frame_shared_name :
    let value (i : Int) : Term :=
      .lam (.bound i "x") (.app (.var (.bound i "x")) (.var (.free "y")))
    let env : Environment := ⟨[("w", ⟨"w", value 1⟩)]⟩
    let env' : Environment := ⟨[("w", ⟨"w", value 3⟩)]⟩
    let watch : Watcher Unit Interruption := fun _ _ => ((), none)
    env.Reachable ∧ env'.Reachable ∧ env.AgreesFor env' "λz.wz" ∧
      (evaluate watch 9 env false () "λz.wz").2.map Outcome.result =
        (evaluate watch 9 env' false () "λz.wz").2.map Outcome.result ∧
      ∃ o₂ o₁ : Outcome,
        (evaluate watch 9 env false () "b := λz.zw").2 = .ok o₂ ∧
        (evaluate watch 9 o₂.environment false () "a := w").2 = .ok o₁ ∧
        o₁.environment.get? "a" = some ⟨"a", value 1⟩ ∧
        o₁.environment.get? "b" =
          some ⟨"b", .lam (.bound 1 "z") (.app (.var (.bound 1 "z")) (value 2))⟩ := by
  intro value env env' watch
  have henv : env.Reachable := by
    have hparse : Line.parse "w := λx.xy" =
        .ok (.definition "w" (.lam "x" (.app (.var "x") (.var "y")))) := by rfl
    have heval : (evaluate watch 9 Table.empty false () "w := λx.xy").2 =
        .ok ⟨"w := λx.xy", env, .ok (.definition "w" (value 1))⟩ := by
      rw [evaluate_eq_run watch 9 () hparse rfl rfl, Reducer.run_eq_iterate]
      rfl
    exact .evaluate watch 9 false () "w := λx.xy" .empty heval
  have henv' : env'.Reachable := by
    have hparse : Line.parse "w := (λz.z)λx.xy" =
        .ok (.definition "w"
          (.app (.lam "z" (.var "z")) (.lam "x" (.app (.var "x") (.var "y"))))) := by rfl
    have heval : (evaluate watch 9 Table.empty false () "w := (λz.z)λx.xy").2 =
        .ok ⟨"w := (λz.z)λx.xy", env', .ok (.definition "w" (value 3))⟩ := by
      rw [evaluate_eq_run watch 9 () hparse rfl rfl, Reducer.run_eq_iterate]
      rfl
    exact .evaluate watch 9 false () "w := (λz.z)λx.xy" .empty heval
  have hagree : env.AgreesFor env' "λz.wz" := by
    have hparse : Line.parse "λz.wz" =
        .ok (.expression (.lam "z" (.app (.var "w") (.var "z")))) := by rfl
    intro line e hline hterm
    cases hparse.symm.trans hline
    cases hterm
    intro x hx
    cases List.mem_singleton.1 hx
    exact .inr ⟨_, _, rfl, rfl, fun i => i + 2, fun i _ j _ => (Int.add_left_inj 2).1, rfl⟩
  have hparse₁ : Line.parse "a := w" = .ok (.definition "a" (.var "w")) := by rfl
  have hparse₂ : Line.parse "b := λz.zw" =
      .ok (.definition "b" (.lam "z" (.app (.var "z") (.var "w")))) := by rfl
  let env₁ : Environment := env.put "a" ⟨"a", value 1⟩
  have heval₁ : (evaluate watch 9 env false () "a := w").2 =
      .ok ⟨"a := w", env₁, .ok (.definition "a" (value 1))⟩ := by
    rw [evaluate_eq_run watch 9 () hparse₁ rfl rfl, Reducer.run_eq_iterate]
    rfl
  let value₂ : Term := .lam (.bound 1 "z") (.app (.var (.bound 1 "z")) (value 2))
  have heval₂ : (evaluate watch 9 env₁ false () "b := λz.zw").2 =
      .ok ⟨"b := λz.zw", env₁.put "b" ⟨"b", value₂⟩, .ok (.definition "b" value₂)⟩ := by
    rw [evaluate_eq_run watch 9 () hparse₂ rfl rfl, Reducer.run_eq_iterate]
    rfl
  obtain ⟨hsame, hcommute⟩ := evaluate_frame env henv
  obtain ⟨o₂, o₁, hfirst, -, hsecond, -, hget⟩ := hcommute "a := w" "b := λz.zw" "a" "b" _ _
    hparse₁ hparse₂ (by decide) (by decide) (by decide) Unit Unit watch watch 9 9 false false
    () () _ _ _ _ heval₁ rfl heval₂ rfl
  exact ⟨henv, henv', hagree, (hsame env' "λz.wz" hagree Unit watch 9 false ()).2, o₂, o₁, hfirst,
    hsecond, (hget "a").trans rfl, (hget "b").trans rfl⟩

end UntypedLambda
