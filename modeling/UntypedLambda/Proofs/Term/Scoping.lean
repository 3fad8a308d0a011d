import UntypedLambda.Proofs.Term.BindingPass

/-!
# Names and the functions that bind them

In an expression as it is written, a name belongs to the nearest function around it that has this
name for its parameter, and is free if there is none.  This file shows that resolving names comes
to exactly that at every place, and that there is nothing left to do for a second time.

* `Expr.freeNames` — the free names of an expression.
* `Term.nearest` — the variable that a name stands for inside of given functions.
* `Term.at?_bindAt` — every name becomes that variable.
* `Term.bindIn_bindAt` — what has been resolved stays as it is.
* `Term.bind_resolves_names` — the same for a whole expression, with its numbers.
-/

namespace UntypedLambda

/-- The names that no function of the expression binds, from left to right. -/
def Expr.freeNames : Expr → List String
  | .var x => [x]
  | .app fn arg => fn.freeNames ++ arg.freeNames
  | .lam x body => body.freeNames.filter fun y => decide (y ≠ x)

/-- The variable that a name stands for inside of functions with the parameters given, innermost
first: the nearest one with this name binds it, and if there is none it is free. -/
def Term.nearest (params : List Var) (x : String) : Var :=
  (params.find? fun param => decide (param.name = x)).getD (.free x)

namespace Context

/-- The parameters of the functions. -/
def params (ctx : Context) : List Var := ctx.map fun e => .bound e.1 e.2

/-- The nearest function with a name is the one that the context has for it. -/
theorem nearest_params (ctx : Context) (x : String) :
    Term.nearest ctx.params x = ((ctx.idOf? x).map fun i => Var.bound i x).getD (.free x) := by
  induction ctx with
  | nil => rfl
  | cons e ctx ih =>
      obtain ⟨i, y⟩ := e
      by_cases h : y = x
      · simp [Term.nearest, params, idOf?, Var.name, h]
      · rw [idOf?, if_neg h, ← ih]
        simp [Term.nearest, params, Var.name, h]

end Context

namespace Term

/-! ## Every name in its place -/

/-- Every name becomes the variable that it stands for in the functions around it. -/
theorem at?_bindAt {e : Expr} {ctx : Context} {s : Supply} {p : Path} {x : String}
    (h : (ofExpr e).at? p = some (.var (.free x))) :
    (e.bindAt ctx s).1.at? p =
      some (.var (nearest ((e.bindAt ctx s).1.enclosing p ++ ctx.params) x)) := by
  induction e generalizing ctx s p with
  | var y =>
      cases p with
      | cons turn p => simp [ofExpr, at?] at h
      | nil =>
          cases h
          have hnearest := ctx.nearest_params x
          simp only [Expr.bindAt]
          split
          · next i hi =>
              rw [hi] at hnearest
              exact congrArg (fun v => some (Term.var v)) hnearest.symm
          · next hi =>
              rw [hi] at hnearest
              exact congrArg (fun v => some (Term.var v)) hnearest.symm
  | app fn arg ihf iha =>
      rcases p with _ | ⟨_ | _ | _, p⟩
      · cases h
      · exact ihf h
      · exact iha h
      · cases h
  | lam y body ih =>
      rcases p with _ | ⟨_ | _ | _, p⟩
      · cases h
      · cases h
      · cases h
      · have hbody := @ih ((s.fresh.1, y) :: ctx) s.fresh.2 p h
        simp only [Expr.bindAt, enclosing, List.append_assoc]
        exact hbody

/-- The names that stay free are those that no function of the expression or around it binds. -/
theorem freeNames_bindAt (e : Expr) (ctx : Context) (s : Supply) :
    (e.bindAt ctx s).1.freeNames = e.freeNames.filter fun x => decide (x ∉ ctx.names) := by
  induction e generalizing ctx s with
  | var x =>
      simp only [Expr.bindAt]
      split
      · next i hi =>
          have hmem := Context.mem_names (Context.mem_of_idOf? hi)
          simp [freeNames, Expr.freeNames, hmem]
      · next hi =>
          have hnot := Context.idOf?_eq_none_iff.1 hi
          simp [freeNames, Expr.freeNames, hnot]
  | app fn arg ihf iha =>
      show (fn.bindAt ctx s).1.freeNames ++ (arg.bindAt ctx (fn.bindAt ctx s).2).1.freeNames = _
      rw [ihf, iha, Expr.freeNames, List.filter_append]
  | lam x body ih =>
      show (body.bindAt ((s.fresh.1, x) :: ctx) s.fresh.2).1.freeNames = _
      rw [ih, Expr.freeNames, List.filter_filter]
      apply List.filter_congr
      intro y _
      show decide (y ∉ x :: ctx.names) = _
      by_cases hy : y = x
      · simp [hy]
      · simp [hy]

/-! ## A second time -/

@[simp] theorem unbind_ofExpr (e : Expr) : (ofExpr e).unbind = ofExpr e := by
  induction e with
  | var x => rfl
  | app fn arg ihf iha => rw [ofExpr, unbind, ihf, iha]
  | lam x body ih => rw [ofExpr, unbind, ih]; rfl

/-- What has been resolved stays as it is, in the same functions. -/
theorem bindIn_bindAt (e : Expr) {ctx : Context} {s : Supply} {b : Binder}
    (hlive : b.scopes.Live) (h : b.scopes.Holds ctx) :
    ((e.bindAt ctx s).1.bindIn b).1 = (e.bindAt ctx s).1 := by
  induction e generalizing ctx s b with
  | var x =>
      simp only [Expr.bindAt]
      split
      · rfl
      · next hi =>
          have hnone := (h.innermost? x).trans hi
          simp only [bindIn, hnone]
  | app fn arg ihf iha =>
      have hscopes := bindIn_scopes (fn.bindAt ctx s).1 hlive
      show Term.app _ _ = Term.app _ _
      rw [ihf hlive h]
      refine congrArg (Term.app _) (iha ?_ ?_)
      · rw [hscopes]
        exact hlive
      · rw [hscopes]
        exact h
  | lam x body ih =>
      apply congrArg (Term.lam (.bound s.fresh.1 x))
      exact ih (hlive.enter x s.fresh.1) (h.enter s.fresh.1 x)

/-! ## Whole expressions -/

/-- **Names are resolved by the nearest function.**  In what comes of an expression, every variable
belongs to the nearest function around it that has its name, and is free if there is none; so it
means what the expression means, and has the free names of the expression.  The functions are
numbered 1, 2, 3 and so on from left to right, each one before its body.  Nothing but numbers has
been added, and resolving names a second time changes nothing, with the numbers or without. -/
theorem bind_resolves_names (e : Expr) :
    let t := (ofExpr e).bind
    (∀ p x, (ofExpr e).at? p = some (.var (.free x)) →
      t.at? p = some (.var (nearest (t.enclosing p) x))) ∧
    t.nameless = e.nameless ∧
    t.freeNames = e.freeNames ∧
    t.binders = ((List.range e.functions).map fun k : Nat => (1 + k : Int)) ∧
    t.unbind = ofExpr e ∧ t.bind = t ∧ t.unbind.bind = t := by
  intro t
  have ht : t = (e.bindAt [] Supply.empty).1 := bind_ofExpr e
  have hunbind : t.unbind = ofExpr e := (unbind_bindIn _ _).trans (unbind_ofExpr e)
  refine ⟨?_, nameless_bind_ofExpr e, ?_, ?_, hunbind, ?_, ?_⟩
  · intro p x hp
    rw [ht, at?_bindAt hp]
    simp [Context.params]
  · rw [ht, freeNames_bindAt]
    simp [Context.names]
  · rw [ht, binders_bindAt, Supply.numbers_eq_map_range]
    rfl
  · rw [ht]
    exact bindIn_bindAt e Scopes.live_empty fun _ => rfl
  · rw [hunbind]

/-- The theorem at `λx.(λx.xy)x`: the last `x` belongs to the outer function, and the one before it
to the inner one. -/
theorem bind_resolves_names_shadowed :
    let e : Expr := .lam "x" (.app (.lam "x" (.app (.var "x") (.var "y"))) (.var "x"))
    let t := (ofExpr e).bind
    (ofExpr e).at? [.body, .arg] = some (.var (.free "x")) ∧
    t.at? [.body, .arg] = some (.var (.bound 1 "x")) ∧
    t.at? [.body, .fn, .body, .fn] = some (.var (.bound 2 "x")) ∧
    t.freeNames = ["y"] ∧ t.binders = [1, 2] ∧ t.bind = t := by
  intro e t
  obtain ⟨hplaces, -, hfree, hbinders, -, hbind, -⟩ := bind_resolves_names e
  exact ⟨rfl, hplaces [.body, .arg] "x" rfl, hplaces [.body, .fn, .body, .fn] "x" rfl, hfree,
    hbinders, hbind⟩

end Term

end UntypedLambda
