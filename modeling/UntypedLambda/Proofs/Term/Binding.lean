import UntypedLambda.Proofs.Context
import UntypedLambda.Term.Binder

/-!
# Resolving the names of an expression

The binder keeps a table of the open functions by name, and changes it on the way.
`Expr.bindAt` says the same with a context that is passed down.

* `Term.bindIn_ofExpr` — the two agree, and the table is as it was before.
* `Term.namelessIn_bindAt` — resolving names keeps the meaning of an expression.
* `Term.closedIn_bindAt` — what comes out is hygienic.
-/

namespace UntypedLambda

namespace Expr

/-- The term of an expression that stands in the functions of a context. -/
def bindAt (ctx : Context) : Expr → Supply → Term × Supply
  | .var x, s =>
      match ctx.idOf? x with
      | some i => (.var (.bound i x), s)
      | none => (.var (.free x), s)
  | .app fn arg, s =>
      let fn' := fn.bindAt ctx s
      let arg' := arg.bindAt ctx fn'.2
      (.app fn'.1 arg'.1, arg'.2)
  | .lam x body, s =>
      let drawn := s.fresh
      let body' := body.bindAt ((drawn.1, x) :: ctx) drawn.2
      (.lam (.bound drawn.1 x) body'.1, body'.2)

/-- The number of functions in an expression. -/
def functions : Expr → Nat
  | .var _ => 0
  | .app fn arg => fn.functions + arg.functions
  | .lam _ body => body.functions + 1

end Expr

/-- The functions of the context have different numbers, and the supply has handed out
all of them. -/
structure Context.Below (ctx : Context) (s : Supply) : Prop where
  /-- No two functions share a number. -/
  nodup : ctx.ids.Nodup
  /-- No number is handed out again. -/
  lt : ∀ i ∈ ctx.ids, i < s.next

theorem Context.below_nil (s : Supply) : Context.Below [] s :=
  ⟨List.nodup_nil, fun _ h => by cases h⟩

theorem Context.Below.draw {ctx : Context} {s : Supply} (h : ctx.Below s) (n : Nat) :
    ctx.Below (s.draw n) := by
  refine ⟨h.nodup, fun i hi => ?_⟩
  have := h.lt i hi
  rw [Supply.draw_next]
  omega

theorem Context.Below.enter {ctx : Context} {s : Supply} (h : ctx.Below s) (x : String) :
    Context.Below ((s.fresh.1, x) :: ctx) s.fresh.2 := by
  have hfresh : s.fresh.1 ∉ ctx.ids := fun hm => absurd (h.lt _ hm) (by simp)
  refine ⟨List.nodup_cons.2 ⟨hfresh, h.nodup⟩, fun i hi => ?_⟩
  rw [Supply.fresh_next]
  rcases List.mem_cons.1 hi with rfl | hi
  · exact Int.lt_succ _
  · have := h.lt i hi
    omega

/-! ## The table of open functions -/

/-- The numbers of the functions with a name, innermost first. -/
def Context.idsOf (ctx : Context) (x : String) : List Int :=
  Context.ids (ctx.filter fun e => decide (e.2 = x))

theorem Context.head?_idsOf (ctx : Context) (x : String) : (ctx.idsOf x).head? = ctx.idOf? x := by
  induction ctx with
  | nil => rfl
  | cons e ctx ih =>
      obtain ⟨i, y⟩ := e
      by_cases h : y = x
      · simp [idsOf, ids, idOf?, h]
      · rw [idOf?, if_neg h, ← ih]
        simp [idsOf, h]

namespace Scopes

/-- The table lists the functions of the context. -/
def Holds (sc : Scopes) (ctx : Context) : Prop := ∀ x, (sc.get? x).getD [] = ctx.idsOf x

theorem Holds.innermost? {sc : Scopes} {ctx : Context} (h : sc.Holds ctx) (x : String) :
    sc.innermost? x = ctx.idOf? x := by
  rw [Scopes.innermost?, h x, Context.head?_idsOf]

theorem Holds.enter {sc : Scopes} {ctx : Context} (h : sc.Holds ctx) (i : Int) (x : String) :
    (sc.enter x i).Holds ((i, x) :: ctx) := by
  intro y
  rw [Scopes.enter, Table.get?_put]
  by_cases hxy : x = y
  · subst hxy
    simp [Context.idsOf, Context.ids, h x]
  · rw [if_neg hxy, h y]
    simp [Context.idsOf, Context.ids, hxy]

/-- Leaving a function gives back the table of the functions around it. -/
theorem Holds.leave {sc : Scopes} {ctx : Context} {i : Int} {x : String}
    (h : sc.Holds ((i, x) :: ctx)) : (sc.leave x).2.Holds ctx := by
  have hx : (sc.get? x).getD [] = i :: ctx.idsOf x := by
    rw [h x]
    simp [Context.idsOf, Context.ids]
  intro y
  have hy : x ≠ y → (sc.get? y).getD [] = ctx.idsOf y := by
    intro hxy
    rw [h y]
    simp [Context.idsOf, Context.ids, hxy]
  rw [Scopes.leave, hx]
  rcases hrest : ctx.idsOf x with _ | ⟨j, outer⟩
  · simp only
    rw [Table.get?_erase]
    by_cases hxy : x = y
    · rw [if_pos hxy, ← hxy, hrest]
      rfl
    · rw [if_neg hxy, hy hxy]
  · simp only
    rw [Table.get?_put]
    by_cases hxy : x = y
    · rw [if_pos hxy, ← hxy, hrest]
      rfl
    · rw [if_neg hxy, hy hxy]

end Scopes

namespace Term

/-- The binder resolves an expression as its context says, and ends with the table it
began with. -/
theorem bindIn_ofExpr (e : Expr) {b : Binder} {ctx : Context} (h : b.scopes.Holds ctx) :
    ∃ sc : Scopes, sc.Holds ctx ∧
      (ofExpr e).bindIn b = ((e.bindAt ctx b.supply).1, ⟨(e.bindAt ctx b.supply).2, sc⟩) := by
  induction e generalizing b ctx with
  | var x =>
      refine ⟨b.scopes, h, ?_⟩
      simp only [ofExpr, bindIn, Expr.bindAt, h.innermost? x]
      cases ctx.idOf? x <;> rfl
  | app fn arg ihf iha =>
      obtain ⟨scf, hscf, hf⟩ := ihf h
      obtain ⟨sca, hsca, ha⟩ := iha (b := ⟨(fn.bindAt ctx b.supply).2, scf⟩) hscf
      refine ⟨sca, hsca, ?_⟩
      simp only [ofExpr, bindIn, hf, ha, Expr.bindAt]
  | lam x body ih =>
      obtain ⟨sc, hsc, hb⟩ := ih (b := ⟨b.supply.fresh.2, b.scopes.enter x b.supply.fresh.1⟩)
        (h.enter b.supply.fresh.1 x)
      refine ⟨(sc.leave x).2, hsc.leave, ?_⟩
      simp only [ofExpr, bindIn, Var.name, Var.id?, Binder.enter, hb, Binder.leave, Expr.bindAt]

theorem ids_ofExpr (e : Expr) : (ofExpr e).ids = [] := by
  induction e with
  | var x => rfl
  | app fn arg ihf iha => simp [ofExpr, ids, ihf, iha]
  | lam x body ih => simp [ofExpr, ids, Var.id?, ih]

/-- What a binder makes of a whole expression, and the numbers it draws for that. -/
theorem exists_bind_ofExpr (s : Supply) (e : Expr) :
    ∃ sc, (Binder.ofSupply s).bind (ofExpr e) = ((e.bindAt [] s).1, ⟨(e.bindAt [] s).2, sc⟩) := by
  have hempty : Scopes.Holds Table.empty [] := fun _ => rfl
  obtain ⟨sc, -, hb⟩ := bindIn_ofExpr e (b := ⟨s, Table.empty⟩) hempty
  refine ⟨sc, ?_⟩
  rw [Binder.bind, ids_ofExpr]
  exact hb

/-- Resolving the names of a whole expression. -/
theorem bind_ofExpr (e : Expr) : (ofExpr e).bind = (e.bindAt [] Supply.empty).1 := by
  obtain ⟨sc, hb⟩ := exists_bind_ofExpr Supply.empty e
  rw [Term.bind, hb]

/-! ## What comes out -/

theorem bindAt_supply (e : Expr) (ctx : Context) (s : Supply) :
    (e.bindAt ctx s).2 = s.draw e.functions := by
  induction e generalizing ctx s with
  | var x =>
      simp only [Expr.bindAt]
      split <;> rfl
  | app fn arg ihf iha =>
      show (arg.bindAt ctx (fn.bindAt ctx s).2).2 = _
      rw [iha, ihf, Expr.functions, Supply.draw_add]
  | lam x body ih =>
      show (body.bindAt ((s.fresh.1, x) :: ctx) s.fresh.2).2 = _
      rw [ih, Expr.functions, Supply.draw]

theorem binders_bindAt (e : Expr) (ctx : Context) (s : Supply) :
    (e.bindAt ctx s).1.binders = s.numbers e.functions := by
  induction e generalizing ctx s with
  | var x =>
      simp only [Expr.bindAt]
      split <;> rfl
  | app fn arg ihf iha =>
      show (fn.bindAt ctx s).1.binders ++ (arg.bindAt ctx (fn.bindAt ctx s).2).1.binders = _
      rw [iha, ihf, bindAt_supply, Expr.functions, Supply.numbers_add]
  | lam x body ih =>
      show s.fresh.1 :: (body.bindAt ((s.fresh.1, x) :: ctx) s.fresh.2).1.binders = _
      rw [ih, Expr.functions, Supply.numbers]
      rfl

/-- Every bound variable belongs to a function of the term or of the context. -/
theorem looseIds_bindAt (e : Expr) (ctx : Context) (s : Supply) :
    ∀ i ∈ (e.bindAt ctx s).1.looseIds, i ∈ ctx.ids := by
  induction e generalizing ctx s with
  | var x =>
      intro i hi
      simp only [Expr.bindAt] at hi
      split at hi
      · next j hj =>
          obtain rfl : i = j := by simpa [looseIds, Var.id?] using hi
          exact Context.mem_ids (Context.mem_of_idOf? hj)
      · cases hi
  | app fn arg ihf iha =>
      intro i hi
      exact (List.mem_append.1 hi).elim (ihf ctx s i) (iha ctx _ i)
  | lam x body ih =>
      intro i hi
      obtain ⟨hb, hne⟩ := mem_looseIds_lam.1 hi
      have hmem := ih ((s.fresh.1, x) :: ctx) s.fresh.2 i hb
      exact (List.mem_cons.1 hmem).resolve_left fun heq => hne (by rw [heq]; rfl)

theorem numbered_bindAt (e : Expr) (ctx : Context) (s : Supply) :
    (e.bindAt ctx s).1.Numbered := by
  induction e generalizing ctx s with
  | var x =>
      simp only [Expr.bindAt]
      split <;> trivial
  | app fn arg ihf iha => exact ⟨ihf ctx s, iha ctx _⟩
  | lam x body ih => exact ⟨rfl, ih _ _⟩

/-- What comes out is written with the same names. -/
theorem names_bindAt (e : Expr) (ctx : Context) (s : Supply) :
    (e.bindAt ctx s).1.names = (ofExpr e).names := by
  induction e generalizing ctx s with
  | var x =>
      simp only [Expr.bindAt]
      split <;> rfl
  | app fn arg ihf iha =>
      show (fn.bindAt ctx s).1.names ++ (arg.bindAt ctx (fn.bindAt ctx s).2).1.names = _
      rw [ihf, iha, ofExpr, names]
  | lam x body ih => exact congrArg (x :: ·) (ih _ _)

/-- What comes out has one number for each function. -/
theorem closedIn_bindAt (e : Expr) {ctx : Context} {s : Supply} (h : ctx.Below s) :
    (e.bindAt ctx s).1.ClosedIn ctx.ids where
  numbered := numbered_bindAt e ctx s
  nodup := by
    rw [binders_bindAt]
    exact Supply.nodup_numbers _ _
  disjoint i hi hctx := by
    rw [binders_bindAt, Supply.mem_numbers] at hi
    have := h.lt i hctx
    omega
  loose := looseIds_bindAt e ctx s

/-- Resolving names keeps the meaning of an expression. -/
theorem namelessIn_bindAt (e : Expr) {ctx : Context} {s : Supply} (h : ctx.Below s) :
    (e.bindAt ctx s).1.namelessIn ctx.scope = e.namelessIn ctx.names := by
  induction e generalizing ctx s with
  | var x =>
      simp only [Expr.bindAt]
      split
      · next i hi => exact Context.namelessIn_var h.nodup hi x
      · next hnone =>
          rw [Context.namelessIn_var_free (Context.idOf?_eq_none_iff.1 hnone)]
          rfl
  | app fn arg ihf iha =>
      show Nameless.app _ _ = Nameless.app _ _
      rw [ihf h, iha (bindAt_supply fn ctx s ▸ h.draw fn.functions)]
  | lam x body ih => exact congrArg Nameless.lam (ih (h.enter x))

/-- Resolving the names of a whole expression keeps its meaning. -/
theorem nameless_bind_ofExpr (e : Expr) : (ofExpr e).bind.nameless = e.nameless := by
  rw [bind_ofExpr]
  exact namelessIn_bindAt e (Context.below_nil Supply.empty)

theorem closedIn_bind_ofExpr (e : Expr) : (ofExpr e).bind.ClosedIn [] := by
  rw [bind_ofExpr]
  exact closedIn_bindAt e (Context.below_nil Supply.empty)

end Term

end UntypedLambda
