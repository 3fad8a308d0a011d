import Mathlib.Data.List.Nodup
import UntypedLambda.Proofs.Names
import UntypedLambda.Proofs.Term.Binding
import UntypedLambda.Term.Printer

/-!
# Choosing names

The printer keeps two tables of the names in use, and changes them on the way.
`Term.display` says which names it chooses with a context that is passed down.

* `Term.nameIn_eq` — the two agree, and in the end all names are given up again.
* `Term.namelessIn_display` — no name is captured: the expression shown means what the
  term means.
* `Term.tidy_display` — a parameter never has a name that is in use around it.
-/

namespace UntypedLambda

namespace Term

/-- The expression that a term is shown as, in the functions of a context; the free
names are those of the whole term. -/
def display (free : List String) (ctx : Context) : Term → Expr
  | .var (.free x) => .var x
  | .var (.bound i x) => .var ((ctx.nameOf? i).getD x)
  | .app fn arg => .app (fn.display free ctx) (arg.display free ctx)
  | .lam (.bound i x) body =>
      let shown := showName (free ++ ctx.names) x
      .lam shown (body.display free ((i, shown) :: ctx))
  | .lam (.free x) body => .lam x (body.display free ctx)

/-! ## The printer -/

/-- Leaving functions gives up their names. -/
theorem closeParams_eq {n : Names} {free : List String} {inner outer : Context} (body : Expr)
    (hp : Context.Proper free (inner ++ outer)) (h : n.Holds free (inner ++ outer)) :
    ∃ n', n'.Holds free outer ∧
      closeParams (inner.map fun e => (e.2, some e.1)) body n =
        .ok (Expr.abstract inner.names body, n') := by
  have hnodup := hp.ids
  rw [Context.ids_append] at hnodup
  obtain ⟨hinner, -, hdisjoint⟩ := List.nodup_append.1 hnodup
  have hids : (inner.map fun e => (e.2, some e.1)).reverse.filterMap (·.2) = inner.ids.reverse := by
    rw [← List.map_reverse, List.filterMap_map, Context.ids, ← List.map_reverse]
    exact congrFun List.filterMap_eq_map _
  have hheld : ∀ i ∈ inner.ids.reverse, i ∈ Context.ids (inner ++ outer) := by
    intro i hi
    rw [Context.ids_append]
    exact List.mem_append_left _ (List.mem_reverse.1 hi)
  obtain ⟨n', hrelease, hn'⟩ := h.releaseAll (List.nodup_reverse.2 hinner) hheld
  refine ⟨n', hn'.congr ?_, ?_⟩
  · -- what is left of the context are the functions that were not released
    intro e
    rw [List.mem_filter, List.mem_append, decide_eq_true_eq, List.mem_reverse]
    constructor
    · rintro ⟨he | he, hnot⟩
      · exact absurd (List.mem_map_of_mem he) hnot
      · exact he
    · intro he
      refine ⟨.inr he, ?_⟩
      intro hmem
      exact hdisjoint e.1 hmem e.1 (List.mem_map_of_mem he) rfl
  · rw [closeParams, hids, hrelease]
    simp only [List.map_map, Context.names]
    rfl

/-- The printer shows a term as its context says, and gives up the names of the functions
it has left. -/
theorem nameIn_eq {t : Term} {n : Names} {free : List String} (inner outer : Context)
    (ht : t.ClosedIn (Context.ids (inner ++ outer))) (hp : Context.Proper free (inner ++ outer))
    (h : n.Holds free (inner ++ outer)) :
    ∃ n', n'.Holds free outer ∧
      t.nameIn (inner.map fun e => (e.2, some e.1)) n =
        .ok (Expr.abstract inner.names (t.display free (inner ++ outer)), n') := by
  induction t generalizing n inner outer with
  | var v =>
      cases v with
      | free x => exact closeParams_eq (.var x) hp h
      | bound i x =>
          obtain ⟨y, hmem⟩ := Context.exists_mem_of_mem_ids (ht.loose i (by simp [looseIds, Var.id?]))
          have hlookup : n.lookup i x = (y, n) := by
            rw [Names.lookup, (h.shown i y).2 hmem]
          rw [nameIn, display, hlookup, Context.nameOf?_of_mem hp.ids hmem]
          exact closeParams_eq (.var y) hp h
  | app fn arg ihf iha =>
      obtain ⟨n₁, h₁, hfn⟩ := ihf [] (inner ++ outer) ht.fn hp h
      obtain ⟨n₂, h₂, harg⟩ := iha [] (inner ++ outer) ht.arg hp h₁
      rw [nameIn]
      simp only [List.map_nil] at hfn harg
      rw [hfn]
      simp only
      rw [harg]
      exact closeParams_eq _ hp h₂
  | lam param body ih =>
      cases param with
      | free x => exact absurd ht.numbered.1 (by simp [Var.id?])
      | bound i x =>
          obtain ⟨hi, hbody⟩ := ht.body (showName (free ++ Context.names (inner ++ outer)) x)
          obtain ⟨hname, hn⟩ := h.claim hi x
          have hnot := showName_notMem (free ++ Context.names (inner ++ outer)) x
          rw [nameIn, hname]
          exact ih ((i, _) :: inner) outer hbody (hp.enter hi hnot) hn

/-- What a hygienic term without loose variables is shown as. -/
theorem named_eq {t : Term} (ht : t.ClosedIn []) :
    t.named = .ok (t.display t.freeNames []) := by
  obtain ⟨n', -, hn⟩ := nameIn_eq [] [] ht (Context.proper_nil t.freeNames)
    (Names.holds_ofFree t.freeNames)
  rw [named]
  simp only [List.map_nil] at hn
  rw [hn]
  rfl

/-! ## The names chosen -/

/-- No name is captured: in the expression shown, every name stands for the function or
the free name that it stands for in the term. -/
theorem namelessIn_display {t : Term} {free : List String} {ctx : Context}
    (ht : t.ClosedIn ctx.ids) (hp : ctx.Proper free) (hfree : ∀ x ∈ t.freeNames, x ∈ free) :
    (t.display free ctx).namelessIn ctx.names = t.namelessIn ctx.scope := by
  induction t generalizing ctx with
  | var v =>
      cases v with
      | free x =>
          have hx : x ∉ ctx.names := by
            intro hm
            exact hp.notFree x hm (hfree x (by simp [freeNames]))
          exact Context.namelessIn_var_free hx
      | bound i x =>
          obtain ⟨y, hmem⟩ := Context.exists_mem_of_mem_ids (ht.loose i (by simp [looseIds, Var.id?]))
          rw [display, Context.nameOf?_of_mem hp.ids hmem]
          exact (Context.namelessIn_var hp.ids (Context.idOf?_of_mem hp.names hmem) x).symm
  | app fn arg ihf iha =>
      have hf := ihf ht.fn hp fun x hx => hfree x (List.mem_append_left _ hx)
      have ha := iha ht.arg hp fun x hx => hfree x (List.mem_append_right _ hx)
      rw [display, Expr.namelessIn, hf, ha, namelessIn]
  | lam param body ih =>
      cases param with
      | free x => exact absurd ht.numbered.1 (by simp [Var.id?])
      | bound i x =>
          obtain ⟨hi, hbody⟩ := ht.body (showName (free ++ ctx.names) x)
          have hnot := showName_notMem (free ++ ctx.names) x
          exact congrArg Nameless.lam (ih hbody (hp.enter hi hnot) hfree)

end Term

namespace Expr

/-- No parameter has a name that is taken, or that of a function around it. -/
def Tidy (taken : List String) : Expr → Prop
  | .var _ => True
  | .app fn arg => fn.Tidy taken ∧ arg.Tidy taken
  | .lam param body => param ∉ taken ∧ body.Tidy (param :: taken)

theorem Tidy.congr {taken taken' : List String} (h : ∀ x, x ∈ taken ↔ x ∈ taken') {e : Expr}
    (he : e.Tidy taken) : e.Tidy taken' := by
  induction e generalizing taken taken' with
  | var x => trivial
  | app fn arg ihf iha => exact ⟨ihf h he.1, iha h he.2⟩
  | lam x body ih =>
      refine ⟨mt (h x).2 he.1, ih ?_ he.2⟩
      intro y
      rw [List.mem_cons, List.mem_cons, h y]

/-- The parameters of all functions in an expression. -/
def params : Expr → List String
  | .var _ => []
  | .app fn arg => fn.params ++ arg.params
  | .lam param body => param :: body.params

end Expr

/-- Entering a function puts its name in use. -/
theorem Context.mem_append_names_cons (free : List String) (ctx : Context) (i : Int)
    (x y : String) : y ∈ free ++ Context.names ((i, x) :: ctx) ↔ y ∈ x :: (free ++ ctx.names) := by
  simp only [Context.names, List.map_cons, List.mem_append, List.mem_cons]
  exact or_left_comm

namespace Term

/-- A parameter is shown under a name that is not in use around it. -/
theorem tidy_display {t : Term} (ht : t.Numbered) (free : List String) (ctx : Context) :
    (t.display free ctx).Tidy (free ++ ctx.names) := by
  induction t generalizing ctx with
  | var v => cases v <;> trivial
  | app fn arg ihf iha => exact ⟨ihf ht.1 ctx, iha ht.2 ctx⟩
  | lam param body ih =>
      cases param with
      | free x => exact absurd ht.1 (by simp [Var.id?])
      | bound i x =>
          exact ⟨showName_notMem _ x, (ih ht.2 _).congr (Context.mem_append_names_cons free ctx i _)⟩

/-- In a context, an expression whose names do not clash is shown as it was written. -/
theorem display_bindAt (e : Expr) {free : List String} {ctx : Context} {s : Supply}
    (hs : ctx.Below s) (he : e.Tidy (free ++ ctx.names)) :
    (e.bindAt ctx s).1.display free ctx = e := by
  induction e generalizing ctx s with
  | var x =>
      simp only [Expr.bindAt]
      split
      · next i hi => rw [display, Context.nameOf?_of_mem hs.nodup (Context.mem_of_idOf? hi)]; rfl
      · rfl
  | app fn arg ihf iha =>
      have hs' := bindAt_supply fn ctx s ▸ hs.draw fn.functions
      show Expr.app _ _ = _
      rw [ihf hs he.1, iha hs' he.2]
  | lam x body ih =>
      have hbody : body.Tidy (free ++ Context.names ((s.fresh.1, x) :: ctx)) :=
        he.2.congr fun y => (Context.mem_append_names_cons free ctx s.fresh.1 x y).symm
      show Expr.lam (showName _ x) (display free ((_, showName _ x) :: ctx) _) = _
      rw [showName_of_notMem he.1, ih (hs.enter x) hbody]

/-- An expression whose names do not clash is shown as it was written. -/
theorem named_bind_ofExpr {e : Expr} (h : e.Tidy (ofExpr e).bind.freeNames) :
    (ofExpr e).bind.named = .ok e := by
  rw [named_eq (closedIn_bind_ofExpr e)]
  refine congrArg Except.ok ?_
  conv => lhs; arg 3; rw [bind_ofExpr]
  exact display_bindAt e (Context.below_nil Supply.empty) (by rwa [Context.names, List.map_nil, List.append_nil])

end Term

end UntypedLambda
