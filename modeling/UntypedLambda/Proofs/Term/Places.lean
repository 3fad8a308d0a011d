import UntypedLambda.Proofs.Nameless.Redexes
import UntypedLambda.Proofs.Reduction.Leftmost

/-!
# The places of a term

Parts of a term are found by the same paths as parts of its nameless form, and
the redexes of the two stand at the same places.

* `Term.paramAt?`, `Term.enclosing` — the function at a place, and those around it.
* `Term.Contracts` — one contraction of the leftmost-outermost redex, with its
  place and what becomes of the supply.
* `Term.exists_contracts` — it is what `Term.step?` performs.
* `redexes_namelessIn`, `at?_namelessIn`, `namelessIn_put` — the nameless form has
  the same places; a part is read in the scope of its place.
-/

namespace UntypedLambda

namespace Term

/-- The part that stands at a path. -/
def at? : Term → Path → Option Term
  | t, [] => some t
  | .app fn _, .fn :: p => fn.at? p
  | .app _ arg, .arg :: p => arg.at? p
  | .lam _ body, .body :: p => body.at? p
  | _, _ :: _ => none

/-- The term with another part at a path. -/
def put : Term → Path → Term → Term
  | _, [], u => u
  | .app fn arg, .fn :: p, u => .app (fn.put p u) arg
  | .app fn arg, .arg :: p, u => .app fn (arg.put p u)
  | .lam param body, .body :: p, u => .lam param (body.put p u)
  | t, _ :: _, _ => t

/-- The places of all redexes: an application before its parts, and the function
part before the argument. -/
def redexes : Term → List Path
  | .app fn arg =>
      (if fn.isLam then [[]] else []) ++ fn.redexes.map (.fn :: ·) ++ arg.redexes.map (.arg :: ·)
  | .lam _ body => body.redexes.map (.body :: ·)
  | .var _ => []

/-- The functions around a place, innermost first, given those around the term. -/
def scopeAt : Term → Path → List (Option Int) → List (Option Int)
  | .app fn _, .fn :: p, scope => fn.scopeAt p scope
  | .app _ arg, .arg :: p, scope => arg.scopeAt p scope
  | .lam param body, .body :: p, scope => body.scopeAt p (param.id? :: scope)
  | _, _, scope => scope

/-- The parameter of a term that is a function. -/
def param? : Term → Option Var
  | .lam param _ => some param
  | _ => none

/-- The parameter of the function that stands at a path. -/
def paramAt? (t : Term) (p : Path) : Option Var := (t.at? p).bind param?

/-- The parameters of the functions around a place, innermost first. -/
def enclosing : Term → Path → List Var
  | .app fn _, .fn :: p => fn.enclosing p
  | .app _ arg, .arg :: p => arg.enclosing p
  | .lam param body, .body :: p => body.enclosing p ++ [param]
  | _, _ => []

theorem paramAt?_eq_some_iff {t : Term} {p : Path} {param : Var} :
    t.paramAt? p = some param ↔ ∃ body, t.at? p = some (.lam param body) := by
  unfold paramAt?
  rw [Option.bind_eq_some_iff]
  constructor
  · rintro ⟨r, hr, hparam⟩
    cases r with
    | var v => cases hparam
    | app fn arg => cases hparam
    | lam param' body =>
        cases hparam
        exact ⟨body, hr⟩
  · rintro ⟨body, hr⟩
    exact ⟨_, hr, rfl⟩

/-- The functions around a place are those of the term and those around it. -/
theorem scopeAt_eq (t : Term) (p : Path) (scope : List (Option Int)) :
    t.scopeAt p scope = (t.enclosing p).map Var.id? ++ scope := by
  fun_induction scopeAt t p scope with
  | case1 fn arg p scope ih => exact ih
  | case2 fn arg p scope ih => exact ih
  | case3 param body p scope ih =>
      rw [ih, enclosing, List.map_append, List.append_assoc]
      rfl
  | case4 t p scope hfn harg hbody =>
      rw [enclosing, List.map_nil, List.nil_append] <;> assumption

/-! ## The nameless form -/

@[simp] theorem isLam_namelessIn (t : Term) (scope : List (Option Int)) :
    (t.namelessIn scope).isLam = t.isLam := by
  cases t with
  | var v =>
      cases v with
      | free name => rfl
      | bound i name =>
          simp only [namelessIn, namelessVar]
          split <;> rfl
  | app fn arg => rfl
  | lam param body => rfl

@[simp] theorem redexes_namelessIn (t : Term) (scope : List (Option Int)) :
    (t.namelessIn scope).redexes = t.redexes := by
  induction t generalizing scope with
  | var v =>
      cases v with
      | free name => rfl
      | bound i name =>
          simp only [namelessIn, namelessVar]
          split <;> rfl
  | app fn arg ihf iha =>
      simp only [namelessIn, Nameless.redexes, redexes, isLam_namelessIn, ihf, iha]
  | lam param body ih => simp only [namelessIn, Nameless.redexes, redexes, ih]

theorem redexes_eq_nil_iff (t : Term) : t.redexes = [] ↔ t.IsNormal := by
  induction t with
  | var v => simp [redexes, IsNormal]
  | app fn arg ihf iha => cases h : fn.isLam <;> simp [redexes, IsNormal, h, ← ihf, ← iha]
  | lam param body ih => simp [redexes, IsNormal, ← ih]

/-- A term is normal exactly when its nameless form is. -/
theorem isNormal_nameless_iff (t : Term) : t.nameless.IsNormal ↔ t.IsNormal := by
  rw [← Nameless.redexes_eq_nil_iff, ← redexes_eq_nil_iff, nameless, redexes_namelessIn]

theorem at?_namelessIn {t r : Term} {p : Path} (h : t.at? p = some r)
    (scope : List (Option Int)) :
    (t.namelessIn scope).at? p = some (r.namelessIn (t.scopeAt p scope)) := by
  fun_induction at? t p generalizing scope with
  | case1 t =>
      cases h
      simp [Nameless.at?, scopeAt]
  | case2 fn arg p ih => exact ih h scope
  | case3 fn arg p ih => exact ih h scope
  | case4 param body p ih => exact ih h _
  | case5 => cases h

theorem namelessIn_put {t r : Term} {p : Path} (h : t.at? p = some r) (u : Term)
    (scope : List (Option Int)) :
    (t.put p u).namelessIn scope =
      (t.namelessIn scope).put p (u.namelessIn (t.scopeAt p scope)) := by
  fun_induction at? t p generalizing scope with
  | case1 t => simp [put, Nameless.put, scopeAt]
  | case2 fn arg p ih => simp only [put, namelessIn, Nameless.put, scopeAt, ih h]
  | case3 fn arg p ih => simp only [put, namelessIn, Nameless.put, scopeAt, ih h]
  | case4 param body p ih => simp only [put, namelessIn, Nameless.put, scopeAt, ih h]
  | case5 => cases h

/-! ## The leftmost-outermost contraction -/

/-- `st` contracts the leftmost-outermost redex of `t`, which stands at `p`, with
numbers drawn from `s`. -/
structure Contracts (t : Term) (s : Supply) (p : Path) (st : Step) : Prop where
  /-- No redex stands further to the left or outside. -/
  first : t.redexes.head? = some p
  /-- The redex is the part at that place. -/
  place : t.at? p = some st.contraction.redex
  /-- It is the application of a function, and contracted by substitution. -/
  contracts : ∃ param body, st.contraction.fn = .lam param body ∧
    contract param body st.contraction.arg s = (st.contraction.contractum, st.supply)
  /-- Nothing else changes. -/
  result : st.result = t.put p st.contraction.contractum

namespace Contracts

variable {t : Term} {s : Supply} {p : Path} {st : Step}

theorem head (param : Var) (body arg : Term) (s : Supply) :
    Contracts (.app (.lam param body) arg) s [] (Step.contract param body arg s) where
  first := rfl
  place := rfl
  contracts := ⟨param, body, rfl, rfl⟩
  result := rfl

theorem fn (h : Contracts t s p st) (hl : t.isLam = false) (arg : Term) :
    Contracts (.app t arg) s (.fn :: p) (st.inside (.app · arg)) where
  first := by simp [redexes, hl, h.first]
  place := h.place
  contracts := h.contracts
  result := by
    show Term.app st.result arg = _
    rw [h.result]
    rfl

theorem arg (h : Contracts t s p st) {fn : Term} (hl : fn.isLam = false) (hn : fn.IsNormal) :
    Contracts (.app fn t) s (.arg :: p) (st.inside (.app fn)) where
  first := by simp [redexes, hl, (redexes_eq_nil_iff fn).2 hn, h.first]
  place := h.place
  contracts := h.contracts
  result := by
    show Term.app fn st.result = _
    rw [h.result]
    rfl

theorem body (h : Contracts t s p st) (param : Var) :
    Contracts (.lam param t) s (.body :: p) (st.inside (.lam param)) where
  first := by simp [redexes, h.first]
  place := h.place
  contracts := h.contracts
  result := by
    show Term.lam param st.result = _
    rw [h.result]
    rfl

end Contracts

/-- A step contracts the leftmost-outermost redex. -/
theorem exists_contracts {t : Term} {s : Supply} {st : Step} (h : t.step? s = some st) :
    ∃ p, Contracts t s p st := by
  fun_induction step? t s generalizing st with
  | case1 => cases h
  | case2 param body s ih =>
      obtain ⟨st', hst, rfl⟩ := Option.map_eq_some_iff.1 h
      obtain ⟨p, hp⟩ := ih hst
      exact ⟨_, hp.body param⟩
  | case3 param body arg s =>
      cases h
      exact ⟨_, Contracts.head param body arg s⟩
  | case4 fn arg s hfn st' hst ih =>
      cases h
      obtain ⟨p, hp⟩ := ih hst
      exact ⟨_, hp.fn (isLam_eq_false hfn) arg⟩
  | case5 fn arg s hfn hnone ihf iha =>
      obtain ⟨st', hst, rfl⟩ := Option.map_eq_some_iff.1 h
      obtain ⟨p, hp⟩ := iha hst
      exact ⟨_, hp.arg (isLam_eq_false hfn) ((step?_eq_none_iff fn s).1 hnone)⟩

end Term

end UntypedLambda
