import UntypedLambda.Term

/-!
# Terms without names

The lambda calculus in which a variable is the number of functions between it
and the one that binds it.  Terms that differ in the choice of names and numbers
only have the same nameless form, so this is the calculus in which the meaning of
the other operations is stated.

* `Nameless.contract` — one contraction, with indices shifted as needed.
* `Nameless.instantiate` — free names replaced by terms.
* `Nameless.Beta` — contraction of any redex.
* `Nameless.step?` — contraction of the leftmost-outermost redex.
* `Term.nameless` — the nameless form of a term.
-/

namespace UntypedLambda

/-- A lambda term without names. -/
inductive Nameless where
  /-- Bound by the function that is `i` functions further out. -/
  | index (i : Nat)
  /-- A free name. -/
  | free (name : String)
  /-- Bound by a function with number `id` that is not part of the term. -/
  | loose (id : Int)
  /-- The application of one term to another. -/
  | app (fn arg : Nameless)
  /-- A function. -/
  | lam (body : Nameless)
  deriving DecidableEq, Repr, Inhabited

namespace Nameless

/-- Makes room for one more function around a term: indices from `depth` on grow
by one. -/
def shift (depth : Nat) : Nameless → Nameless
  | .index i => .index (if i < depth then i else i + 1)
  | .free name => .free name
  | .loose id => .loose id
  | .app fn arg => .app (fn.shift depth) (arg.shift depth)
  | .lam body => .lam (body.shift (depth + 1))

/-- Replaces index `depth` by a term, and closes the gap it leaves. -/
def subst (t : Nameless) (depth : Nat) (u : Nameless) : Nameless :=
  match t with
  | .index i => if i < depth then .index i else if i = depth then u else .index (i - 1)
  | .free name => .free name
  | .loose id => .loose id
  | .app fn arg => .app (fn.subst depth u) (arg.subst depth u)
  | .lam body => .lam (body.subst (depth + 1) (u.shift 0))

/-- Contracts the application of the function with the body given. -/
def contract (body arg : Nameless) : Nameless := body.subst 0 arg

/-- Replaces free names by terms, all of them at once.  What is put in is not looked at
again, and under a function it is shifted, so that nothing in it is captured. -/
def instantiate (values : String → Option Nameless) : Nameless → Nameless
  | .index i => .index i
  | .free name => (values name).getD (.free name)
  | .loose id => .loose id
  | .app fn arg => .app (fn.instantiate values) (arg.instantiate values)
  | .lam body => .lam (body.instantiate fun name => (values name).map (shift 0))

/-- One contraction anywhere in a term. -/
inductive Beta : Nameless → Nameless → Prop
  /-- Contracts a redex. -/
  | head (body arg : Nameless) : Beta (.app (.lam body) arg) (contract body arg)
  /-- Contracts inside of the function part. -/
  | fn {f f' : Nameless} (a : Nameless) : Beta f f' → Beta (.app f a) (.app f' a)
  /-- Contracts inside of the argument. -/
  | arg (f : Nameless) {a a' : Nameless} : Beta a a' → Beta (.app f a) (.app f a')
  /-- Contracts inside of the body. -/
  | body {b b' : Nameless} : Beta b b' → Beta (.lam b) (.lam b')

/-- Is the term a function? -/
def isLam : Nameless → Bool
  | .lam _ => true
  | _ => false

/-- No application of a function stands anywhere in the term. -/
def IsNormal : Nameless → Prop
  | .app fn arg => fn.isLam = false ∧ fn.IsNormal ∧ arg.IsNormal
  | .lam body => body.IsNormal
  | _ => True

/-- Contracts the leftmost-outermost redex. -/
def step? : Nameless → Option Nameless
  | .app (.lam body) arg => some (contract body arg)
  | .app fn arg =>
      match fn.step? with
      | some fn' => some (.app fn' arg)
      | none => arg.step?.map (.app fn)
  | .lam body => body.step?.map .lam
  | _ => none

/-- The leftmost-outermost step is a contraction. -/
theorem beta_of_step? {t u : Nameless} (h : t.step? = some u) : Beta t u := by
  fun_induction step? t generalizing u with
  | case1 body arg => cases h; exact .head body arg
  | case2 fn arg _ fn' hf ih => cases h; exact .fn arg (ih hf)
  | case3 fn arg _ hf ihf iha =>
      obtain ⟨arg', ha, rfl⟩ := Option.map_eq_some_iff.1 h
      exact .arg fn (iha ha)
  | case4 body ih =>
      obtain ⟨body', hb, rfl⟩ := Option.map_eq_some_iff.1 h
      exact .body (ih hb)
  | case5 => cases h

end Nameless

namespace Term

/-- The nameless form of a variable, given the functions around it, innermost
first; a function without a number binds nothing. -/
def namelessVar (scope : List (Option Int)) : Var → Nameless
  | .free name => .free name
  | .bound id _ =>
      match scope.idxOf? (some id) with
      | some i => .index i
      | none => .loose id

/-- The nameless form of a term, given the functions around it, innermost
first. -/
def namelessIn (scope : List (Option Int)) : Term → Nameless
  | .var v => namelessVar scope v
  | .app fn arg => .app (fn.namelessIn scope) (arg.namelessIn scope)
  | .lam param body => .lam (body.namelessIn (param.id? :: scope))

/-- The nameless form of a term. -/
def nameless (t : Term) : Nameless := t.namelessIn []

end Term

namespace Expr

/-- The nameless form of a raw expression, given the parameters around it,
innermost first: a name is bound by the nearest function with that parameter. -/
def namelessIn (scope : List String) : Expr → Nameless
  | .var name =>
      match scope.idxOf? name with
      | some i => .index i
      | none => .free name
  | .app fn arg => .app (fn.namelessIn scope) (arg.namelessIn scope)
  | .lam param body => .lam (body.namelessIn (param :: scope))

/-- The nameless form of a raw expression. -/
def nameless (e : Expr) : Nameless := e.namelessIn []

end Expr

end UntypedLambda
