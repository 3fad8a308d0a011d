import UntypedLambda.Expr
import UntypedLambda.Supply

/-!
# Terms

A `Term` is an expression in which names have been resolved.  A variable is
either bound, and then carries the number of the one function that binds it, or
free.  Names are kept for display only: what a bound variable refers to is
decided by its number.

A function whose parameter is bound has that number; a function whose parameter
is free has not been numbered yet and binds nothing.
-/

namespace UntypedLambda

/-- A variable, or the parameter of a function. -/
inductive Var where
  /-- Refers to the function with number `id`; `name` is how it was written. -/
  | bound (id : Int) (name : String)
  /-- A name that no function binds. -/
  | free (name : String)
  deriving DecidableEq, Repr, Inhabited

namespace Var

/-- The name a variable was written with. -/
def name : Var → String
  | .bound _ name => name
  | .free name => name

/-- The number of the function that binds the variable. -/
def id? : Var → Option Int
  | .bound id _ => some id
  | .free _ => none

/-- Forgets the number. -/
def unbind (v : Var) : Var := .free v.name

end Var

/-- A lambda term with resolved names. -/
inductive Term where
  /-- A variable. -/
  | var (v : Var)
  /-- The application of one term to another. -/
  | app (fn arg : Term)
  /-- A function of one parameter. -/
  | lam (param : Var) (body : Term)
  deriving DecidableEq, Repr, Inhabited

namespace Term

/-- The term of a raw expression, in which nothing is numbered yet. -/
def ofExpr : Expr → Term
  | .var name => .var (.free name)
  | .app fn arg => .app (ofExpr fn) (ofExpr arg)
  | .lam param body => .lam (.free param) (ofExpr body)

/-- All numbers in a term, of functions and of variables, from left to right. -/
def ids : Term → List Int
  | .var v => v.id?.toList
  | .app fn arg => fn.ids ++ arg.ids
  | .lam param body => param.id?.toList ++ body.ids

/-- The names of the free variables from left to right.  A parameter is not a
variable. -/
def freeNames : Term → List String
  | .var (.bound _ _) => []
  | .var (.free name) => [name]
  | .app fn arg => fn.freeNames ++ arg.freeNames
  | .lam _ body => body.freeNames

/-- All names in a term, of functions and of variables. -/
def names : Term → List String
  | .var v => [v.name]
  | .app fn arg => fn.names ++ arg.names
  | .lam param body => param.name :: body.names

/-- Forgets all numbers. -/
def unbind : Term → Term
  | .var v => .var v.unbind
  | .app fn arg => .app fn.unbind arg.unbind
  | .lam param body => .lam param.unbind body.unbind

/-- Forgetting numbers twice is forgetting them once. -/
@[simp] theorem unbind_unbind (t : Term) : t.unbind.unbind = t.unbind := by
  induction t with
  | var v => rfl
  | app fn arg ihf iha => simp [unbind, ihf, iha]
  | lam param body ih => simp [unbind, ih, Var.unbind, Var.name]

end Term

end UntypedLambda
