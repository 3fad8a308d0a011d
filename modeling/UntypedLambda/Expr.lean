/-!
# Raw expressions

An `Expr` is a lambda expression as it was written: names are not yet resolved
to the functions that bind them.  `Expr.text` writes every application and
every function in parentheses.
-/

namespace UntypedLambda

/-- A lambda expression as written. -/
inductive Expr where
  /-- A name. -/
  | var (name : String)
  /-- The application of one expression to another. -/
  | app (fn arg : Expr)
  /-- A function of one parameter. -/
  | lam (param : String) (body : Expr)
  deriving DecidableEq, Repr, Inhabited

namespace Expr

/-- A function of several parameters, given from the innermost to the
outermost: `abstract ["y", "x"] b` is `λx.λy.b`. -/
def abstract (params : List String) (body : Expr) : Expr :=
  params.foldl (fun b p => .lam p b) body

/-- The application of what was read before, if there is anything, to the
expression that follows it. -/
def applyTo (e : Expr) : Option Expr → Expr
  | none => e
  | some fn => .app fn e

/-- The fully parenthesised form of an expression. -/
def text : Expr → String
  | .var name => name
  | .app fn arg => "(" ++ fn.text ++ " " ++ arg.text ++ ")"
  | .lam param body => "(λ" ++ param ++ "." ++ body.text ++ ")"

end Expr

end UntypedLambda
