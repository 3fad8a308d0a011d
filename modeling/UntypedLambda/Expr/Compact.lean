import UntypedLambda.Expr

/-!
# The compact form of expressions

In its compact form an expression is written with as few signs as usual:
application is juxtaposition, functions nested in each other share one `λ`, an
application or a function used as an operand is put in parentheses, and so is an
application that is the body of a function.

    λx.λy.(x y)        λxy.(xy)
    (λx.x) (f y)       (λx.x)(fy)
-/

namespace UntypedLambda

namespace Expr

/-- An operand: applications and functions are put in parentheses. -/
def asOperand (e : Expr) (text : String) : String :=
  match e with
  | .var _ => text
  | _ => "(" ++ text ++ ")"

/-- The compact form of an expression.  If `inside`, the expression is the body
of a function whose parameters have just been written: a function then goes on
with its own parameter, and anything else ends the parameters with a dot. -/
def compactIn (inside : Bool) : Expr → String
  | .var name => if inside then "." ++ name else name
  | .app fn arg =>
      let text := fn.asOperand (fn.compactIn false) ++ arg.asOperand (arg.compactIn false)
      if inside then ".(" ++ text ++ ")" else text
  | .lam param body =>
      (if inside then "" else "λ") ++ param ++ body.compactIn true

/-- The compact form of an expression. -/
def compact (e : Expr) : String := e.compactIn false

end Expr

end UntypedLambda
