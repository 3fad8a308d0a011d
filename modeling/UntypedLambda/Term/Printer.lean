import UntypedLambda.Expr.Compact
import UntypedLambda.Line
import UntypedLambda.Names
import UntypedLambda.Term

/-!
# Printing terms

A term is printed in two passes.  The first gives every function the name it is
shown under and so turns the term into a raw expression; names are chosen by
`Names` so that no variable is captured.  The second writes that expression in
its compact form.

* `Term.named` — the expression that a term is shown as.
* `Term.render` — the printed form.

Naming fails only for a term in which a function stands inside of another one
with the same number.
-/

namespace UntypedLambda

namespace Term

/-- A parameter with the number that claimed its name, if it has one. -/
abbrev Param := String × Option Int

/-- Ends the functions whose parameters are given, innermost first, behind their
common body, and gives up their names from the outermost to the innermost. -/
def closeParams (params : List Param) (body : Expr) (n : Names) : Except Missing (Expr × Names) :=
  match n.releaseAll (params.reverse.filterMap (·.2)) with
  | .error e => .error e
  | .ok n' => .ok (Expr.abstract (params.map (·.1)) body, n')

/-- Names a term that stands directly in the functions whose parameters are
given, innermost first. -/
def nameIn : Term → List Param → Names → Except Missing (Expr × Names)
  | .var (.free name), params, n => closeParams params (.var name) n
  | .var (.bound id name), params, n =>
      let found := n.lookup id name
      closeParams params (.var found.1) found.2
  | .app fn arg, params, n =>
      match fn.nameIn [] n with
      | .error e => .error e
      | .ok (fn', n₁) =>
          match arg.nameIn [] n₁ with
          | .error e => .error e
          | .ok (arg', n₂) => closeParams params (.app fn' arg') n₂
  | .lam (.bound id name) body, params, n =>
      let claimed := n.claim id name
      body.nameIn ((claimed.1, some id) :: params) claimed.2
  | .lam (.free name) body, params, n => body.nameIn ((name, none) :: params) n

/-- The expression that a term is shown as. -/
def named (t : Term) : Except Missing Expr :=
  (t.nameIn [] (Names.ofFree t.freeNames)).map (·.1)

/-- The printed form of a term. -/
def render (t : Term) : Except Missing String := t.named.map Expr.compact

end Term

namespace Line

/-- Prints a line whose expression is raw. -/
def exprText (l : Line Expr) : String := (l.map Expr.text).text

/-- Prints a line whose expression is a term. -/
def render : Line Term → Except Missing String
  | .empty => .ok (Line.text .empty)
  | .expression t => t.render.map fun s => Line.text (.expression s)
  | .definition name t => t.render.map fun s => Line.text (.definition name s)

end Line

end UntypedLambda
