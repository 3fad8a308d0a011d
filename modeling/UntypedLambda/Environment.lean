import UntypedLambda.Term.Binder
import UntypedLambda.Term.Copy
import UntypedLambda.Term.Printer

/-!
# Environments

An environment holds the terms that names have been defined to stand for, in the
order in which the names were first defined.  Importing an expression replaces
its free names by copies of their terms.  A term was closed over its own
functions when it was defined, so the names they were written with play no part
in the scopes of the importing line.
-/

namespace UntypedLambda

/-- A name with the term it stands for. -/
structure Definition where
  /-- The name as it is printed. -/
  name : String
  /-- The term. -/
  term : Term
  deriving DecidableEq, Repr, Inhabited

/-- A definition as a line. -/
def Definition.line (d : Definition) : Line Term := .definition d.name d.term

/-- The definitions of a session. -/
abbrev Environment := Table String Definition

namespace Environment

/-- Records the definition that a line makes, if it makes one. -/
def extend (env : Environment) : Line Term → Environment
  | .definition name t => env.put name ⟨name, t⟩
  | _ => env

/-- A copy of the term that a name stands for.  An undefined name is an error if
`strict`, and is left alone otherwise. -/
def lookup (env : Environment) (strict : Bool) (name : String) (s : Supply) :
    Except Error (Option Term × Supply) :=
  match env.get? name with
  | some d =>
      let copy := d.term.refresh [] s
      .ok (some copy.1, copy.2)
  | none => if strict then .error (.undefined name) else .ok (none, s)

/-- The term of an expression: its names are resolved, and what is still free is
replaced by its definition. -/
def resolve (env : Environment) (strict : Bool) (e : Expr) : Except Error Term :=
  let bound := (Binder.ofSupply Supply.empty).bind (Term.ofExpr e)
  (bound.1.resolve (env.lookup strict) bound.2.supply).map (·.1)

/-- Do two environments define the same names by the same terms, in whatever
order? -/
def same (a b : Environment) : Bool :=
  a.entries.length == b.entries.length && a.entries.all fun e => b.get? e.1 == some e.2

/-- An environment as the list of its names. -/
def text (env : Environment) : String := "Environment(" ++ quotedList env.keys ++ ")"

end Environment

end UntypedLambda
