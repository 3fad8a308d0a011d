import UntypedLambda.Table
import UntypedLambda.Term

/-!
# Scope resolution

A `Binder` walks a term from left to right and keeps, for every name, the
numbers of the functions that are open around the current place and bind that
name.  A free variable becomes bound to the innermost of them; if there is none
it stays free.  A function that has a number already keeps it, any other draws a
fresh one.

The supply of a binder lasts over several terms, so that terms bound by one
binder never share a number.
-/

namespace UntypedLambda

/-- The functions open around a place, by the name they bind, innermost first. -/
abbrev Scopes := Table String (List Int)

namespace Scopes

/-- Opens a function that binds `name`. -/
def enter (sc : Scopes) (name : String) (id : Int) : Scopes :=
  sc.put name (id :: (sc.get? name).getD [])

/-- The number of the innermost open function that binds `name`. -/
def innermost? (sc : Scopes) (name : String) : Option Int :=
  ((sc.get? name).getD []).head?

/-- Closes the innermost function that binds `name`, and answers with its
number.  If none is open, the name is left with an empty entry. -/
def leave (sc : Scopes) (name : String) : Option Int × Scopes :=
  match (sc.get? name).getD [] with
  | [] => (none, sc.put name [])
  | [id] => (some id, sc.erase name)
  | id :: outer => (some id, sc.put name outer)

end Scopes

/-- A supply of numbers and the functions open around the current place. -/
structure Binder where
  /-- Where fresh numbers come from. -/
  supply : Supply
  /-- The functions open around the current place. -/
  scopes : Scopes
  deriving DecidableEq, Repr, Inhabited

namespace Binder

/-- A binder that has not bound anything yet. -/
def ofSupply (s : Supply) : Binder := ⟨s, Table.empty⟩

/-- Opens a function that binds `name`, under the number given or a fresh one. -/
def enter (b : Binder) (name : String) : Option Int → Int × Binder
  | some id => (id, ⟨b.supply, b.scopes.enter name id⟩)
  | none =>
      let drawn := b.supply.fresh
      (drawn.1, ⟨drawn.2, b.scopes.enter name drawn.1⟩)

/-- Closes the innermost function that binds `name`. -/
def leave (b : Binder) (name : String) : Option Int × Binder :=
  let left := b.scopes.leave name
  (left.1, ⟨b.supply, left.2⟩)

end Binder

namespace Term

/-- Resolves the names of a term against the functions open around it. -/
def bindIn : Term → Binder → Term × Binder
  | .var (.bound id name), b => (.var (.bound id name), b)
  | .var (.free name), b =>
      match b.scopes.innermost? name with
      | some id => (.var (.bound id name), b)
      | none => (.var (.free name), b)
  | .app fn arg, b =>
      let fn' := fn.bindIn b
      let arg' := arg.bindIn fn'.2
      (.app fn'.1 arg'.1, arg'.2)
  | .lam param body, b =>
      let entered := b.enter param.name param.id?
      let body' := body.bindIn entered.2
      (.lam (.bound entered.1 param.name) body'.1, (body'.2.leave param.name).2)

end Term

/-- Resolves the names of a whole term.  The numbers it has already are reserved
first, and nothing is open around it. -/
def Binder.bind (b : Binder) (t : Term) : Term × Binder :=
  t.bindIn ⟨b.supply.reserve t.ids, Table.empty⟩

/-- Resolves the names of a term in a pass of its own. -/
def Term.bind (t : Term) : Term :=
  ((Binder.ofSupply Supply.empty).bind t).1

end UntypedLambda
