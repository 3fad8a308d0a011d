import UntypedLambda.DisplayName
import UntypedLambda.Table
import UntypedLambda.Text.Quoted

/-!
# Who is shown under which name

While a term is printed, `Names` records which display names are taken and by
whom: by a free variable, or by the function with a certain number.  A function
claims a name when its scope is entered and releases it when the scope has been
printed.  The name it was written with is preferred; if another owner has it,
the first display name that nobody has is used.
-/

namespace UntypedLambda

/-- The names taken while a term is printed. -/
structure Names where
  /-- The owner of every name taken: a number, or `none` for a free name. -/
  claims : Table String (Option Int)
  /-- The name that a number is shown under. -/
  shown : Table Int String
  deriving DecidableEq, Repr, Inhabited

/-- What a release did not find. -/
inductive Missing where
  /-- The number is not shown under any name. -/
  | number (id : Int)
  /-- The name the number was shown under is not taken. -/
  | name (text : String)
  deriving DecidableEq, Repr, Inhabited

/-- How a missing entry is worded. -/
def Missing.text : Missing → String
  | .number id => toString id
  | .name text => quoted text

namespace Names

/-- The free names are taken from the start. -/
def ofFree (free : List String) : Names :=
  ⟨Table.ofList (free.map fun name => (name, none)), Table.empty⟩

/-- The name that a number gets if it prefers `name`. -/
def choose (n : Names) (id : Int) (name : String) : String :=
  match n.claims.get? name with
  | none => name
  | some owner => if owner = some id then name else freeName n.claims.keys

/-- Gives a number a name, preferably the one given. -/
def claim (n : Names) (id : Int) (name : String) : String × Names :=
  let chosen := n.choose id name
  (chosen, ⟨n.claims.put chosen (some id), n.shown.put id chosen⟩)

/-- Gives up the name of a number. -/
def release (n : Names) (id : Int) : Except Missing Unit × Names :=
  match n.shown.get? id with
  | none => (.error (.number id), n)
  | some name =>
      if n.claims.contains name then (.ok (), ⟨n.claims.erase name, n.shown.erase id⟩)
      else (.error (.name name), ⟨n.claims, n.shown.erase id⟩)

/-- The name of a number.  If its function is outside of the printed term, it
claims one. -/
def lookup (n : Names) (id : Int) (name : String) : String × Names :=
  match n.shown.get? id with
  | some chosen => (chosen, n)
  | none => n.claim id name

/-- Gives up the names of several numbers, in order. -/
def releaseAll (n : Names) : List Int → Except Missing Names
  | [] => .ok n
  | id :: ids =>
      match n.release id with
      | (.error e, _) => .error e
      | (.ok _, n') => n'.releaseAll ids

end Names

end UntypedLambda
