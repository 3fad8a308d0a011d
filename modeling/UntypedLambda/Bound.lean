/-!
# Bounds

Some quantities can be bounded by the user: how many contractions a line may
take, and how deeply a term may be nested.  A bound may be asked for without
naming a number; such a blank bound is accepted, and is a fault only once
something has to be compared with it.
-/

namespace UntypedLambda

/-- A bound that the user may have set. -/
inductive Bound where
  /-- There is no bound. -/
  | none
  /-- The bound is a number. -/
  | number (n : Int)
  /-- A bound was asked for, but no number was given. -/
  | blank
  deriving DecidableEq, Repr, Inhabited

namespace Bound

/-- The bound by a number, if there is one. -/
def ofOption : Option Int → Bound
  | .none => .none
  | .some n => .number n

/-- The number of a bound. -/
def number? : Bound → Option Int
  | .number n => some n
  | _ => Option.none

@[simp] theorem number?_ofOption (n : Option Int) : (ofOption n).number? = n := by
  cases n <;> rfl

@[simp] theorem ofOption_ne_blank (n : Option Int) : ofOption n ≠ .blank := by
  cases n <;> simp [ofOption]

end Bound

end UntypedLambda
