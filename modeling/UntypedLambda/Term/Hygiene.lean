import UntypedLambda.Term

/-!
# Hygiene

Substitution goes by numbers alone, which is right only as long as one number
means one function.  A term is hygienic if every function in it has a number, no
two functions share one, and a variable with the number of a function stands
inside of that function.  A variable whose function is not part of the term is
loose; it counts as free.

* `Term.binders` — the numbers of the functions, from left to right.
* `Term.looseIds` — the numbers of the loose variables.
* `Term.Hygienic` — the three conditions, which can be decided.
-/

namespace UntypedLambda

namespace Term

/-- Has every function a number? -/
def Numbered : Term → Prop
  | .var _ => True
  | .app fn arg => fn.Numbered ∧ arg.Numbered
  | .lam param body => param.id?.isSome = true ∧ body.Numbered

/-- The numbers of the functions, from left to right, each function before its
body. -/
def binders : Term → List Int
  | .var _ => []
  | .app fn arg => fn.binders ++ arg.binders
  | .lam param body => param.id?.toList ++ body.binders

/-- The numbers of the variables that stand in no function with that number. -/
def looseIds : Term → List Int
  | .var v => v.id?.toList
  | .app fn arg => fn.looseIds ++ arg.looseIds
  | .lam param body => body.looseIds.filter fun i => decide (param.id? ≠ some i)

/-- One number means one function throughout the term. -/
structure Hygienic (t : Term) : Prop where
  /-- Every function has a number. -/
  numbered : t.Numbered
  /-- No two functions share a number. -/
  nodup : t.binders.Nodup
  /-- A variable with the number of a function stands inside of it. -/
  inside : ∀ i ∈ t.looseIds, i ∉ t.binders

instance decidableNumbered : (t : Term) → Decidable t.Numbered
  | .var _ => .isTrue trivial
  | .app fn arg =>
      have := decidableNumbered fn
      have := decidableNumbered arg
      inferInstanceAs (Decidable (fn.Numbered ∧ arg.Numbered))
  | .lam param body =>
      have := decidableNumbered body
      inferInstanceAs (Decidable (param.id?.isSome = true ∧ body.Numbered))

instance (t : Term) : Decidable t.Hygienic :=
  decidable_of_iff (t.Numbered ∧ t.binders.Nodup ∧ ∀ i ∈ t.looseIds, i ∉ t.binders)
    ⟨fun h => ⟨h.1, h.2.1, h.2.2⟩, fun h => ⟨h.numbered, h.nodup, h.inside⟩⟩

/-- Every number in a term belongs to a function or to a loose variable. -/
theorem mem_ids_iff (t : Term) (i : Int) : i ∈ t.ids ↔ i ∈ t.binders ∨ i ∈ t.looseIds := by
  induction t with
  | var v => simp [ids, binders, looseIds]
  | app fn arg ihf iha =>
      simp only [ids, binders, looseIds, List.mem_append, ihf, iha]
      exact or_or_or_comm
  | lam param body ih =>
      simp only [ids, binders, looseIds, List.mem_append, ih, List.mem_filter]
      by_cases h : param.id? = some i <;> simp [h]

/-- The function part of a hygienic application is hygienic. -/
theorem Hygienic.fn {fn arg : Term} (h : (Term.app fn arg).Hygienic) : fn.Hygienic where
  numbered := h.numbered.1
  nodup := (List.nodup_append.1 h.nodup).1
  inside i hi hb := h.inside i (List.mem_append_left _ hi) (List.mem_append_left _ hb)

/-- The argument of a hygienic application is hygienic. -/
theorem Hygienic.arg {fn arg : Term} (h : (Term.app fn arg).Hygienic) : arg.Hygienic where
  numbered := h.numbered.2
  nodup := (List.nodup_append.1 h.nodup).2.1
  inside i hi hb := h.inside i (List.mem_append_right _ hi) (List.mem_append_right _ hb)

end Term

end UntypedLambda
