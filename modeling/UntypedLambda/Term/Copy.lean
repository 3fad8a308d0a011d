import UntypedLambda.Term

/-!
# Copies and substitution

Copying a term gives every numbered function in it a fresh number, so that a
term and its copy never share a function.  Substitution replaces each occurrence
of a bound variable by a copy of its own.  It descends under functions without
looking at their names: since no two functions share a number, nothing can be
captured.

Numbers are drawn from left to right, and a function draws before its body.
-/

namespace UntypedLambda

/-- The number that replaces `id`; of several entries the first counts, and a
number without an entry stays. -/
def renumber (renames : List (Int × Int)) (id : Int) : Int :=
  (renames.lookup id).getD id

/-- Renumbers a variable. -/
def Var.renumber (renames : List (Int × Int)) : Var → Var
  | .bound id name => .bound (UntypedLambda.renumber renames id) name
  | .free name => .free name

namespace Term

/-- A copy of a term whose functions have fresh numbers.  `renames` holds the
numbers given to the functions entered so far, the innermost first; variables
bound outside of the term keep their numbers. -/
def refresh (renames : List (Int × Int)) : Term → Supply → Term × Supply
  | .var v, s => (.var (v.renumber renames), s)
  | .app fn arg, s =>
      let fn' := fn.refresh renames s
      let arg' := arg.refresh renames fn'.2
      (.app fn'.1 arg'.1, arg'.2)
  | .lam (.bound id name) body, s =>
      let drawn := s.fresh
      let body' := body.refresh ((id, drawn.1) :: renames) drawn.2
      (.lam (.bound drawn.1 name) body'.1, body'.2)
  | .lam (.free name) body, s =>
      let body' := body.refresh renames s
      (.lam (.free name) body'.1, body'.2)

/-- Replaces every variable with number `id` by a copy of `arg`. -/
def substitute (t : Term) (id : Int) (arg : Term) (s : Supply) : Term × Supply :=
  match t with
  | .var (.bound i name) =>
      if i = id then arg.refresh [] s else (.var (.bound i name), s)
  | .var (.free name) => (.var (.free name), s)
  | .app fn body =>
      let fn' := fn.substitute id arg s
      let body' := body.substitute id arg fn'.2
      (.app fn'.1 body'.1, body'.2)
  | .lam param body =>
      let body' := body.substitute id arg s
      (.lam param body'.1, body'.2)

/-- Replaces free names by terms.  The lookup may draw numbers, may leave a name
alone, and may fail; names are looked up from left to right, and the first
failure is the answer. -/
def resolve {ε : Type} (lookup : String → Supply → Except ε (Option Term × Supply)) :
    Term → Supply → Except ε (Term × Supply)
  | .var (.bound id name), s => .ok (.var (.bound id name), s)
  | .var (.free name), s =>
      match lookup name s with
      | .error e => .error e
      | .ok (none, s') => .ok (.var (.free name), s')
      | .ok (some t, s') => .ok (t, s')
  | .app fn arg, s =>
      match fn.resolve lookup s with
      | .error e => .error e
      | .ok (fn', s') =>
          match arg.resolve lookup s' with
          | .error e => .error e
          | .ok (arg', s'') => .ok (.app fn' arg', s'')
  | .lam param body, s =>
      match body.resolve lookup s with
      | .error e => .error e
      | .ok (body', s') => .ok (.lam param body', s')

end Term

end UntypedLambda
