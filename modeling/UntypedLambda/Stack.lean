import UntypedLambda.Environment
import UntypedLambda.Interruption
import UntypedLambda.Reduction

/-!
# How deeply calls are nested

Lines are read, resolved, reduced and printed by functions that call themselves
for the parts of what they are given, and the machine lets only so many calls be
open at a time.  A `Stack` is such a limit.  This file counts the calls that are
open at the deepest point of each stage:

* `Line.readCalls` — reading a line.  A parenthesis opens one call, or two if it
  is an operand, and so does a function, with a call more for every parameter.
* `Expr.height`, `Term.height` — walking over an expression or a term opens one
  call for each of its levels.
* `Environment.resolveCalls` — replacing names by copies of their definitions.
* `Term.search`, `Term.stepCalls` — finding the next redex, contracting it and showing it.
* `Term.printCalls` — printing a term opens two calls for each application, and
  two for functions that stand directly inside of each other.

Only calls that nest with what they are given are counted.  Those that stand
around all of this are in use from the start (`Stack.inUse`), and the few that
the innermost call adds are left out.

* `Reducer.iterateWithin` — reduces a term as long as there is room for the calls.
-/

namespace UntypedLambda

/-- How many calls may be open at a time. -/
structure Stack where
  /-- The limit, if there is one. -/
  limit : Option Nat
  /-- The number of calls that are open already. -/
  inUse : Nat
  deriving DecidableEq, Repr, Inhabited

namespace Stack

/-- A stack without a limit. -/
def unlimited : Stack := ⟨none, 0⟩

/-- The number of further calls that may be open at a time, if it is limited. -/
def room? (stack : Stack) : Option Nat := stack.limit.map (· - stack.inUse)

/-- Is there room for a number of further calls? -/
def holds (stack : Stack) (calls : Nat) : Bool := stack.room?.all (decide <| calls ≤ ·)

@[simp] theorem holds_unlimited (calls : Nat) : unlimited.holds calls = true := rfl

end Stack

/-- There is no room for another call. -/
def Interruption.overflow : Interruption := .depth "maximum recursion depth exceeded"

/-! ## Reading -/

namespace Expr

/-- The calls that are open for a part of a line because of what was opened in it.  The
operands behind an expression are read by a call of their own. -/
def Frame.calls : Frame → Nat
  | .group before => 1 + before.toList.length
  | .body before params => 1 + before.toList.length + params.length

/-- The calls that are open for all that was opened. -/
def Frame.total : List Frame → Nat
  | [] => 0
  | f :: frames => f.calls + total frames

/-- The calls that are open for the innermost open part of a line. -/
def Place.calls : Place → Nat
  | .start => 1
  | .operands _ => 2
  | .params before names => 1 + before.toList.length + max 1 names.length

/-- The calls that are open at the deepest point of reading an expression. -/
def readCalls (r : Reading) : List Token → Place → List Frame → Nat
  | [], place, frames => place.calls + Frame.total frames
  | t :: rest, place, frames =>
      let calls := place.calls + Frame.total frames
      match move r t place frames with
      | .go place' frames' => max calls (readCalls r rest place' frames')
      | .stop _ _ => calls

/-- The number of levels of an expression. -/
def height : Expr → Nat
  | .var _ => 1
  | .app fn arg => max fn.height arg.height + 1
  | .lam _ body => body.height + 1

end Expr

/-- The calls that are open at the deepest point of reading a line. -/
def Line.readCalls (source : String) : Nat :=
  let c := Cursor.ofSource source
  let r : Expr.Reading := ⟨false, c.endSpan⟩
  match c.rest with
  | [] => 0
  | ⟨.variable _, _⟩ :: ⟨.assign, _⟩ :: rest => Expr.readCalls r rest .start []
  | ⟨.variable x, _⟩ :: rest => Expr.readCalls r rest (.operands (.var (String.singleton x))) []
  | tokens => Expr.readCalls r tokens .start []

/-! ## Resolving and reducing -/

namespace Term

/-- The number of levels of a term. -/
def height : Term → Nat
  | .var _ => 1
  | .app fn arg => max fn.height arg.height + 1
  | .lam _ body => body.height + 1

/-- The calls that are open at the deepest point of replacing the variables with number `id`
by copies of a term with `height` levels. -/
def substituteCalls (id : Int) (height : Nat) : Term → Nat
  | .var (.bound i _) => if i = id then height + 1 else 1
  | .var (.free _) => 1
  | .app fn arg => max (fn.substituteCalls id height) (arg.substituteCalls id height) + 1
  | .lam _ body => body.substituteCalls id height + 1

/-- The calls that are open at the deepest point of contracting a redex. -/
def contractCalls (param : Var) (body arg : Term) : Nat :=
  match param with
  | .bound id _ => body.substituteCalls id arg.height
  | .free _ => 0

/-- What is gone through until the next redex has been contracted, or until it is clear that
there is none. -/
structure Search where
  /-- The number of levels above the redex, if there is one. -/
  above? : Option Nat
  /-- The calls that are open at the deepest point. -/
  calls : Nat
  deriving DecidableEq, Repr, Inhabited

/-- The same search one level further down. -/
def Search.inside (s : Search) : Search := ⟨s.above?.map (· + 1), s.calls + 1⟩

/-- The number of calls that are open around the redex. -/
def Search.above (s : Search) : Nat := s.above?.getD 0

/-- Searches for the leftmost-outermost redex. -/
def search : Term → Search
  | .var _ => ⟨none, 1⟩
  | .lam _ body => body.search.inside
  | .app (.lam param body) arg => ⟨some 0, contractCalls param body arg + 1⟩
  | .app fn arg =>
      let first := fn.search
      if first.above?.isSome then first.inside
      else
        let second := arg.search
        Search.inside ⟨second.above?, max first.calls second.calls⟩

/-- The calls that are open at the deepest point of the next step of a term.  Its redex is found
and contracted, and the contraction is shown, which takes `shown` calls on top of those around
the redex. -/
def stepCalls (shown : Contraction → Nat) (t : Term) (s : Supply) : Nat :=
  match t.step? s with
  | none => t.search.calls
  | some st => max t.search.calls (t.search.above + shown st.contraction)

end Term

/-- Reduces a term one step at a time, whose numbers have been reserved.  There is room for
`room` calls; where a step takes more, the run is stopped. -/
def Reducer.iterateWithin {σ : Type} (room : Nat) (shown : Contraction → Nat)
    (watch : Watcher σ Interruption) (fuel : Nat) (r : Reducer) (seen : σ) (t : Term) :
    Run σ Interruption :=
  if room < t.stepCalls shown r.supply then ⟨.stopped .overflow, r, seen⟩
  else
    match t.step? r.supply, fuel with
    | none, _ => ⟨.normal t, r, seen⟩
    | some _, 0 => ⟨.unfinished t, r, seen⟩
    | some st, fuel + 1 =>
        match watch seen st.contraction with
        | (seen', some e) => ⟨.stopped e, ⟨st.supply, r.steps + 1⟩, seen'⟩
        | (seen', none) =>
            iterateWithin room shown watch fuel ⟨st.supply, r.steps + 1⟩ seen' st.result

/-- The calls that are open at the deepest point of replacing the free names of a term by
copies of their definitions, and whether this gets to the end: if `strict`, it ends at a name
that is not defined. -/
def Environment.resolveCalls (env : Environment) (strict : Bool) : Term → Nat × Bool
  | .var (.bound _ _) => (1, true)
  | .var (.free name) =>
      match env.get? name with
      | some d => (d.term.height + 1, true)
      | none => (1, !strict)
  | .app fn arg =>
      let first := resolveCalls env strict fn
      if first.2 then
        let second := resolveCalls env strict arg
        (max first.1 second.1 + 1, second.2)
      else (first.1 + 1, false)
  | .lam _ body =>
      let inner := resolveCalls env strict body
      (inner.1 + 1, inner.2)

/-! ## Printing -/

namespace Term

/-- The calls that are open at the deepest point of writing a term. -/
def writeCalls : Term → Nat
  | .var _ => 1
  | .app fn arg => max fn.writeCalls arg.writeCalls + 2
  | .lam _ (.lam param body) => (Term.lam param body).writeCalls
  | .lam _ body => body.writeCalls + 2

/-- The calls that are open at the deepest point of printing a term: its free names are
collected before it is written. -/
def printCalls (t : Term) : Nat := max t.height t.writeCalls

end Term

/-- The calls that are open at the deepest point of printing a contraction. -/
def Contraction.printCalls (c : Contraction) : Nat :=
  max c.redex.printCalls c.contractum.printCalls

namespace Line

/-- The calls that are open at the deepest point of printing a line. -/
def printCalls (line : Line Term) : Nat := (line.term?.map Term.printCalls).getD 0

/-- Prints a line, unless this overflows the stack. -/
def renderWithin (stack : Stack) (line : Line Term) : Except Interruption String :=
  if stack.holds line.printCalls then
    match line.render with
    | .error m => .error (.fault (.unprintable m))
    | .ok text => .ok text
  else .error .overflow

end Line

end UntypedLambda
