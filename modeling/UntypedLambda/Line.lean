import UntypedLambda.Expr.Parser

/-!
# Lines

A line is empty, an expression to be evaluated, or a definition
`name := expression`.  The sign `:=` is allowed only right behind a single name
at the start of the line, so `x := y` is a definition and `x y := z` is an
error.

`Line` is generic in what stands for the expression: a raw `Expr` when the line
has been read, and a term when it has been evaluated.
-/

namespace UntypedLambda

/-- One line of input. -/
inductive Line (α : Type) where
  /-- Nothing but blanks. -/
  | empty
  /-- An expression to be evaluated. -/
  | expression (term : α)
  /-- A name and the expression it is going to stand for. -/
  | definition (name : String) (term : α)
  deriving DecidableEq, Repr, Inhabited

namespace Line

variable {α β : Type}

/-- The expression on a line, if there is one. -/
def term? : Line α → Option α
  | .empty => none
  | .expression t => some t
  | .definition _ t => some t

/-- The same line with another expression. -/
def map (f : α → β) : Line α → Line β
  | .empty => .empty
  | .expression t => .expression (f t)
  | .definition name t => .definition name (f t)

@[simp] theorem term?_map (f : α → β) (line : Line α) :
    (line.map f).term? = line.term?.map f := by
  cases line <;> rfl

/-- A line as it is written, given the text of its expression. -/
def text : Line String → String
  | .empty => ""
  | .expression t => t
  | .definition name t => name ++ " := " ++ t

/-- Reads one line of source.  A name at its start is taken to see what follows; if that is not
the sign of a definition, the name is the first operand. -/
def parse (source : String) : Except Error (Line Expr) :=
  let c := Cursor.ofSource source
  match c.rest with
  | [] => .ok .empty
  | ⟨.variable x, _⟩ :: ⟨.assign, _⟩ :: rest =>
      (Cursor.finished (Cursor.expression ⟨rest, c.length⟩ false)).map
        (.definition (String.singleton x))
  | ⟨.variable x, _⟩ :: rest =>
      (Cursor.finished (Cursor.operands ⟨rest, c.length⟩ (.var (String.singleton x)) false)).map
        .expression
  | _ => (Cursor.finished (c.expression false)).map .expression

end Line

end UntypedLambda
