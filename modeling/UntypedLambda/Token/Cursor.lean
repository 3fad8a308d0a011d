import UntypedLambda.Error

/-!
# A cursor over the tokens of a line

A `Cursor` is what is left to read of a source: the tokens not yet taken, and
the length of the source, which places an error at the end of the line.  Looking
(`peek?`) takes nothing; `next` takes one token and keeps answering `none` once
there is none left.
-/

namespace UntypedLambda

/-- The tokens of a source that have not been taken yet. -/
structure Cursor where
  /-- The tokens not yet taken, from left to right. -/
  rest : List Token
  /-- The number of characters of the source. -/
  length : Nat
  deriving DecidableEq, Repr, Inhabited

namespace Cursor

/-- A cursor in front of the first token of a source. -/
def ofSource (source : String) : Cursor := ⟨tokenize source, source.length⟩

/-- The next token, which is not taken. -/
def peek? (c : Cursor) : Option Token := c.rest.head?

/-- Takes the next token. -/
def next (c : Cursor) : Option Token × Cursor := (c.rest.head?, ⟨c.rest.tail, c.length⟩)

/-- Takes all tokens that are left. -/
def takeAll (c : Cursor) : List Token × Cursor := (c.rest, ⟨[], c.length⟩)

/-- The empty span just past the last character of the source. -/
def endSpan (c : Cursor) : Span := Span.point c.length

/-- The error that something else was expected at the first of the tokens
given, or at the end of the line if there is none. -/
def complain (endSpan : Span) (expected : Expected) : List Token → Error
  | [] => .unexpected expected .endOfInput (some endSpan)
  | t :: _ => .unexpected expected (.token t) (some t.span)

/-- Refuses any token that is left, and takes it. -/
def finish (c : Cursor) : Except Error Unit × Cursor :=
  match c.rest with
  | [] => (.ok (), c)
  | t :: rest => (.error (complain c.endSpan .endOfInput (t :: rest)), ⟨rest, c.length⟩)

end Cursor

/-- The first token at or after an offset; an error if only blanks are left. -/
def scan (source : String) (offset : Nat) : Except Error Token :=
  match scan? source offset with
  | some t => .ok t
  | none => .error (.noToken (some (Span.point source.length)))

end UntypedLambda
