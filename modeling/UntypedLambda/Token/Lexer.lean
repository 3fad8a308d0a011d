import UntypedLambda.Token.Cursor

/-!
# A lexer with one token of lookahead

A `Lexer` reads the tokens of a source as they are asked for.  It is always one token
ahead: the token to be taken next has been read already, and the position is the end
of that token.  Once only blanks are left, there is no such token, and the position
stays where it is.

To whoever takes the tokens it is no different from a `Cursor`, which has read all of
them from the start.
-/

namespace UntypedLambda

/-- Reads a source token by token. -/
structure Lexer where
  /-- The source. -/
  source : String
  /-- The offset behind the last token that was read. -/
  position : Nat
  /-- The token to be taken next, if there is one. -/
  peeked : Option Token
  deriving DecidableEq, Repr, Inhabited

namespace Lexer

/-- Reads the token behind the position. -/
def advance (l : Lexer) : Lexer :=
  match scan l.source l.position with
  | .error _ => { l with peeked := none }
  | .ok t => { l with position := t.span.stop, peeked := some t }

/-- A lexer in front of the first token of a source. -/
def ofSource (source : String) : Lexer := advance ⟨source, 0, none⟩

/-- The next token, which is not taken. -/
def peek? (l : Lexer) : Option Token := l.peeked

/-- Takes the next token. -/
def next (l : Lexer) : Option Token × Lexer :=
  match l.peeked with
  | none => (none, l)
  | some t => (some t, l.advance)

/-- The empty span just past the last character of the source. -/
def endSpan (l : Lexer) : Span := Span.point l.source.length

/-- A token is read only from characters that are left. -/
theorem lt_of_scan? {source : String} {pos : Nat} {t : Token} (h : scan? source pos = some t) :
    pos < t.span.stop ∧ pos < source.length := by
  obtain ⟨rest, hread⟩ := List.head?_eq_some_iff.1 h
  refine ⟨(Token.readFrom_behind hread).1, Nat.lt_of_not_le fun hle => ?_⟩
  rw [List.drop_eq_nil_of_le (String.length_toList ▸ hle)] at hread
  cases hread

/-- How much is left to read, counting the token that has been read already. -/
def remaining (l : Lexer) : Nat := 2 * (l.source.length - l.position) + l.peeked.toList.length

theorem remaining_advance_lt {l : Lexer} {t : Token} (h : l.peeked = some t) :
    l.advance.remaining < l.remaining := by
  unfold remaining advance scan
  cases hscan : scan? l.source l.position with
  | none => simp [h]
  | some t' =>
      obtain ⟨hstop, hlt⟩ := lt_of_scan? hscan
      simp only [h, Option.toList_some, List.length_singleton]
      omega

/-- Takes all tokens that are left. -/
def takeAll (l : Lexer) : List Token × Lexer :=
  match _h : l.peeked with
  | none => ([], l)
  | some t => l.advance.takeAll.map (t :: ·) id
termination_by l.remaining
decreasing_by exact remaining_advance_lt ‹_›

end Lexer

end UntypedLambda
