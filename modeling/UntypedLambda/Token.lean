import UntypedLambda.Text.Blank

/-!
# Tokens of a source line

A line of lambda calculus is written with six kinds of token: `λ`, `.`, `(`,
`)`, `:=`, and variables.  A variable is a single character: every character
that is neither a blank nor one of `λ . ( )` names one, so `xy` is two
variables and a colon without `=` behind it is the variable `:`.

* `tokenize` — all tokens of a source, each with the span it was read from.
* `scan?` — the first token at or after an offset.

Offsets count characters.  Reading a source never fails; `scan?` has no answer
only when nothing but blanks is left.
-/

namespace UntypedLambda

/-- A half-open interval `[start, stop)` of character offsets into a source. -/
structure Span where
  /-- The offset of the first character. -/
  start : Nat
  /-- The offset just past the last character. -/
  stop : Nat
  deriving DecidableEq, Repr, Inhabited

/-- The empty span at an offset. -/
def Span.point (offset : Nat) : Span := ⟨offset, offset⟩

/-- A span moved to the right by `n` characters. -/
def Span.shift (n : Nat) (s : Span) : Span := ⟨s.start + n, s.stop + n⟩

/-- What a token is, apart from where it stands. -/
inductive Symbol where
  /-- The letter `λ`, which opens a function. -/
  | lambda
  /-- The dot between the parameters and the body of a function. -/
  | dot
  /-- An opening parenthesis. -/
  | openParen
  /-- A closing parenthesis. -/
  | closeParen
  /-- The sign `:=` of a definition. -/
  | assign
  /-- A variable, which is a single character. -/
  | variable (name : Char)
  deriving DecidableEq, Repr, Inhabited

namespace Symbol

/-- The symbol that a single character that is not a blank stands for. -/
def ofChar (c : Char) : Symbol :=
  if c = 'λ' then .lambda
  else if c = '.' then .dot
  else if c = '(' then .openParen
  else if c = ')' then .closeParen
  else .variable c

/-- How a symbol is written. -/
def text : Symbol → String
  | .lambda => "λ"
  | .dot => "."
  | .openParen => "("
  | .closeParen => ")"
  | .assign => ":="
  | .variable c => String.singleton c

end Symbol

/-- A symbol together with the place it was read from. -/
structure Token where
  /-- What was read. -/
  symbol : Symbol
  /-- Where it was read. -/
  span : Span
  deriving DecidableEq, Repr, Inhabited

namespace Token

/-- How a token is written. -/
def text (t : Token) : String := t.symbol.text

/-- A token moved to the right by `n` characters. -/
def shift (n : Nat) (t : Token) : Token := ⟨t.symbol, t.span.shift n⟩

/-- The tokens of the characters that start at offset `pos`.  Blanks are
skipped, `:=` is taken as one token, and every other character is a token of
its own. -/
def readFrom (pos : Nat) : List Char → List Token
  | [] => []
  | ':' :: '=' :: rest => ⟨.assign, ⟨pos, pos + 2⟩⟩ :: readFrom (pos + 2) rest
  | c :: rest =>
      if isBlank c then readFrom (pos + 1) rest
      else ⟨Symbol.ofChar c, ⟨pos, pos + 1⟩⟩ :: readFrom (pos + 1) rest

end Token

/-- All tokens of a source, from left to right. -/
def tokenize (source : String) : List Token :=
  Token.readFrom 0 source.toList

/-- The first token at or after an offset, if anything but blanks is left
there. -/
def scan? (source : String) (offset : Nat) : Option Token :=
  (Token.readFrom offset (source.toList.drop offset)).head?

namespace Token

@[simp] theorem readFrom_nil (pos : Nat) : readFrom pos [] = [] := rfl

/-- A blank yields no token. -/
theorem readFrom_cons_of_isBlank {c : Char} (h : isBlank c = true) (pos : Nat) (rest : List Char) :
    readFrom pos (c :: rest) = readFrom (pos + 1) rest := by
  have hc : c ≠ ':' := by rintro rfl; exact absurd h (by decide)
  rw [readFrom]
  · simp [h]
  · intro _ he _; exact hc he

/-- Where the reading starts shows in the spans only. -/
theorem readFrom_add (n pos : Nat) (cs : List Char) :
    readFrom (pos + n) cs = (readFrom pos cs).map (shift n) := by
  fun_induction readFrom pos cs with
  | case1 => rfl
  | case2 pos rest ih =>
      rw [readFrom, List.map_cons, ← ih]
      simp [shift, Span.shift, Nat.add_right_comm]
  | case3 pos c rest hne hb ih =>
      rw [readFrom_cons_of_isBlank hb, ← ih, Nat.add_right_comm]
  | case4 pos c rest hne hb ih =>
      rw [readFrom]
      · simp [hb, shift, Span.shift, Nat.add_right_comm, ← ih]
      · exact hne

/-- Behind a token, reading goes on with the next one. -/
theorem readFrom_behind {pos : Nat} {rest : List Char} {t : Token} {toks : List Token}
    (h : readFrom pos rest = t :: toks) :
    pos < t.span.stop ∧ readFrom t.span.stop (rest.drop (t.span.stop - pos)) = toks := by
  fun_induction readFrom pos rest with
  | case1 => cases h
  | case2 pos rest ih =>
      obtain ⟨rfl, rfl⟩ := List.cons.inj h
      exact ⟨by simp, by simp⟩
  | case3 pos c rest hne hc ih =>
      obtain ⟨hlt, hrest⟩ := ih h
      have hdrop : t.span.stop - pos = (t.span.stop - (pos + 1)) + 1 := by omega
      rw [hdrop, List.drop_succ_cons]
      exact ⟨by omega, hrest⟩
  | case4 pos c rest hne hc ih =>
      obtain ⟨rfl, rfl⟩ := List.cons.inj h
      exact ⟨by simp, by simp⟩

end Token

end UntypedLambda
