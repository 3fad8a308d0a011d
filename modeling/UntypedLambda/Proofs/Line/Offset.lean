import UntypedLambda.Proofs.Line
import UntypedLambda.Proofs.Token.Partition

/-!
# Reading behind an offset

The expression of a definition starts somewhere in the line, and a line that starts with a name
is read from behind that name on.  Neither makes a difference to what is read: the reader looks
at symbols only, and the offsets of its tokens do nothing but reappear in its errors.

* `Expr.move_shift`, `Expr.read_shift` — the reader does the same with tokens that stand further
  to the right, and its errors are as far to the right.
* `tokenize_behind` — the tokens behind an offset.
* `Line.parse_of_expression`, `Line.parse_of_definition` — a line is read as the expression on it
  would be by itself.
* `Line.parse_agrees` — the same, for what is read and for errors.
-/

namespace UntypedLambda

/-! ## Errors further to the right -/

/-- A finding moved to the right by `n` characters. -/
def Found.shift (n : Nat) : Found → Found
  | .token t => .token (t.shift n)
  | found => found

/-- An error moved to the right by `n` characters. -/
def Error.shift (n : Nat) : Error → Error
  | .noToken span => .noToken (span.map (Span.shift n))
  | .unexpected expected found span =>
      .unexpected expected (found.shift n) (span.map (Span.shift n))
  | .other text span diagnosis internal => .other text (span.map (Span.shift n)) diagnosis internal
  | e => e

namespace Expr

/-- The machine with its end moved to the right by `n` characters. -/
def Reading.shift (n : Nat) (r : Reading) : Reading := ⟨r.closed, r.endSpan.shift n⟩

/-- What the machine does, with its error moved to the right by `n` characters. -/
def Move.shift (n : Nat) : Move → Move
  | .go place frames => .go place frames
  | .stop result taken => .stop (result.mapError (Error.shift n)) taken

/-- Where a token stands makes no difference to what the machine does with it, but to the place
of its error. -/
theorem move_shift (n : Nat) (r : Reading) (t : Token) (place : Place) (frames : List Frame) :
    move (r.shift n) (t.shift n) place frames = (move r t place frames).shift n := by
  obtain ⟨symbol, span⟩ := t
  rcases place with _ | head | ⟨before, _ | ⟨p, ps⟩⟩
  · cases symbol <;> rfl
  · cases symbol with
    | closeParen =>
        -- the one case that depends on what is open
        simp only [move, Token.shift]
        cases unwind head frames <;> rfl
    | lambda | dot | openParen | assign | «variable» c => rfl
  · cases symbol <;> rfl
  · cases symbol <;> rfl

theorem atEnd_shift (n : Nat) (r : Reading) (place : Place) (frames : List Frame) :
    atEnd (r.shift n) place frames = (atEnd r place frames).mapError (Error.shift n) := by
  obtain ⟨closed, endSpan⟩ := r
  rcases place with _ | head | ⟨before, _ | ⟨p, ps⟩⟩
  · rfl
  · simp only [atEnd, Reading.shift]
    cases unwind head frames <;> cases closed <;> rfl
  · rfl
  · rfl

/-- **The reader does the same with tokens that stand further to the right.**  What is left
behind stands further to the right as well, and so does an error. -/
theorem read_shift (n : Nat) (r : Reading) (toks : List Token) (place : Place)
    (frames : List Frame) :
    read (r.shift n) (toks.map (Token.shift n)) place frames =
      ((read r toks place frames).1.mapError (Error.shift n),
        (read r toks place frames).2.map (Token.shift n)) := by
  induction toks generalizing place frames with
  | nil =>
      rw [List.map_nil, read, read, atEnd_shift]
      rfl
  | cons t rest ih =>
      rw [List.map_cons, read, read, move_shift]
      cases move r t place frames with
      | go place' frames' => exact ih place' frames'
      | stop result taken => cases taken <;> rfl

/-- A list of tokens further to the right is read as a whole like the list itself. -/
theorem finished_shift (n : Nat) (toks : List Token) (length : Nat) :
    Cursor.finished (Cursor.expression ⟨toks.map (Token.shift n), length + n⟩ false) =
      (Cursor.finished (Cursor.expression ⟨toks, length⟩ false)).mapError (Error.shift n) := by
  have hread := read_shift n ⟨false, Span.point length⟩ toks .start []
  have hreading : Reading.shift n ⟨false, Span.point length⟩ = ⟨false, Span.point (length + n)⟩ :=
    rfl
  rw [hreading] at hread
  rw [finished_expression, finished_expression, hread]
  rcases read ⟨false, Span.point length⟩ toks .start [] with ⟨err | e, _ | ⟨t, rest⟩⟩ <;> rfl

/-- An expression is refused because of something that was found somewhere. -/
theorem exists_of_parse_ne_ok {source : String} (h : ∀ e, parse source ≠ .ok e) :
    ∃ expected found span, parse source = .error (.unexpected expected found (some span)) := by
  have hearliest : Earliest (Derives .expression) (tokenize source) source.length (parse source) :=
    earliest_finished (tokenize source) source.length
  generalize parse source = result at hearliest h
  cases hearliest with
  | ok _ => exact absurd rfl (h _)
  | atEnd expected => exact ⟨expected, _, _, rfl⟩
  | atToken expected => exact ⟨expected, _, _, rfl⟩

end Expr

/-! ## The rest of a line -/

/-- The part of a source that starts at an offset. -/
def behind (source : String) (offset : Nat) : String := String.ofList (source.toList.drop offset)

theorem length_behind {source : String} {offset : Nat} (h : offset ≤ source.length) :
    (behind source offset).length + offset = source.length := by
  rw [behind, String.length_ofList, List.length_drop, String.length_toList]
  omega

/-- The tokens that are left at the end of a token are those of the rest of the source. -/
theorem tokenize_behind {source : String} (before : List Token) {after : List Token}
    (h : tokenize source = before ++ after) :
    after = (tokenize (behind source (Token.endOf 0 before))).map
      (Token.shift (Token.endOf 0 before)) := by
  have hread : Token.readFrom 0 (source.toList.drop 0) = before ++ after := h
  rw [← Token.readFrom_endOf hread, tokenize, behind, String.toList_ofList, ← Token.readFrom_add,
    Nat.zero_add]

namespace Line

variable {source : String}

/-- A line that does not start like a definition is read like the expression on it. -/
theorem parse_of_expression (hne : tokenize source ≠ [])
    (hdef : ¬IsDefinition ((tokenize source).map Token.symbol)) :
    parse source = (Expr.parse source).map .expression := by
  rcases parse_cases source with ⟨hnil, -⟩ | ⟨c, span, span', rest, hcons, -⟩ | ⟨-, -, hparse⟩
  · exact absurd hnil hne
  · exact absurd ⟨c, rest.map Token.symbol, by rw [hcons]; rfl⟩ hdef
  · exact hparse

/-- Behind the sign of a definition, a line is read like the expression that stands there. -/
theorem parse_of_definition {c : Char} {span span' : Span} {rest : List Token}
    (h : tokenize source = ⟨.variable c, span⟩ :: ⟨.assign, span'⟩ :: rest) :
    parse source =
      ((Expr.parse (behind source span'.stop)).mapError (Error.shift span'.stop)).map
        (.definition (String.singleton c)) := by
  have hrest : rest = (tokenize (behind source span'.stop)).map (Token.shift span'.stop) :=
    tokenize_behind [⟨.variable c, span⟩, ⟨.assign, span'⟩] h
  have hlength : (behind source span'.stop).length + span'.stop = source.length := by
    refine length_behind ?_
    have hwithin := ((Token.divides_tokenize source).standsIn ⟨.assign, span'⟩ (by simp [h])).2
    exact String.length_toList ▸ hwithin.within.2
  have hread : Cursor.finished (Cursor.expression ⟨rest, source.length⟩ false) =
      (Expr.parse (behind source span'.stop)).mapError (Error.shift span'.stop) := by
    rw [hrest, ← hlength]
    exact Expr.finished_shift span'.stop (tokenize (behind source span'.stop)) _
  rcases parse_cases source with ⟨hnil, -⟩ | ⟨d, span₁, span₂, rest', hcons, hparse⟩ | ⟨-, hdef, -⟩
  · rw [h] at hnil
    cases hnil
  · rw [h] at hcons
    cases hcons
    rw [hparse, hread]
  · exact absurd ⟨c, rest.map Token.symbol, by rw [h]; rfl⟩ hdef

/-- **A line is read like the expression on it.**  If there is anything on the line and it does
not start with a name and the sign of a definition, it is an expression exactly if its source is
one, the same one; otherwise both are refused for the same reason at the same place.  If it does
start like a definition, it is one exactly if the rest of the source is an expression; otherwise
it is refused for the same reason as the rest, at a place as much further to the right as the
rest starts. -/
theorem parse_agrees (source : String) :
    (tokenize source ≠ [] → ¬IsDefinition ((tokenize source).map Token.symbol) →
      (∀ e, parse source = .ok (.expression e) ↔ Expr.parse source = .ok e) ∧
      ((∀ e, Expr.parse source ≠ .ok e) → ∃ expected found span,
        Expr.parse source = .error (.unexpected expected found (some span)) ∧
        parse source = .error (.unexpected expected found (some span)))) ∧
    ∀ c span sign rest, tokenize source = ⟨.variable c, span⟩ :: ⟨.assign, sign⟩ :: rest →
      (∀ e, parse source = .ok (.definition (String.singleton c) e) ↔
        Expr.parse (behind source sign.stop) = .ok e) ∧
      ((∀ e, Expr.parse (behind source sign.stop) ≠ .ok e) → ∃ expected found span,
        Expr.parse (behind source sign.stop) = .error (.unexpected expected found (some span)) ∧
        parse source =
          .error (.unexpected expected (found.shift sign.stop) (some (span.shift sign.stop)))) := by
  refine ⟨fun hne hdef => ⟨fun e => ?_, fun hnone => ?_⟩,
    fun c span sign rest h => ⟨fun e => ?_, fun hnone => ?_⟩⟩
  · rw [parse_of_expression hne hdef]
    cases Expr.parse source <;> simp [Except.map]
  · obtain ⟨expected, found, span, herr⟩ := Expr.exists_of_parse_ne_ok hnone
    refine ⟨expected, found, span, herr, ?_⟩
    rw [parse_of_expression hne hdef, herr]
    rfl
  · rw [parse_of_definition h]
    cases Expr.parse (behind source sign.stop) <;> simp [Except.map, Except.mapError]
  · obtain ⟨expected, found, span, herr⟩ := Expr.exists_of_parse_ne_ok hnone
    refine ⟨expected, found, span, herr, ?_⟩
    rw [parse_of_definition h, herr]
    rfl

/-- The theorem at `x y)`, whose parenthesis closes nothing, and at `f := λ .`, where the
parameter is missing four characters behind the sign. -/
theorem parse_agrees_refused :
    (tokenize "x y)" ≠ [] ∧ ¬IsDefinition ((tokenize "x y)").map Token.symbol) ∧
      ∃ expected found span,
        Expr.parse "x y)" = .error (.unexpected expected found (some span)) ∧
        parse "x y)" = .error (.unexpected expected found (some span))) ∧
    behind "f := λ ." 4 = " λ ." ∧
    ∃ expected found span,
      Expr.parse " λ ." = .error (.unexpected expected found (some span)) ∧
      parse "f := λ ." =
        .error (.unexpected expected (found.shift 4) (some (span.shift 4))) := by
  have hne : tokenize "x y)" ≠ [] := by decide
  have hdef : ¬IsDefinition ((tokenize "x y)").map Token.symbol) := by
    rintro ⟨c, rest, h⟩
    cases h
  have hrefused : ∀ e, Expr.parse "x y)" ≠ .ok e := nofun
  have hbehind : behind "f := λ ." 4 = " λ ." := by decide
  have hrest : ∀ e, Expr.parse (behind "f := λ ." 4) ≠ .ok e := by
    rw [hbehind]
    exact nofun
  have hmissing := ((parse_agrees "f := λ .").2 'f' ⟨0, 1⟩ ⟨2, 4⟩ _ rfl).2 hrest
  rw [hbehind] at hmissing
  exact ⟨⟨hne, hdef, ((parse_agrees "x y)").1 hne hdef).2 hrefused⟩, hbehind, hmissing⟩

end Line

end UntypedLambda
