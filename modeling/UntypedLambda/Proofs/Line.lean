import UntypedLambda.Line
import UntypedLambda.Proofs.Expr.Acceptance
import UntypedLambda.Term

/-!
# Reading a line

    line       ::= "" | expression | definition
    definition ::= name ":=" expression

A line is read as this grammar derives it.  If it is refused, then as early as
possible: an error at the end of the line means that more input could complete it, and
an error at a token means that no input can.

* `Line.parse_eq_ok_iff` — a line is read exactly as the grammar derives it.
* `Line.isVariableName_of_parse` — the names that are read are single characters.
* `Line.earliest_parse` — what errors say.
* `Line.parse_error_earliest` — the two together, and what can be appended to a line.
-/

namespace UntypedLambda

/-- The name that a symbol writes, if it is a variable. -/
def Symbol.name? : Symbol → Option String
  | .variable c => some (String.singleton c)
  | _ => none

theorem Symbol.eq_variable_of_name? {s : Symbol} {x : String} (h : s.name? = some x) :
    ∃ c, s = .variable c ∧ x = String.singleton c := by
  cases s with
  | «variable» c =>
      cases h
      exact ⟨c, rfl, rfl⟩
  | lambda | dot | openParen | closeParen | assign => cases h

namespace Expr

/-- The sign of a definition is in no part of an expression. -/
theorem Derives.assign_notMem {p : Part} {ts : List Symbol} {e : Expr} (h : Derives p ts e) :
    .assign ∉ ts := by
  induction h with
  | name c => simp
  | group _ ih => simp [ih]
  | single _ ih => exact ih
  | further _ _ ihf iha => simp [ihf, iha]
  | atoms _ ih => exact ih
  | function _ ih => exact ih
  | operand _ _ ihf iha => simp [ihf, iha]
  | lambda _ ih => simp [ih]
  | last c _ ih => simp [ih]
  | next c _ ih => simp [ih]

/-- The names of an expression are the variables that are written for it, from left to
right. -/
theorem Derives.names_eq {p : Part} {ts : List Symbol} {e : Expr} (h : Derives p ts e) :
    (Term.ofExpr e).names = ts.filterMap Symbol.name? := by
  induction h with
  | name c => rfl
  | group _ ih => simp [List.filterMap_cons, Symbol.name?, ih]
  | single _ ih => exact ih
  | further _ _ ihf iha => simp [Term.ofExpr, Term.names, ihf, iha]
  | atoms _ ih => exact ih
  | function _ ih => exact ih
  | operand _ _ ihf iha => simp [Term.ofExpr, Term.names, ihf, iha]
  | lambda _ ih => simp [List.filterMap_cons, Symbol.name?, ih]
  | last c _ ih =>
      simp [Term.ofExpr, Term.names, Var.name, List.filterMap_cons, Symbol.name?, ih]
  | next c _ ih => simp [Term.ofExpr, Term.names, Var.name, Symbol.name?, ih]

end Expr

namespace Line

/-- The symbols that are written for a line. -/
inductive Derives : List Symbol → Line Expr → Prop
  /-- Nothing is written. -/
  | empty : Derives [] .empty
  /-- An expression is a line. -/
  | expression {ts : List Symbol} {e : Expr} :
      Expr.Derives .expression ts e → Derives ts (.expression e)
  /-- A name, the sign of a definition and an expression are a line. -/
  | definition (c : Char) {ts : List Symbol} {e : Expr} : Expr.Derives .expression ts e →
      Derives (.variable c :: .assign :: ts) (.definition (String.singleton c) e)

/-- The symbols can be continued to those of a line. -/
def Viable (ts : List Symbol) : Prop := ∃ us line, Derives (ts ++ us) line

/-- Behind the sign of a definition, an expression is read. -/
theorem derives_definition_iff {c : Char} {ts : List Symbol} {line : Line Expr} :
    Derives (.variable c :: .assign :: ts) line ↔
      ∃ e, Expr.Derives .expression ts e ∧ line = .definition (String.singleton c) e := by
  constructor
  · intro h
    cases h with
    | expression he => exact absurd he.assign_notMem (by simp)
    | definition c he => exact ⟨_, he, rfl⟩
  · rintro ⟨e, he, rfl⟩
    exact .definition c he

open UntypedLambda.Expr (Earliest)

theorem earliest_definition {c : Char} {span span' : Span} {rest : List Token} {length : Nat}
    {result : Except Error Expr} (h : Earliest (Expr.Derives .expression) rest length result) :
    Earliest Derives (⟨.variable c, span⟩ :: ⟨.assign, span'⟩ :: rest) length
      (result.map (.definition (String.singleton c))) := by
  cases h with
  | ok he => exact .ok (.definition c he)
  | atEnd expected hcs he =>
      obtain ⟨e, he⟩ := he
      exact .atEnd expected hcs ⟨_, .definition c he⟩
  | atToken expected taken t rest heq hviable hstuck =>
      obtain ⟨us, e, he⟩ := hviable
      refine .atToken expected (⟨.variable c, span⟩ :: ⟨.assign, span'⟩ :: taken) t rest ?_
        ⟨us, _, .definition c he⟩ ?_
      · rw [heq]
        rfl
      · intro us line hline
        obtain ⟨e, he, -⟩ := derives_definition_iff.1 hline
        exact hstuck us e he

/-- The symbols start like a definition. -/
def IsDefinition (ts : List Symbol) : Prop := ∃ c rest, ts = .variable c :: .assign :: rest

/-- Symbols that do not start like a definition are read as an expression. -/
theorem earliest_expression {toks : List Token} {length : Nat} {result : Except Error Expr}
    (hdef : ¬IsDefinition (toks.map Token.symbol))
    (h : Earliest (Expr.Derives .expression) toks length result) :
    Earliest Derives toks length (result.map .expression) := by
  cases h with
  | ok he => exact .ok (.expression he)
  | atEnd expected hcs he =>
      obtain ⟨e, he⟩ := he
      exact .atEnd expected hcs ⟨_, .expression he⟩
  | atToken expected taken t rest heq hviable hstuck =>
      obtain ⟨us, e, he⟩ := hviable
      refine .atToken expected taken t rest heq ⟨us, _, .expression he⟩ ?_
      intro us line hline
      generalize hts : (taken ++ [t]).map Token.symbol ++ us = ts at hline
      cases hline with
      | empty => simp at hts
      | expression he =>
          rw [← hts] at he
          exact hstuck us _ he
      | @definition c ts e he =>
          rcases taken with _ | ⟨v, _ | ⟨a, taken⟩⟩
          · -- a name alone is an expression already
            obtain ⟨hv, -⟩ := List.cons.inj hts
            refine hstuck [] (.var (String.singleton c)) ?_
            rw [List.append_nil, List.nil_append, List.map_singleton, hv]
            exact .atoms (.single (.name c))
          · obtain ⟨hv, hrest⟩ := List.cons.inj hts
            obtain ⟨ha, -⟩ := List.cons.inj hrest
            exact hdef ⟨c, rest.map Token.symbol, by simp [heq, hv, ha]⟩
          · obtain ⟨hv, hrest⟩ := List.cons.inj hts
            obtain ⟨ha, -⟩ := List.cons.inj hrest
            exact hdef ⟨c, (taken ++ t :: rest).map Token.symbol, by simp [heq, hv, ha]⟩

/-- To read an expression that starts with a name is to read the operands behind that name. -/
theorem operands_eq_expression (c : Char) (span : Span) (rest : List Token) (length : Nat)
    (closed : Bool) :
    Cursor.operands ⟨rest, length⟩ (.var (String.singleton c)) closed =
      Cursor.expression ⟨⟨.variable c, span⟩ :: rest, length⟩ closed :=
  rfl

/-- How reading a line goes on depends on the first two symbols. -/
theorem parse_cases (source : String) :
    (tokenize source = [] ∧ parse source = .ok .empty) ∨
      (∃ c span span' rest, tokenize source = ⟨.variable c, span⟩ :: ⟨.assign, span'⟩ :: rest ∧
        parse source =
          (Cursor.finished (Cursor.expression ⟨rest, source.length⟩ false)).map
            (.definition (String.singleton c))) ∨
      tokenize source ≠ [] ∧ ¬IsDefinition ((tokenize source).map Token.symbol) ∧
        parse source =
          (Cursor.finished (Cursor.expression ⟨tokenize source, source.length⟩ false)).map
            .expression := by
  unfold parse Cursor.ofSource
  simp only
  split
  · next hnil => exact .inl ⟨hnil, rfl⟩
  · next c span span' rest hcons => exact .inr (.inl ⟨c, span, span', rest, hcons, rfl⟩)
  · next c span rest hdef hcons =>
      rw [operands_eq_expression c span, ← hcons]
      refine .inr (.inr ⟨by simp [hcons], ?_, rfl⟩)
      rintro ⟨d, ts, hts⟩
      rw [hcons, List.map_cons] at hts
      obtain ⟨⟨s, span'⟩, toks, rfl, rfl, -⟩ := List.map_eq_cons_iff.1 (List.cons.inj hts).2
      exact hdef span' toks rfl
  · next hnil hdef hvar =>
      refine .inr (.inr ⟨hnil, ?_, rfl⟩)
      rintro ⟨c, ts, hts⟩
      obtain ⟨⟨s, span⟩, toks, htoks, rfl, -⟩ := List.map_eq_cons_iff.1 hts
      exact hvar c span toks htoks

/-- **A line is read as the grammar derives it, and an error is reported as early as it
can be.** -/
theorem earliest_parse (source : String) :
    Earliest Derives (tokenize source) source.length (parse source) := by
  rcases parse_cases source with ⟨hnil, hparse⟩ | ⟨c, span, span', rest, hcons, hparse⟩ |
    ⟨-, hdef, hparse⟩
  · rw [hparse, hnil]
    exact .ok .empty
  · rw [hparse, hcons]
    exact earliest_definition (Expr.earliest_finished rest source.length)
  · rw [hparse]
    exact earliest_expression hdef (Expr.earliest_finished (tokenize source) source.length)

/-- A line is read exactly as the grammar derives it. -/
theorem parse_eq_ok_iff {source : String} {line : Line Expr} :
    parse source = .ok line ↔ Derives ((tokenize source).map Token.symbol) line := by
  constructor
  · intro h
    have hearliest := earliest_parse source
    rw [h] at hearliest
    cases hearliest with
    | ok hline => exact hline
  · intro h
    rcases parse_cases source with ⟨hnil, hparse⟩ | ⟨c, span, span', rest, hcons, hparse⟩ |
      ⟨hne, hdef, hparse⟩
    · rw [hnil] at h
      cases h with
      | empty => exact hparse
      | expression he => exact absurd rfl he.ne_nil
    · rw [hcons] at h
      obtain ⟨e, he, rfl⟩ := derives_definition_iff.1 h
      rw [hparse, Expr.finished_of_derives he]
      rfl
    · generalize hts : (tokenize source).map Token.symbol = ts at h hdef
      cases h with
      | empty => exact absurd (List.map_eq_nil_iff.1 hts) hne
      | expression he =>
          rw [← hts] at he
          rw [hparse, Expr.finished_of_derives he]
          rfl
      | definition c he => exact absurd ⟨c, _, rfl⟩ hdef

/-- The names in a line that has been read: the one that is defined, if there is one, and those
in the expression. -/
def names : Line Expr → List String
  | .empty => []
  | .expression e => (Term.ofExpr e).names
  | .definition name e => name :: (Term.ofExpr e).names

theorem names_subset_of_term? {line : Line Expr} {e : Expr} (h : line.term? = some e) :
    (Term.ofExpr e).names ⊆ line.names := by
  cases line with
  | empty => cases h
  | expression e' =>
      cases h
      exact List.Subset.refl _
  | definition name e' =>
      cases h
      exact List.subset_cons_self _ _

theorem Derives.names_eq {ts : List Symbol} {line : Line Expr} (h : Derives ts line) :
    line.names = ts.filterMap Symbol.name? := by
  cases h with
  | empty => rfl
  | expression he => exact he.names_eq
  | definition c he => simp [names, he.names_eq, List.filterMap_cons, Symbol.name?]

/-- All names that are read are single characters, and written as variables. -/
theorem isVariableName_of_parse {source : String} {line : Line Expr} (h : parse source = .ok line)
    {x : String} (hx : x ∈ line.names) : IsVariableName x := by
  rw [(parse_eq_ok_iff.1 h).names_eq, List.mem_filterMap] at hx
  obtain ⟨s, hs, hname⟩ := hx
  obtain ⟨c, rfl, rfl⟩ := Symbol.eq_variable_of_name? hname
  exact ⟨c, rfl, Token.isVariable_of_mem_readFrom hs⟩

/-- Each character of a completion is a symbol by itself. -/
theorem map_symbol_tokenize_fillers {cs : List Char} (h : cs ⊆ Expr.fillers) :
    (tokenize (String.ofList cs)).map Token.symbol = cs.map Symbol.ofChar := by
  have hblank : ∀ c ∈ Expr.fillers, isBlank c = false := by
    intro c hc
    simp only [Expr.fillers, List.mem_cons, List.not_mem_nil, or_false] at hc
    rcases hc with rfl | rfl | rfl <;> decide
  have hassign : ¬assignChars <:+: cs := by
    intro hin
    have hcolon : ':' ∈ Expr.fillers := h (hin.subset (by simp [assignChars]))
    exact absurd hcolon (by decide)
  rw [tokenize, String.toList_ofList]
  exact Token.map_symbol_readFrom 0 (fun c hc => hblank c (h hc)) hassign

/-- **Errors in a line are reported as early as possible.**  A line is read exactly as the
grammar derives it.  If it is refused, then either it ends too early, which is reported
just past its last character, and it can be continued to a line; or a token is to blame,
which is reported with its own span, such that the tokens in front of it can be continued
to a line and no tokens behind it help.  Hence an error is one at the end of the input
exactly if something can be appended to the line, behind a blank, that makes it one. -/
theorem parse_error_earliest (source : String) :
    (∀ line, parse source = .ok line ↔ Derives ((tokenize source).map Token.symbol) line) ∧
    ∀ err, parse source = .error err →
      ((∃ expected, err = .unexpected expected .endOfInput (some (Span.point source.length)) ∧
          Viable ((tokenize source).map Token.symbol)) ∨
        ∃ expected taken t rest, tokenize source = taken ++ t :: rest ∧
          err = .unexpected expected (.token t) (some t.span) ∧
          Viable (taken.map Token.symbol) ∧ ¬Viable ((taken ++ [t]).map Token.symbol)) ∧
      (err.atEndOfInput = true ↔ ∃ u line, parse (source ++ " " ++ u) = .ok line) := by
  refine ⟨fun line => parse_eq_ok_iff, ?_⟩
  intro err herr
  have hearliest := earliest_parse source
  rw [herr] at hearliest
  cases hearliest with
  | @atEnd expected cs hcs hline =>
      obtain ⟨line, hline⟩ := hline
      refine ⟨.inl ⟨expected, rfl, _, line, hline⟩, fun _ => ?_, fun _ => rfl⟩
      refine ⟨String.ofList cs, line, parse_eq_ok_iff.2 ?_⟩
      rw [map_symbol_tokenize_append, map_symbol_tokenize_fillers hcs]
      exact hline
  | atToken expected taken t rest heq hviable hstuck =>
      have hnot : ¬Viable ((taken ++ [t]).map Token.symbol) := by
        rintro ⟨us, line, hline⟩
        exact hstuck us line hline
      refine ⟨.inr ⟨expected, taken, t, rest, heq, rfl, hviable, hnot⟩, fun hend => ?_, ?_⟩
      · cases hend
      · -- whatever is appended, the token stays where it is
        rintro ⟨u, line, hline⟩
        rw [parse_eq_ok_iff, map_symbol_tokenize_append, heq] at hline
        refine absurd ⟨rest.map Token.symbol ++ (tokenize u).map Token.symbol, line, ?_⟩ hnot
        simpa using hline

/-- The theorem at `x := (λy`, which `.x)` would complete, and at `x y := z`, where the
sign of a definition is to blame. -/
theorem parse_error_earliest_unfinished_group :
    let sign : Token := ⟨.assign, ⟨4, 6⟩⟩
    parse "x := (λy" = .error (.unexpected .parameterOrDot .endOfInput (some ⟨8, 8⟩)) ∧
      Viable ((tokenize "x := (λy").map Token.symbol) ∧
      (∃ u line, parse ("x := (λy" ++ " " ++ u) = .ok line) ∧
      parse "x y := z" = .error (.unexpected .operandOrClose (.token sign) (some ⟨4, 6⟩)) ∧
      (∃ taken rest, tokenize "x y := z" = taken ++ sign :: rest ∧
        Viable (taken.map Token.symbol) ∧ ¬Viable ((taken ++ [sign]).map Token.symbol)) ∧
      ¬∃ u line, parse ("x y := z" ++ " " ++ u) = .ok line := by
  intro sign
  have hopen : parse "x := (λy" =
      .error (.unexpected .parameterOrDot .endOfInput (some ⟨8, 8⟩)) := by rfl
  have hsign : parse "x y := z" =
      .error (.unexpected .operandOrClose (.token sign) (some ⟨4, 6⟩)) := by rfl
  obtain ⟨hend, hmore⟩ := (parse_error_earliest "x := (λy").2 _ hopen
  obtain ⟨htoken, hnone⟩ := (parse_error_earliest "x y := z").2 _ hsign
  refine ⟨hopen, ?_, hmore.1 rfl, hsign, ?_, fun h => by cases hnone.2 h⟩
  · rcases hend with ⟨_, -, hviable⟩ | ⟨_, _, _, _, -, herr, -⟩
    · exact hviable
    · cases herr
  · rcases htoken with ⟨_, herr, -⟩ | ⟨_, taken, t, rest, heq, herr, hrest⟩
    · cases herr
    · cases herr
      exact ⟨taken, rest, heq, hrest⟩

end Line

end UntypedLambda
