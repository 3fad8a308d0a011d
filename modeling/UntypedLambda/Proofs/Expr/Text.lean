import UntypedLambda.Proofs.Expr.Compact
import UntypedLambda.Proofs.Line
import UntypedLambda.Term.Printer

/-!
# The parenthesised form can be read back

An expression that is written with all its parentheses stands for itself, and so does
a line.  Unlike the compact form it can always be read: wherever two names could meet,
a blank or a sign stands between them, so no `:` comes to stand before a `=` that it
does not belong to.

* `Expr.derives_text` — the parenthesised form is an atom for the expression it was made
  from.
* `text_reads_back` — expressions and lines are read back as they were.
-/

namespace UntypedLambda

/-- A name that is written as a variable is read as that variable. -/
theorem map_symbol_tokenize_singleton {c : Char} (h : IsVariable c) :
    (tokenize (String.singleton c)).map Token.symbol = [.variable c] := by
  have hblank : ∀ d ∈ [c], isBlank d = false := by simpa using h.1
  have hassign : ¬assignChars <:+: [c] := by
    intro hi
    exact absurd hi.length_le (by simp [assignChars])
  unfold tokenize
  rw [String.toList_singleton, Token.map_symbol_readFrom 0 hblank hassign, List.map_singleton,
    h.ofChar]

namespace Expr

theorem map_symbol_tokenize_app (fn arg : Expr) :
    (tokenize (app fn arg).text).map Token.symbol =
      .openParen :: ((tokenize fn.text).map Token.symbol ++ (tokenize arg.text).map Token.symbol ++
        [.closeParen]) := by
  have hopen : (tokenize "(").map Token.symbol = [.openParen] := by decide
  have hclose : (tokenize ")").map Token.symbol = [.closeParen] := by decide
  rw [text, map_symbol_tokenize_append_of (by simp), map_symbol_tokenize_append,
    map_symbol_tokenize_append_of (by simp), hopen, hclose]
  simp

theorem map_symbol_tokenize_lam {c : Char} (h : IsVariable c) (body : Expr) :
    (tokenize (lam (String.singleton c) body).text).map Token.symbol =
      .openParen :: (.lambda :: .variable c :: .dot :: (tokenize body.text).map Token.symbol ++
        [.closeParen]) := by
  have hopen : (tokenize "(λ").map Token.symbol = [.openParen, .lambda] := by decide
  have hdot : (tokenize ".").map Token.symbol = [.dot] := by decide
  have hclose : (tokenize ")").map Token.symbol = [.closeParen] := by decide
  rw [text, map_symbol_tokenize_append_of (by simp), map_symbol_tokenize_append_of (by simp),
    map_symbol_tokenize_append_of (by simp), map_symbol_tokenize_append_of (by simp), hopen, hdot,
    hclose, map_symbol_tokenize_singleton h]
  simp

/-- The grammar derives the parenthesised form as an atom. -/
theorem derives_text {e : Expr} (h : e.Plain) :
    Derives .atom ((tokenize e.text).map Token.symbol) e := by
  induction e with
  | var name =>
      obtain ⟨c, rfl, hc⟩ := h
      rw [text, map_symbol_tokenize_singleton hc]
      exact .name c
  | app fn arg ihf iha =>
      rw [map_symbol_tokenize_app]
      exact .group (.atoms (.further (.single (ihf h.1)) (iha h.2)))
  | lam param body ih =>
      obtain ⟨⟨c, rfl, hc⟩, hbody⟩ := h
      rw [map_symbol_tokenize_lam hc]
      exact .group (.function (.lambda (.last c (.atoms (.single (ih hbody))))))

end Expr

/-- The grammar derives the parenthesised form of a line, if all its names are variables. -/
theorem Line.derives_exprText {line : Line Expr} (h : ∀ x ∈ line.names, IsVariableName x) :
    Line.Derives ((tokenize line.exprText).map Token.symbol) line := by
  cases line with
  | empty => exact .empty
  | expression e => exact .expression (.atoms (.single (Expr.derives_text (Expr.plain_iff.2 h))))
  | definition name e =>
      obtain ⟨⟨c, rfl, hc⟩, hnames⟩ := List.forall_mem_cons.1 h
      have hsign : (tokenize " := ").map Token.symbol = [.assign] := by decide
      have hsymbols :
          (tokenize (Line.definition (String.singleton c) e).exprText).map Token.symbol =
            .variable c :: .assign :: (tokenize e.text).map Token.symbol := by
        show (tokenize (String.singleton c ++ " := " ++ e.text)).map Token.symbol = _
        rw [map_symbol_tokenize_append_of (by simp), map_symbol_tokenize_append_of (by simp), hsign,
          map_symbol_tokenize_singleton hc]
        rfl
      rw [hsymbols]
      exact .definition c (.atoms (.single (Expr.derives_text (Expr.plain_iff.2 hnames))))

/-- **What is written with all parentheses is read back as it was**: every expression whose names
are variables, and every line that has been read. -/
theorem text_reads_back :
    (∀ e : Expr, e.Plain → Expr.parse e.text = .ok e) ∧
      ∀ source line, Line.parse source = .ok line → Line.parse line.exprText = .ok line := by
  constructor
  · intro e he
    exact Expr.parse_of_derives (.atoms (.single (Expr.derives_text he)))
  · intro source line h
    exact Line.parse_eq_ok_iff.2 (Line.derives_exprText fun x => Line.isVariableName_of_parse h)

/-- The theorem at names that would make up the sign of a definition if they met. -/
theorem text_reads_back_colons :
    let e : Expr := .app (.var ":") (.lam "=" (.app (.var ":") (.var "=")))
    e.Plain ∧ e.text = "(: (λ=.(: =)))" ∧ Expr.parse "(: (λ=.(: =)))" = .ok e ∧
      Line.parse "::=:λ=.: =" = .ok (.definition ":" e) ∧
      (Line.definition ":" e).exprText = ": := (: (λ=.(: =)))" ∧
      Line.parse ": := (: (λ=.(: =)))" = .ok (.definition ":" e) := by
  intro e
  have hcolon : IsVariableName ":" := ⟨':', rfl, by decide⟩
  have hequals : IsVariableName "=" := ⟨'=', rfl, by decide⟩
  have he : e.Plain := ⟨hcolon, hequals, hcolon, hequals⟩
  have htext : e.text = "(: (λ=.(: =)))" := by decide +kernel +zetaReduce
  have hline : Line.parse "::=:λ=.: =" = .ok (.definition ":" e) := by rfl
  have hlinetext : (Line.definition ":" e).exprText = ": := (: (λ=.(: =)))" := by
    decide +kernel +zetaReduce
  obtain ⟨hexpr, hlines⟩ := text_reads_back
  exact ⟨he, htext, htext ▸ hexpr e he, hline, hlinetext, hlinetext ▸ hlines _ _ hline⟩

end UntypedLambda
