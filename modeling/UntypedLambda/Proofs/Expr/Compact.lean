import UntypedLambda.Expr.Compact
import UntypedLambda.Proofs.Expr.Parsing
import UntypedLambda.Term

/-!
# The compact form can be read back

The compact form leaves out every sign that the grammar can do without, and still
stands for one expression only.

* `Expr.Plain` — all names are single characters that are read as variables.
* `Expr.derives_compactIn` — the grammar derives the compact form for the expression
  it was made from.
* `Expr.parse_compact` — so it is read back, unless two neighbouring names happen to
  be the sign of a definition.
-/

namespace UntypedLambda

namespace Expr

/-- All names in the expression are written as variables. -/
def Plain : Expr → Prop
  | .var name => IsVariableName name
  | .app fn arg => fn.Plain ∧ arg.Plain
  | .lam param body => IsVariableName param ∧ body.Plain

theorem plain_iff {e : Expr} : e.Plain ↔ ∀ x ∈ (Term.ofExpr e).names, IsVariableName x := by
  induction e with
  | var name => simp [Plain, Term.ofExpr, Term.names, Var.name]
  | app fn arg ihf iha =>
      rw [Plain, ihf, iha, Term.ofExpr, Term.names]
      exact List.forall_mem_append.symm
  | lam param body ih =>
      rw [Plain, ih, Term.ofExpr, Term.names]
      exact List.forall_mem_cons.symm

/-! ## Symbols -/

/-- The symbols of a text in which every character is one. -/
def symbolsOf (text : String) : List Symbol := text.toList.map Symbol.ofChar

@[simp] theorem symbolsOf_append (s t : String) :
    symbolsOf (s ++ t) = symbolsOf s ++ symbolsOf t := by
  simp [symbolsOf]

theorem symbolsOf_singleton {c : Char} (h : IsVariable c) :
    symbolsOf (String.singleton c) = [.variable c] := by
  simp [symbolsOf, h.ofChar]

theorem symbolsOf_group (text : String) :
    symbolsOf ("(" ++ text ++ ")") = .openParen :: (symbolsOf text ++ [.closeParen]) := by
  simp [symbolsOf, Symbol.ofChar]

theorem symbolsOf_var {c : Char} (h : IsVariable c) (inside : Bool) :
    symbolsOf ((var (String.singleton c)).compactIn inside) =
      (if inside then [.dot] else []) ++ [.variable c] := by
  cases inside
  · exact symbolsOf_singleton h
  · show symbolsOf ("." ++ String.singleton c) = _
    rw [symbolsOf_append, symbolsOf_singleton h]
    rfl

theorem symbolsOf_app (fn arg : Expr) (inside : Bool) :
    symbolsOf ((app fn arg).compactIn inside) =
      let operands := symbolsOf (fn.asOperand (fn.compactIn false)) ++
        symbolsOf (arg.asOperand (arg.compactIn false))
      if inside then .dot :: .openParen :: (operands ++ [.closeParen]) else operands := by
  cases inside
  · exact symbolsOf_append _ _
  · show symbolsOf (".(" ++ (_ ++ _) ++ ")") = _
    rw [symbolsOf_append, symbolsOf_append, symbolsOf_append]
    rfl

theorem symbolsOf_lam {c : Char} (h : IsVariable c) (body : Expr) (inside : Bool) :
    symbolsOf ((lam (String.singleton c) body).compactIn inside) =
      (if inside then [] else [.lambda]) ++ .variable c :: symbolsOf (body.compactIn true) := by
  cases inside
  · show symbolsOf ("λ" ++ String.singleton c ++ _) = _
    rw [symbolsOf_append, symbolsOf_append, symbolsOf_singleton h]
    rfl
  · show symbolsOf ("" ++ String.singleton c ++ _) = _
    rw [symbolsOf_append, symbolsOf_append, symbolsOf_singleton h]
    rfl

/-! ## The grammar -/

/-- An operand is an atom. -/
theorem Derives.asOperand {e : Expr} (hp : e.Plain)
    (h : Derives .expression (symbolsOf (e.compactIn false)) e) :
    Derives .atom (symbolsOf (e.asOperand (e.compactIn false))) e := by
  cases e with
  | var name =>
      obtain ⟨c, rfl, hc⟩ := hp
      show Derives .atom (symbolsOf (String.singleton c)) _
      rw [symbolsOf_singleton hc]
      exact .name c
  | app fn arg =>
      show Derives .atom (symbolsOf ("(" ++ _ ++ ")")) _
      rw [symbolsOf_group]
      exact .group h
  | lam param body =>
      show Derives .atom (symbolsOf ("(" ++ _ ++ ")")) _
      rw [symbolsOf_group]
      exact .group h

/-- The grammar derives the compact form, by itself and as the body of a function. -/
theorem derives_compactIn {e : Expr} (h : e.Plain) :
    Derives .expression (symbolsOf (e.compactIn false)) e ∧
      ∀ c, Derives .parameters (.variable c :: symbolsOf (e.compactIn true))
        (.lam (String.singleton c) e) := by
  induction e with
  | var name =>
      obtain ⟨d, rfl, hd⟩ := h
      have hname : Derives .expression [.variable d] (.var (String.singleton d)) :=
        .atoms (.single (.name d))
      rw [symbolsOf_var hd, symbolsOf_var hd]
      exact ⟨hname, fun c => .last c hname⟩
  | app fn arg ihf iha =>
      have hfn := (ihf h.1).1.asOperand h.1
      have harg := (iha h.2).1.asOperand h.2
      have happ : Derives .expression _ (.app fn arg) := .atoms (.further (.single hfn) harg)
      rw [symbolsOf_app, symbolsOf_app]
      exact ⟨happ, fun c => .last c (.atoms (.single (.group happ)))⟩
  | lam param body ih =>
      obtain ⟨⟨d, rfl, hd⟩, hb⟩ := h
      have hparams := (ih hb).2 d
      rw [symbolsOf_lam hd, symbolsOf_lam hd]
      exact ⟨.function (.lambda hparams), fun c => .next c hparams⟩

/-! ## Reading back -/

/-- No character of the text is a blank. -/
def NoBlank (text : String) : Prop := ∀ c ∈ text.toList, isBlank c = false

instance (text : String) : Decidable (NoBlank text) :=
  List.decidableBAll (fun c => isBlank c = false) text.toList

theorem noBlank_append {s t : String} (hs : NoBlank s) (ht : NoBlank t) : NoBlank (s ++ t) := by
  intro c hc
  rw [String.toList_append, List.mem_append] at hc
  exact hc.elim (hs c) (ht c)

theorem noBlank_of_isVariableName {x : String} (h : IsVariableName x) : NoBlank x := by
  obtain ⟨c, rfl, hc⟩ := h
  intro d hd
  rw [String.toList_singleton, List.mem_singleton] at hd
  exact hd ▸ hc.1

theorem noBlank_group {text : String} (h : NoBlank text) : NoBlank ("(" ++ text ++ ")") :=
  noBlank_append (noBlank_append (by decide) h) (by decide)

theorem noBlank_asOperand {e : Expr} {text : String} (h : NoBlank text) :
    NoBlank (e.asOperand text) := by
  cases e with
  | var name => exact h
  | app fn arg => exact noBlank_group h
  | lam param body => exact noBlank_group h

/-- No character of the compact form is a blank, if none is in the names. -/
theorem noBlank_compactIn {e : Expr} (h : ∀ x ∈ (Term.ofExpr e).names, NoBlank x)
    (inside : Bool) : NoBlank (e.compactIn inside) := by
  induction e generalizing inside with
  | var name =>
      have hname : NoBlank name := h name (List.mem_cons_self ..)
      cases inside with
      | false => exact hname
      | true => exact noBlank_append (by decide) hname
  | app fn arg ihf iha =>
      obtain ⟨hfn, harg⟩ := List.forall_mem_append.1 h
      have htext := noBlank_append (noBlank_asOperand (e := fn) (ihf hfn false))
        (noBlank_asOperand (e := arg) (iha harg false))
      cases inside with
      | false => exact htext
      | true => exact noBlank_append (noBlank_append (by decide) htext) (by decide)
  | lam param body ih =>
      obtain ⟨hparam, hbody⟩ := List.forall_mem_cons.1 h
      have hopen : NoBlank (if inside then "" else "λ") := by cases inside <;> decide
      exact noBlank_append (noBlank_append hopen hparam) (ih hbody true)

/-- **The compact form is read back**, unless it has the sign of a definition in it;
then it is not an expression. -/
theorem parse_compact {e : Expr} (h : e.Plain) :
    (¬assignChars <:+: e.compact.toList → parse e.compact = .ok e) ∧
      (assignChars <:+: e.compact.toList → ∀ e', parse e.compact ≠ .ok e') := by
  constructor
  · intro hassign
    refine parse_of_derives ?_
    have hblank : NoBlank e.compact :=
      noBlank_compactIn (fun x hx => noBlank_of_isVariableName (plain_iff.1 h x hx)) false
    rw [tokenize, Token.map_symbol_readFrom 0 hblank hassign]
    exact (derives_compactIn h).1
  · intro hassign
    exact parse_ne_ok_of_assign (Token.assign_mem_readFrom 0 hassign)

end Expr

end UntypedLambda
