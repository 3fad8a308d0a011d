import UntypedLambda.Expr.Grammar
import UntypedLambda.Expr.Parser
import UntypedLambda.Proofs.Token

/-!
# What is written can be read

The reader accepts whatever the grammar derives, and answers with the expression
derived.

* `Expr.Reads` — what the machine does with the symbols of each part of an
  expression, wherever that part stands.
* `Expr.Derives.reads` — it does so for all symbols that the grammar derives.
* `Expr.read_of_derives`, `Expr.parse_of_derives` — tokens and a source with those
  symbols are read.
* `Expr.parse_ne_ok_of_assign` — a source with the sign of a definition is not.
-/

namespace UntypedLambda

namespace Expr

variable {r : Reading}

/-- The place behind an expression that may be applied to what follows. -/
def Place.after : Option Expr → Place
  | none => .start
  | some head => .operands head

/-- The tokens lead the machine to a place behind operands.  If the open bodies
ended there, what is left would be `u`. -/
def LeadsTo (r : Reading) (toks : List Token) (place : Place) (frames : List Frame)
    (u : Unwound) : Prop :=
  ∃ head frames', unwind head frames' = u ∧
    ∀ rest, read r (toks ++ rest) place frames = read r rest (.operands head) frames'

/-- What the machine does with the symbols of a part of an expression. -/
def Reads (r : Reading) (p : Part) (ts : List Symbol) (e : Expr) : Prop :=
  ∀ toks frames, toks.map Token.symbol = ts →
    match p with
    | .atom => ∀ before rest,
        read r (toks ++ rest) (.after before) frames = read r rest (.operands (e.applyTo before)) frames
    | .atoms => ∀ rest, read r (toks ++ rest) .start frames = read r rest (.operands e) frames
    | .expression => LeadsTo r toks .start frames (unwind e frames)
    | .function => ∀ before,
        LeadsTo r toks (.after before) frames (unwind (e.applyTo before) frames)
    | .parameters => ∀ before names,
        LeadsTo r toks (.params before names) frames
          (unwind ((abstract names e).applyTo before) frames)

/-! ## Single tokens -/

theorem read_of_move {t : Token} {place place' : Place} {frames frames' : List Frame}
    (h : move r t place frames = .go place' frames') (rest : List Token) :
    read r (t :: rest) place frames = read r rest place' frames' := by
  rw [read, h]

theorem read_variable {t : Token} {c : Char} (h : t.symbol = .variable c) (before : Option Expr)
    (frames : List Frame) (rest : List Token) :
    read r (t :: rest) (.after before) frames =
      read r rest (.operands (applyTo (.var (String.singleton c)) before)) frames := by
  refine read_of_move ?_ rest
  cases before <;> simp only [Place.after, move, h, applyTo]

theorem read_lambda {t : Token} (h : t.symbol = .lambda) (before : Option Expr)
    (frames : List Frame) (rest : List Token) :
    read r (t :: rest) (.after before) frames = read r rest (.params before []) frames := by
  refine read_of_move ?_ rest
  cases before <;> simp only [Place.after, move, h]

theorem read_openParen {t : Token} (h : t.symbol = .openParen) (before : Option Expr)
    (frames : List Frame) (rest : List Token) :
    read r (t :: rest) (.after before) frames =
      read r rest .start (.group before :: frames) := by
  refine read_of_move ?_ rest
  cases before <;> simp only [Place.after, move, h]

theorem read_closeParen {t : Token} (h : t.symbol = .closeParen) {head e : Expr}
    {before : Option Expr} {frames outer : List Frame}
    (hu : unwind head frames = .group e before outer) (rest : List Token) :
    read r (t :: rest) (.operands head) frames =
      read r rest (.operands (e.applyTo before)) outer := by
  refine read_of_move ?_ rest
  simp only [move, h, hu]

theorem read_parameter {t : Token} {c : Char} (h : t.symbol = .variable c) (before : Option Expr)
    (names : List String) (frames : List Frame) (rest : List Token) :
    read r (t :: rest) (.params before names) frames =
      read r rest (.params before (String.singleton c :: names)) frames := by
  refine read_of_move ?_ rest
  cases names <;> simp only [move, h]

theorem read_dot {t : Token} (h : t.symbol = .dot) (before : Option Expr) (name : String)
    (names : List String) (frames : List Frame) (rest : List Token) :
    read r (t :: rest) (.params before (name :: names)) frames =
      read r rest .start (.body before (name :: names) :: frames) := by
  refine read_of_move ?_ rest
  simp only [move, h]

/-! ## Parts of expressions -/

/-- A part of an expression is read wherever it stands. -/
theorem Derives.reads {p : Part} {ts : List Symbol} {e : Expr} (h : Derives p ts e) :
    Reads r p ts e := by
  induction h with
  | name c =>
      intro toks frames htoks before rest
      obtain ⟨t, rfl, ht⟩ := List.map_eq_singleton_iff.1 htoks
      exact read_variable ht before frames rest
  | @group ts e _ ih =>
      intro toks frames htoks before rest
      obtain ⟨t, toks', rfl, ht, hrest⟩ := List.map_eq_cons_iff.1 htoks
      obtain ⟨inner, close, rfl, hinner, hclose⟩ := List.map_eq_append_iff.1 hrest
      obtain ⟨t', rfl, ht'⟩ := List.map_eq_singleton_iff.1 hclose
      obtain ⟨head, frames', hu, hread⟩ := ih inner (.group before :: frames) hinner
      rw [List.cons_append, read_openParen ht, List.append_assoc, hread]
      exact read_closeParen ht' hu rest
  | single _ ih =>
      intro toks frames htoks rest
      exact ih toks frames htoks none rest
  | further _ _ ihf iha =>
      intro toks frames htoks rest
      obtain ⟨fs, as, rfl, hf, ha⟩ := List.map_eq_append_iff.1 htoks
      rw [List.append_assoc, ihf fs frames hf]
      exact iha as frames ha (some _) rest
  | atoms _ ih =>
      intro toks frames htoks
      exact ⟨_, frames, rfl, ih toks frames htoks⟩
  | function _ ih =>
      intro toks frames htoks
      exact ih toks frames htoks none
  | @operand ts us f a _ _ ihf iha =>
      intro toks frames htoks
      obtain ⟨fs, as, rfl, hf, ha⟩ := List.map_eq_append_iff.1 htoks
      obtain ⟨head, frames', hu, hread⟩ := iha as frames ha (some f)
      refine ⟨head, frames', hu, fun rest => ?_⟩
      rw [List.append_assoc, ihf fs frames hf]
      exact hread rest
  | lambda _ ih =>
      intro toks frames htoks before
      obtain ⟨t, toks', rfl, ht, hrest⟩ := List.map_eq_cons_iff.1 htoks
      obtain ⟨head, frames', hu, hread⟩ := ih toks' frames hrest before []
      refine ⟨head, frames', hu, fun rest => ?_⟩
      rw [List.cons_append, read_lambda ht, hread]
  | last c _ ih =>
      intro toks frames htoks before names
      obtain ⟨t, toks', rfl, ht, hrest⟩ := List.map_eq_cons_iff.1 htoks
      obtain ⟨t', toks'', rfl, ht', hrest'⟩ := List.map_eq_cons_iff.1 hrest
      obtain ⟨head, frames', hu, hread⟩ :=
        ih toks'' (.body before (String.singleton c :: names) :: frames) hrest'
      refine ⟨head, frames', hu, fun rest => ?_⟩
      rw [List.cons_append, List.cons_append, read_parameter ht, read_dot ht', hread]
  | next c _ ih =>
      intro toks frames htoks before names
      obtain ⟨t, toks', rfl, ht, hrest⟩ := List.map_eq_cons_iff.1 htoks
      obtain ⟨head, frames', hu, hread⟩ := ih toks' frames hrest before (String.singleton c :: names)
      refine ⟨head, frames', hu, fun rest => ?_⟩
      rw [List.cons_append, read_parameter ht, hread]

/-! ## Whole sources -/

/-- Tokens are read as the expression that the grammar derives their symbols for. -/
theorem read_of_derives {toks : List Token} {e : Expr} (hr : r.closed = false)
    (h : Derives .expression (toks.map Token.symbol) e) : read r toks .start [] = (.ok e, []) := by
  obtain ⟨head, frames, hu, hread⟩ := h.reads (r := r) toks [] rfl
  have hall := hread []
  rw [List.append_nil] at hall
  rw [hall, read, atEnd, hu, hr]
  rfl

/-- A source is read as the expression that the grammar derives its symbols for. -/
theorem parse_of_derives {source : String} {e : Expr}
    (h : Derives .expression ((tokenize source).map Token.symbol) e) : parse source = .ok e := by
  unfold parse Cursor.expression Cursor.readFrom
  rw [show (Cursor.ofSource source).rest = tokenize source from rfl, read_of_derives rfl h]
  rfl

/-- The sign of a definition ends the reading, and not with an expression. -/
theorem move_assign {t : Token} (h : t.symbol = .assign) (place : Place) (frames : List Frame) :
    ∃ e taken, move r t place frames = .stop (.error e) taken := by
  rcases place with _ | head | ⟨before, _ | ⟨p, ps⟩⟩
  · exact ⟨_, true, by simp only [move, h]; rfl⟩
  · exact ⟨_, false, by simp only [move, h]; rfl⟩
  · exact ⟨_, true, by simp only [move, h]; rfl⟩
  · exact ⟨_, false, by simp only [move, h]; rfl⟩

theorem assign_mem_of_ne {t : Token} {rest : List Token} (ht : t.symbol ≠ .assign)
    (h : .assign ∈ (t :: rest).map Token.symbol) : .assign ∈ rest.map Token.symbol := by
  rw [List.map_cons, List.mem_cons] at h
  exact h.resolve_left (Ne.symm ht)

/-- The sign of a definition is refused, or left behind. -/
theorem assign_mem_read {toks : List Token} {place : Place} {frames : List Frame} {e : Expr}
    (h : .assign ∈ toks.map Token.symbol) (hok : (read r toks place frames).1 = .ok e) :
    .assign ∈ (read r toks place frames).2.map Token.symbol := by
  induction toks generalizing place frames with
  | nil => cases h
  | cons t rest ih =>
      have hne : t.symbol ≠ .assign := by
        intro ht
        obtain ⟨e', taken, hmove⟩ := move_assign (r := r) ht place frames
        rw [read, hmove] at hok
        cases hok
      have hrest := assign_mem_of_ne hne h
      cases hmove : move r t place frames with
      | go place' frames' =>
          rw [read_of_move hmove] at hok ⊢
          exact ih hrest hok
      | stop result taken =>
          rw [read, hmove]
          cases taken with
          | false => exact h
          | true => exact hrest

/-- A source with the sign of a definition in it is no expression. -/
theorem parse_ne_ok_of_assign {source : String}
    (h : .assign ∈ (tokenize source).map Token.symbol) (e : Expr) : parse source ≠ .ok e := by
  intro hok
  simp only [parse, Cursor.finished, Cursor.expression, Cursor.readFrom, Cursor.ofSource] at hok
  split at hok
  · cases hok
  · next e' he' =>
      have hleft := assign_mem_read h he'
      simp only [Cursor.finish] at hok
      split at hok
      · next hnil =>
          rw [hnil] at hleft
          cases hleft
      · cases hok

end Expr

end UntypedLambda
