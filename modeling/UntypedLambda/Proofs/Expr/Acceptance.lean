import UntypedLambda.Proofs.Expr.Grammar
import UntypedLambda.Proofs.Expr.Parsing

/-!
# What is read was written

The reader accepts nothing but what the grammar derives, and it refuses a line no
later than at the first token behind which no line of the grammar goes on.

* `Expr.Goes` — all that the machine can do with a token that it takes.
* `Expr.Reached` — the symbols with which the machine gets to a place;
  `Reached.goes` says that a token keeps this, and `Takes.reached` that a run does.
* `Expr.completion` — a text that completes what has been read.
* `Expr.earliest_finished` — how the reading of a whole list of tokens ends.
* `Expr.parse_recognizes_grammar` — a source is read exactly as the grammar derives
  it, and refused if the grammar does not.
-/

namespace UntypedLambda

namespace Expr

/-! ## The symbols behind a place -/

/-- The symbols of the atoms that an opened part is going to be applied to. -/
inductive Precedes : List Symbol → Option Expr → Prop
  /-- There are none. -/
  | none : Precedes [] none
  /-- Atoms in a row. -/
  | some {ts : List Symbol} {f : Expr} : Derives .atoms ts f → Precedes ts (some f)

theorem Precedes.atom {ts us : List Symbol} {before : Option Expr} {a : Expr}
    (h : Precedes ts before) (ha : Derives .atom us a) :
    Derives .atoms (ts ++ us) (a.applyTo before) := by
  cases h with
  | none => exact .single ha
  | some hf => exact .further hf ha

theorem Precedes.function {ts us : List Symbol} {before : Option Expr} {a : Expr}
    (h : Precedes ts before) (ha : Derives .function us a) :
    Derives .expression (ts ++ us) (a.applyTo before) := by
  cases h with
  | none => exact .function ha
  | some hf => exact .operand hf ha

/-- The symbols of parameters, which are listed from the innermost one. -/
def parameterSymbols (cs : List Char) : List Symbol := (cs.map Symbol.variable).reverse

theorem Derives.parameters {ts : List Symbol} {b : Expr} (h : Derives .parameters ts b)
    (cs : List Char) :
    Derives .parameters (parameterSymbols cs ++ ts) (abstract (cs.map String.singleton) b) := by
  induction cs generalizing ts b with
  | nil => exact h
  | cons c cs ih =>
      rw [parameterSymbols, List.map_cons, List.reverse_cons, List.append_assoc]
      exact ih (.next c h)

/-- Parameters and a body are a function. -/
theorem Derives.abstract {ts : List Symbol} {b : Expr} (h : Derives .expression ts b) (c : Char)
    (cs : List Char) :
    Derives .function (.lambda :: (parameterSymbols (c :: cs) ++ .dot :: ts))
      (abstract ((c :: cs).map String.singleton) b) := by
  rw [parameterSymbols, List.map_cons, List.reverse_cons, List.append_assoc]
  exact .lambda ((Derives.last c h).parameters cs)

/-- The symbols that open the frames, up to the place inside of all of them. -/
inductive Opens : List Symbol → List Frame → Prop
  /-- Nothing is open. -/
  | nil : Opens [] []
  /-- A parenthesis. -/
  | group {ts us : List Symbol} {frames : List Frame} {before : Option Expr} :
      Opens ts frames → Precedes us before →
      Opens (ts ++ (us ++ [.openParen])) (.group before :: frames)
  /-- A function, up to its dot. -/
  | body {ts us : List Symbol} {frames : List Frame} {before : Option Expr} (c : Char)
      (cs : List Char) : Opens ts frames → Precedes us before →
      Opens (ts ++ (us ++ .lambda :: (parameterSymbols (c :: cs) ++ [.dot])))
        (.body before ((c :: cs).map String.singleton) :: frames)

/-- The symbols with which the machine gets to a place. -/
def Reached (ts : List Symbol) : Place → List Frame → Prop
  | .start, frames => Opens ts frames
  | .operands head, frames => ∃ opening us, ts = opening ++ us ∧ Opens opening frames ∧
      Derives .atoms us head
  | .params before names, frames => ∃ opening us cs,
      ts = opening ++ (us ++ .lambda :: parameterSymbols cs) ∧ Opens opening frames ∧
      Precedes us before ∧ names = cs.map String.singleton

theorem reached_after_iff {ts : List Symbol} {before : Option Expr} {frames : List Frame} :
    Reached ts (.after before) frames ↔
      ∃ opening us, ts = opening ++ us ∧ Opens opening frames ∧ Precedes us before := by
  cases before with
  | none =>
      constructor
      · intro h
        exact ⟨ts, [], (List.append_nil ts).symm, h, .none⟩
      · rintro ⟨opening, us, rfl, h, hus⟩
        cases hus
        rw [List.append_nil]
        exact h
  | some f =>
      constructor
      · rintro ⟨opening, us, rfl, h, hus⟩
        exact ⟨opening, us, rfl, h, .some hus⟩
      · rintro ⟨opening, us, rfl, h, hus⟩
        cases hus with
        | some hf => exact ⟨opening, us, rfl, h, hf⟩

/-- What is left after the bodies of the open functions have ended has the symbols
given. -/
def Unwound.Spells (ts : List Symbol) : Unwound → Prop
  | .whole e => Derives .expression ts e
  | .group e before outer => ∃ opening us vs, ts = opening ++ (us ++ .openParen :: vs) ∧
      Opens opening outer ∧ Precedes us before ∧ Derives .expression vs e

theorem Opens.unwind {ts us : List Symbol} {frames : List Frame} {e : Expr} (h : Opens ts frames)
    (he : Derives .expression us e) : (unwind e frames).Spells (ts ++ us) := by
  induction h generalizing us e with
  | nil => exact he
  | @group ts vs frames before hopen hbefore ih =>
      refine ⟨ts, vs, us, ?_, hopen, hbefore, he⟩
      simp only [List.append_assoc, List.cons_append, List.nil_append]
  | @body ts vs frames before c cs hopen hbefore ih =>
      have hwhole := ih (hbefore.function (he.abstract c cs))
      rw [Expr.unwind]
      simpa only [List.append_assoc, List.cons_append, List.nil_append] using hwhole

/-! ## Single tokens -/

/-- What the machine does with a symbol that it takes. -/
inductive Goes : Symbol → Place → List Frame → Place → List Frame → Prop
  /-- A name is an operand. -/
  | name (c : Char) (before : Option Expr) (frames : List Frame) :
      Goes (.variable c) (.after before) frames
        (.operands (applyTo (.var (String.singleton c)) before)) frames
  /-- A `λ` opens a function. -/
  | lambda (before : Option Expr) (frames : List Frame) :
      Goes .lambda (.after before) frames (.params before []) frames
  /-- A parenthesis opens a group. -/
  | openParen (before : Option Expr) (frames : List Frame) :
      Goes .openParen (.after before) frames .start (.group before :: frames)
  /-- A parenthesis closes the innermost group. -/
  | closeParen {head e : Expr} {before : Option Expr} {frames outer : List Frame} :
      unwind head frames = .group e before outer →
      Goes .closeParen (.operands head) frames (.operands (e.applyTo before)) outer
  /-- A name is a parameter. -/
  | parameter (c : Char) (before : Option Expr) (names : List String) (frames : List Frame) :
      Goes (.variable c) (.params before names) frames
        (.params before (String.singleton c :: names)) frames
  /-- A dot ends the parameters. -/
  | dot (before : Option Expr) (name : String) (names : List String) (frames : List Frame) :
      Goes .dot (.params before (name :: names)) frames .start
        (.body before (name :: names) :: frames)

variable {r : Reading}

theorem goes_of_move {t : Token} {place place' : Place} {frames frames' : List Frame}
    (h : move r t place frames = .go place' frames') :
    Goes t.symbol place frames place' frames' := by
  obtain ⟨symbol, span⟩ := t
  rcases place with _ | head | ⟨before, _ | ⟨name, names⟩⟩
  · cases symbol with
    | «variable» c => cases h; exact .name c none frames
    | lambda => cases h; exact .lambda none frames
    | openParen => cases h; exact .openParen none frames
    | dot | closeParen | assign => cases h
  · cases symbol with
    | «variable» c => cases h; exact .name c (some head) frames
    | lambda => cases h; exact .lambda (some head) frames
    | openParen => cases h; exact .openParen (some head) frames
    | closeParen =>
        simp only [move] at h
        split at h
        · cases h
        · next e before outer hu => cases h; exact .closeParen hu
    | dot | assign => cases h
  · cases symbol with
    | «variable» c => cases h; exact .parameter c before [] frames
    | lambda | dot | openParen | closeParen | assign => cases h
  · cases symbol with
    | «variable» c => cases h; exact .parameter c before (name :: names) frames
    | dot => cases h; exact .dot before name names frames
    | lambda | openParen | closeParen | assign => cases h

/-- A symbol that is taken is one more behind the new place. -/
theorem Reached.goes {ts : List Symbol} {s : Symbol} {place place' : Place}
    {frames frames' : List Frame} (h : Reached ts place frames)
    (hgoes : Goes s place frames place' frames') : Reached (ts ++ [s]) place' frames' := by
  cases hgoes with
  | name c before =>
      obtain ⟨opening, us, rfl, hopen, hbefore⟩ := reached_after_iff.1 h
      exact ⟨opening, us ++ [.variable c], List.append_assoc .., hopen, hbefore.atom (.name c)⟩
  | lambda before =>
      obtain ⟨opening, us, rfl, hopen, hbefore⟩ := reached_after_iff.1 h
      exact ⟨opening, us, [], List.append_assoc .., hopen, hbefore, rfl⟩
  | openParen before =>
      obtain ⟨opening, us, rfl, hopen, hbefore⟩ := reached_after_iff.1 h
      rw [List.append_assoc]
      exact .group hopen hbefore
  | @closeParen head e before _ _ hu =>
      obtain ⟨opening, us, rfl, hopen, hatoms⟩ := h
      have hspells := hopen.unwind (.atoms hatoms)
      rw [hu] at hspells
      obtain ⟨opening', us', vs, heq, hopen', hbefore, he⟩ := hspells
      refine ⟨opening', us' ++ .openParen :: (vs ++ [.closeParen]), ?_, hopen',
        hbefore.atom (.group he)⟩
      rw [heq]
      simp only [List.append_assoc, List.cons_append]
  | parameter c before names =>
      obtain ⟨opening, us, cs, rfl, hopen, hbefore, rfl⟩ := h
      refine ⟨opening, us, c :: cs, ?_, hopen, hbefore, rfl⟩
      simp only [parameterSymbols, List.map_cons, List.reverse_cons, List.append_assoc,
        List.cons_append]
  | dot before name names =>
      obtain ⟨opening, us, cs, rfl, hopen, hbefore, hnames⟩ := h
      cases cs with
      | nil => cases hnames
      | cons c cs =>
          rw [hnames, Reached]
          have hbody := hopen.body c cs hbefore
          simpa only [List.append_assoc, List.cons_append] using hbody

/-- A token at which the machine stops is refused, or it is a closing parenthesis behind
a whole expression. -/
theorem move_eq_stop {t : Token} {place : Place} {frames : List Frame} {result : Except Error Expr}
    {taken : Bool} (h : move r t place frames = .stop result taken) :
    (∃ expected, result = .error (.unexpected expected (.token t) (some t.span))) ∨
      taken = r.closed ∧ ∃ e, result = .ok e := by
  obtain ⟨symbol, span⟩ := t
  rcases place with _ | head | ⟨before, _ | ⟨name, names⟩⟩
  · cases symbol with
    | «variable» | lambda | openParen => cases h
    | dot | closeParen | assign => cases h; exact .inl ⟨_, rfl⟩
  · cases symbol with
    | «variable» | lambda | openParen => cases h
    | closeParen =>
        simp only [move] at h
        split at h <;> cases h
        exact .inr ⟨rfl, _, rfl⟩
    | dot | assign => cases h; exact .inl ⟨_, rfl⟩
  · cases symbol with
    | «variable» => cases h
    | lambda | dot | openParen | closeParen | assign => cases h; exact .inl ⟨_, rfl⟩
  · cases symbol with
    | «variable» | dot => cases h
    | lambda | openParen | closeParen | assign => cases h; exact .inl ⟨_, rfl⟩

/-- At the end of the line, an expression has been read or more of it is missing. -/
theorem atEnd_cases (r : Reading) (place : Place) (frames : List Frame) :
    (∃ head e, place = .operands head ∧ unwind head frames = .whole e ∧
        atEnd r place frames = .ok e) ∨
      ∃ expected, atEnd r place frames =
        .error (.unexpected expected .endOfInput (some r.endSpan)) := by
  rcases place with _ | head | ⟨before, _ | ⟨name, names⟩⟩
  · exact .inr ⟨_, rfl⟩
  · simp only [atEnd]
    split
    · next e hu _ => exact .inl ⟨head, e, rfl, hu, rfl⟩
    · exact .inr ⟨_, rfl⟩
  · exact .inr ⟨_, rfl⟩
  · exact .inr ⟨_, rfl⟩

/-! ## Runs -/

/-- The machine takes all of the tokens, on its way from one place to another. -/
inductive Takes (r : Reading) : List Token → Place → List Frame → Place → List Frame → Prop
  /-- There are no tokens. -/
  | nil (place : Place) (frames : List Frame) : Takes r [] place frames place frames
  /-- One token, and those behind it. -/
  | cons {t : Token} {rest : List Token} {place place' place'' : Place}
      {frames frames' frames'' : List Frame} :
      move r t place frames = .go place' frames' →
      Takes r rest place' frames' place'' frames'' →
      Takes r (t :: rest) place frames place'' frames''

theorem Takes.read {toks : List Token} {place place' : Place} {frames frames' : List Frame}
    (h : Takes r toks place frames place' frames') (rest : List Token) :
    read r (toks ++ rest) place frames = read r rest place' frames' := by
  induction h with
  | nil => rfl
  | cons hmove _ ih => rw [List.cons_append, read_of_move hmove, ih]

theorem Takes.reached {toks : List Token} {place place' : Place} {frames frames' : List Frame}
    (h : Takes r toks place frames place' frames') {ts : List Symbol}
    (hts : Reached ts place frames) : Reached (ts ++ toks.map Token.symbol) place' frames' := by
  induction h generalizing ts with
  | nil =>
      rw [List.map_nil, List.append_nil]
      exact hts
  | @cons t rest _ _ _ _ _ _ hmove _ ih =>
      have hrest := ih (hts.goes (goes_of_move hmove))
      rw [List.map_cons]
      rw [List.append_assoc] at hrest
      exact hrest

/-- The machine takes all tokens, or those in front of one at which it stops. -/
theorem takes_cases (r : Reading) (toks : List Token) (place : Place) (frames : List Frame) :
    (∃ place' frames', Takes r toks place frames place' frames') ∨
      ∃ taken t rest place' frames' result b, toks = taken ++ t :: rest ∧
        Takes r taken place frames place' frames' ∧ move r t place' frames' = .stop result b := by
  induction toks generalizing place frames with
  | nil => exact .inl ⟨place, frames, .nil place frames⟩
  | cons t toks ih =>
      cases hmove : move r t place frames with
      | stop result b => exact .inr ⟨[], t, toks, place, frames, result, b, rfl, .nil _ _, hmove⟩
      | go place' frames' =>
          rcases ih place' frames' with ⟨place'', frames'', h⟩ |
            ⟨taken, u, rest, place'', frames'', result, b, rfl, h, hstop⟩
          · exact .inl ⟨place'', frames'', .cons hmove h⟩
          · exact .inr ⟨t :: taken, u, rest, place'', frames'', result, b, rfl, .cons hmove h, hstop⟩

/-! ## What is read, and what would complete it -/

/-- Tokens are read as an expression, and none of them is left, exactly if the grammar
derives their symbols for it. -/
theorem read_eq_ok_iff {toks : List Token} {e : Expr} (hr : r.closed = false) :
    read r toks .start [] = (.ok e, []) ↔ Derives .expression (toks.map Token.symbol) e := by
  refine ⟨fun h => ?_, read_of_derives hr⟩
  rcases takes_cases r toks .start [] with ⟨place, frames, htakes⟩ |
    ⟨taken, t, rest, place, frames, result, b, rfl, htakes, hstop⟩
  · have hread := htakes.read []
    rw [List.append_nil, h, read] at hread
    rcases atEnd_cases r place frames with ⟨head, e', rfl, hu, hend⟩ | ⟨expected, hend⟩
    · rw [hend] at hread
      cases hread
      obtain ⟨opening, us, heq, hopen, hatoms⟩ := htakes.reached Opens.nil
      have hspells := hopen.unwind (.atoms hatoms)
      rw [hu, ← heq, List.nil_append] at hspells
      exact hspells
    · rw [hend] at hread
      cases hread
  · rw [htakes.read, read, hstop] at h
    rcases move_eq_stop hstop with ⟨expected, rfl⟩ | ⟨rfl, e', rfl⟩
    · cases h
    · rw [hr] at h
      cases h

/-- The parentheses that close all groups. -/
def closers : List Frame → List Char
  | [] => []
  | .group _ :: frames => ')' :: closers frames
  | .body _ _ :: frames => closers frames

/-- A text that completes the expression that is being read. -/
def completion : Place → List Frame → List Char
  | .start, frames => 'x' :: closers frames
  | .operands _, frames => closers frames
  | .params _ [], frames => 'x' :: '.' :: 'x' :: closers frames
  | .params _ (_ :: _), frames => '.' :: 'x' :: closers frames

/-- The characters that completions are written with. -/
def fillers : List Char := ['x', '.', ')']

theorem closers_subset (frames : List Frame) : closers frames ⊆ fillers := by
  fun_induction closers frames with
  | case1 => simp
  | case2 before frames ih => simpa [fillers] using ih
  | case3 before params frames ih => exact ih

theorem completion_subset (place : Place) (frames : List Frame) :
    completion place frames ⊆ fillers := by
  have h := closers_subset frames
  rcases place with _ | head | ⟨before, _ | ⟨name, names⟩⟩ <;> simpa [completion, fillers] using h

theorem closers_of_whole {e e' : Expr} {frames : List Frame} (h : unwind e frames = .whole e') :
    closers frames = [] := by
  fun_induction unwind e frames with
  | case1 => rfl
  | case2 e before params frames ih => exact ih h
  | case3 => cases h

theorem closers_of_group {e e' : Expr} {before : Option Expr} {frames outer : List Frame}
    (h : unwind e frames = .group e' before outer) : closers frames = ')' :: closers outer := by
  fun_induction unwind e frames with
  | case1 => cases h
  | case2 e before params frames ih => exact ih h
  | case3 =>
      cases h
      rfl

theorem read_closers (hr : r.closed = false) {toks : List Token} {head : Expr}
    {frames : List Frame} (h : toks.map Token.symbol = (closers frames).map Symbol.ofChar) :
    ∃ e, read r toks (.operands head) frames = (.ok e, []) := by
  induction toks generalizing head frames with
  | nil =>
      cases hu : unwind head frames with
      | whole e => exact ⟨e, by simp only [read, atEnd, hu, hr]⟩
      | group e before outer =>
          rw [closers_of_group hu] at h
          cases h
  | cons t toks ih =>
      cases hu : unwind head frames with
      | whole e =>
          rw [closers_of_whole hu] at h
          cases h
      | group e before outer =>
          rw [closers_of_group hu, List.map_cons, List.map_cons] at h
          obtain ⟨ht, hrest⟩ := List.cons.inj h
          rw [read_closeParen ht hu]
          exact ih hrest

theorem read_operand_closers (hr : r.closed = false) {toks : List Token} {frames : List Frame}
    (h : toks.map Token.symbol = ('x' :: closers frames).map Symbol.ofChar) :
    ∃ e, read r toks .start frames = (.ok e, []) := by
  obtain ⟨t, rest, rfl, ht, hrest⟩ := List.map_eq_cons_iff.1 h
  obtain ⟨e, he⟩ := read_closers hr hrest
  exact ⟨e, (read_variable ht none frames rest).trans he⟩

theorem read_body_closers (hr : r.closed = false) {toks : List Token} {before : Option Expr}
    {name : String} {names : List String} {frames : List Frame}
    (h : toks.map Token.symbol = ('.' :: 'x' :: closers frames).map Symbol.ofChar) :
    ∃ e, read r toks (.params before (name :: names)) frames = (.ok e, []) := by
  obtain ⟨t, rest, rfl, ht, hrest⟩ := List.map_eq_cons_iff.1 h
  rw [read_dot ht]
  exact read_operand_closers hr hrest

/-- From every place of the machine, the completion leads to an expression. -/
theorem read_completion (hr : r.closed = false) {toks : List Token} {place : Place}
    {frames : List Frame}
    (h : toks.map Token.symbol = (completion place frames).map Symbol.ofChar) :
    ∃ e, read r toks place frames = (.ok e, []) := by
  rcases place with _ | head | ⟨before, _ | ⟨name, names⟩⟩
  · exact read_operand_closers hr h
  · exact read_closers hr h
  · obtain ⟨t, rest, rfl, ht, hrest⟩ := List.map_eq_cons_iff.1 h
    rw [read_parameter ht]
    exact read_body_closers hr hrest
  · exact read_body_closers hr h

/-- What has been taken from the start of a line can be completed. -/
theorem Takes.derivable {toks : List Token} {place : Place} {frames : List Frame}
    (hr : r.closed = false) (h : Takes r toks .start [] place frames) :
    Derivable .expression
      (toks.map Token.symbol ++ (completion place frames).map Symbol.ofChar) := by
  have hmore : ((completion place frames).map fun c => (⟨.ofChar c, .point 0⟩ : Token)).map
      Token.symbol = (completion place frames).map Symbol.ofChar := by
    simp
  obtain ⟨e, he⟩ := read_completion hr hmore
  refine ⟨e, ?_⟩
  rw [← hmore, ← List.map_append, ← read_eq_ok_iff hr, h.read]
  exact he

/-- Behind a token at which the machine stops, nothing can be completed. -/
theorem not_derivable_of_stop {taken : List Token} {t : Token} {place : Place}
    {frames : List Frame} {result : Except Error Expr} {b : Bool} (hr : r.closed = false)
    (h : Takes r taken .start [] place frames) (hstop : move r t place frames = .stop result b)
    (us : List Symbol) :
    ¬Derivable .expression ((taken ++ [t]).map Token.symbol ++ us) := by
  rintro ⟨e, he⟩
  have hmore : (us.map fun s => (⟨s, .point 0⟩ : Token)).map Token.symbol = us := by
    simp [Function.comp_def]
  rw [← hmore, ← List.map_append, List.append_assoc, ← read_eq_ok_iff hr, h.read,
    List.singleton_append, read, hstop] at he
  rcases move_eq_stop hstop with ⟨expected, rfl⟩ | ⟨rfl, e', rfl⟩
  · cases he
  · rw [hr] at he
    cases he

/-! ## Whole lists of tokens -/

/-- A result of reading tokens, given what the symbols derive.  If they are refused, the
error is as early as it can be: at the end of the line it can still be completed, and a
token is to blame only if the symbols in front of it can be completed and no others
behind it help. -/
inductive Earliest {α : Type} (derives : List Symbol → α → Prop) (toks : List Token)
    (length : Nat) : Except Error α → Prop
  /-- What is read is derived. -/
  | ok {a : α} : derives (toks.map Token.symbol) a → Earliest derives toks length (.ok a)
  /-- The line ends too early, and there is a text that completes it. -/
  | atEnd (expected : Expected) {cs : List Char} : cs ⊆ fillers →
      (∃ a, derives (toks.map Token.symbol ++ cs.map Symbol.ofChar) a) →
      Earliest derives toks length
        (.error (.unexpected expected .endOfInput (some (Span.point length))))
  /-- A token is the first that cannot stand where it does. -/
  | atToken (expected : Expected) (taken : List Token) (t : Token) (rest : List Token) :
      toks = taken ++ t :: rest →
      (∃ us a, derives (taken.map Token.symbol ++ us) a) →
      (∀ us a, ¬derives ((taken ++ [t]).map Token.symbol ++ us) a) →
      Earliest derives toks length (.error (.unexpected expected (.token t) (some t.span)))

theorem finished_expression (toks : List Token) (length : Nat) :
    Cursor.finished (Cursor.expression ⟨toks, length⟩ false) =
      match read ⟨false, Span.point length⟩ toks .start [] with
      | (.error err, _) => .error err
      | (.ok e, []) => .ok e
      | (.ok _, t :: _) => .error (.unexpected .endOfInput (.token t) (some t.span)) := by
  have hread : Cursor.expression ⟨toks, length⟩ false =
      ((read ⟨false, Span.point length⟩ toks .start []).1,
        ⟨(read ⟨false, Span.point length⟩ toks .start []).2, length⟩) := rfl
  rw [hread]
  rcases read ⟨false, Span.point length⟩ toks .start [] with ⟨err | e, _ | ⟨t, rest⟩⟩ <;> rfl

theorem finished_of_derives {toks : List Token} {length : Nat} {e : Expr}
    (h : Derives .expression (toks.map Token.symbol) e) :
    Cursor.finished (Cursor.expression ⟨toks, length⟩ false) = .ok e := by
  rw [finished_expression, read_of_derives rfl h]

/-- **An expression is read as the grammar derives it, and an error is reported as early
as it can be.** -/
theorem earliest_finished (toks : List Token) (length : Nat) :
    Earliest (Derives .expression) toks length
      (Cursor.finished (Cursor.expression ⟨toks, length⟩ false)) := by
  rw [finished_expression]
  rcases takes_cases ⟨false, Span.point length⟩ toks .start [] with ⟨place, frames, htakes⟩ |
    ⟨taken, t, rest, place, frames, result, b, rfl, htakes, hstop⟩
  · have hread := htakes.read []
    rw [List.append_nil, read] at hread
    rcases atEnd_cases ⟨false, Span.point length⟩ place frames with
      ⟨head, e, rfl, -, hend⟩ | ⟨expected, hend⟩
    · rw [hend] at hread
      rw [hread]
      exact .ok ((read_eq_ok_iff rfl).1 hread)
    · rw [hend] at hread
      rw [hread]
      exact .atEnd expected (completion_subset place frames) (htakes.derivable rfl)
  · have hviable := htakes.derivable rfl
    have hstuck := not_derivable_of_stop rfl htakes hstop
    have herror : ∀ expected, Earliest (Derives .expression) (taken ++ t :: rest) length
        (.error (.unexpected expected (.token t) (some t.span))) := by
      intro expected
      refine .atToken expected taken t rest rfl ⟨_, hviable⟩ ?_
      intro us a ha
      exact hstuck us ⟨a, ha⟩
    rw [htakes.read, read, hstop]
    rcases move_eq_stop hstop with ⟨expected, rfl⟩ | ⟨rfl, e, rfl⟩
    · exact herror expected
    · exact herror .endOfInput

/-- **Reading recognizes the grammar.**  A source is read as an expression exactly if the
grammar derives its symbols for it, and any other source is refused with an error of the
grammar.  The grammar is unambiguous: its derivations are trees, and no two of them have
the same symbols.  Its language is that of the short grammar. -/
theorem parse_recognizes_grammar (source : String) :
    (∀ e, parse source = .ok e ↔ Derives .expression ((tokenize source).map Token.symbol) e) ∧
    ((∀ e, ¬Derives .expression ((tokenize source).map Token.symbol) e) →
      ∃ expected found span, parse source = .error (.unexpected expected found span)) ∧
    (∀ ts e, Derives .expression ts e ↔ ∃ t : Tree .expression, t.symbols = ts ∧ t.expr = e) ∧
    (∀ t t' : Tree .expression, t.symbols = t'.symbols → t = t') ∧
    (∀ ts, (∃ e, Derives .expression ts e) ↔ Permits .expression ts) := by
  have hearliest : Earliest (Derives .expression) (tokenize source) source.length (parse source) :=
    earliest_finished (tokenize source) source.length
  refine ⟨?_, ?_, fun ts e => derives_iff_tree, fun t t' => Tree.symbols_inj,
    fun ts => derivable_iff_permits⟩
  · intro e
    refine ⟨fun h => ?_, parse_of_derives⟩
    rw [h] at hearliest
    cases hearliest with
    | ok hderives => exact hderives
  · intro hnone
    generalize parse source = result at hearliest
    cases hearliest with
    | ok hderives => exact absurd hderives (hnone _)
    | atEnd expected => exact ⟨expected, _, _, rfl⟩
    | atToken expected => exact ⟨expected, _, _, rfl⟩

/-- The theorem at `f λx.x y`, where the function is an operand and its body reaches to
the end, and at `x)`, whose parenthesis closes nothing. -/
theorem parse_recognizes_greedy_body :
    let e : Expr := .app (.var "f") (.lam "x" (.app (.var "x") (.var "y")))
    parse "f λx.x y" = .ok e ∧ Derives .expression ((tokenize "f λx.x y").map Token.symbol) e ∧
      (∀ e, ¬Derives .expression ((tokenize "x)").map Token.symbol) e) ∧
      ∃ expected found span, parse "x)" = .error (.unexpected expected found span) := by
  intro e
  obtain ⟨hread, -⟩ := parse_recognizes_grammar "f λx.x y"
  obtain ⟨hclose, hrefused, -⟩ := parse_recognizes_grammar "x)"
  have hok : parse "f λx.x y" = .ok e := by rfl
  have hnone : ∀ e, ¬Derives .expression ((tokenize "x)").map Token.symbol) e := by
    intro e' he'
    have herror : parse "x)" =
        .error (.unexpected .endOfInput (.token ⟨.closeParen, ⟨1, 2⟩⟩) (some ⟨1, 2⟩)) := by
      rfl
    rw [(hclose e').2 he'] at herror
    cases herror
  exact ⟨hok, (hread e).1 hok, hnone, hrefused hnone⟩

end Expr

end UntypedLambda
