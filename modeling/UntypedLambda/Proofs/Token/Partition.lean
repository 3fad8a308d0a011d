import Mathlib.Tactic.SplitIfs
import UntypedLambda.Proofs.Token
import UntypedLambda.Token.Lexer

/-!
# Nothing of a source is lost

The tokens of a source and its blanks share the characters of the source between
them: every character that is not a blank belongs to exactly one token, and the
span of a token holds what the token is written as.  A lexer hands out these
tokens in order, however often it is asked in between what comes next, although it
is always one token ahead; so it is no different from a cursor.

* `Token.StandsIn` — a token belongs to the place it was read from.
* `Token.divides_readFrom` — the tokens of a text stand in it one behind the other, and only
  blanks are left out.
* `Token.readFrom_endOf` — reading goes on in the same way from the end of every token.
* `Cursor.log`, `Lexer.log` — what a cursor or a lexer answers if it is asked again and again.
* `Lexer.Follows` — a lexer and a cursor that are at the same place.
* `Lexer.Follows.log_eq` — they give the same answers.
* `tokenize_lossless` — all of this for a whole source.
-/

namespace UntypedLambda

/-- The offset lies in the span. -/
def Span.Covers (s : Span) (i : Nat) : Prop := s.start ≤ i ∧ i < s.stop

/-- The part of a text that lies in the span. -/
def Span.slice (s : Span) (cs : List Char) : List Char := (cs.drop s.start).take (s.stop - s.start)

namespace Token

variable {cs rest : List Char} {pos : Nat} {toks : List Token}

/-! ## A single token -/

/-- The token belongs to the place in the text that its span says. -/
structure StandsIn (cs : List Char) (t : Token) : Prop where
  /-- The token is not empty, and does not reach beyond the text. -/
  within : t.span.start < t.span.stop ∧ t.span.stop ≤ cs.length
  /-- The text is there what the token is written as. -/
  text : t.text.toList = t.span.slice cs
  /-- No blank is part of the token. -/
  noBlank : ∀ i c, t.span.Covers i → cs[i]? = some c → isBlank c = false
  /-- The sign of a definition is never cut in two, nor read as anything else. -/
  sign : ∀ i, t.span.Covers i → assignChars <+: cs.drop i → t = ⟨.assign, ⟨i, i + 2⟩⟩
  /-- The sign of a definition is read only where it stands. -/
  assign : t.symbol = .assign →
    t.span.stop = t.span.start + 2 ∧ assignChars <+: cs.drop t.span.start
  /-- What is read as a variable is not another sign. -/
  plain : ∀ c, t.symbol = .variable c → IsVariable c

theorem getElem?_of_drop {c : Char} (h : cs.drop pos = c :: rest) : cs[pos]? = some c := by
  rw [← List.head?_drop, h]
  rfl

theorem drop_succ_of_drop {c : Char} (h : cs.drop pos = c :: rest) : cs.drop (pos + 1) = rest := by
  rw [← List.tail_drop, h]
  rfl

theorem lt_length_of_drop {c : Char} (h : cs.drop pos = c :: rest) : pos < cs.length :=
  (List.getElem?_eq_some_iff.1 (getElem?_of_drop h)).1

/-- A single character is written as it was read. -/
theorem toList_text_ofChar (c : Char) : (Symbol.ofChar c).text.toList = [c] := by
  unfold Symbol.ofChar
  split_ifs with hlambda hdot hopen hclose
  · simp [Symbol.text, hlambda]
  · simp [Symbol.text, hdot]
  · simp [Symbol.text, hopen]
  · simp [Symbol.text, hclose]
  · simp [Symbol.text]

/-- A single character is never the sign of a definition. -/
theorem ofChar_ne_assign (c : Char) : Symbol.ofChar c ≠ .assign := by
  intro h
  have htext := toList_text_ofChar c
  rw [h] at htext
  exact absurd (congrArg List.length htext) (by simp [Symbol.text])

/-- A character that is not the colon of a `:=` is a token of its own. -/
theorem standsIn_ofChar {c : Char} (h : cs.drop pos = c :: rest) (hc : isBlank c = false)
    (hne : ∀ tail, c = ':' → rest = '=' :: tail → False) :
    StandsIn cs ⟨Symbol.ofChar c, ⟨pos, pos + 1⟩⟩ := by
  have hat : ∀ i, Span.Covers ⟨pos, pos + 1⟩ i → i = pos := by
    intro i hi
    exact Nat.le_antisymm (Nat.le_of_lt_succ hi.2) hi.1
  refine ⟨⟨Nat.lt_succ_self pos, lt_length_of_drop h⟩, ?_, ?_, ?_, ?_, ?_⟩
  · simp [text, toList_text_ofChar, Span.slice, h]
  · intro i d hi hd
    rw [hat i hi, getElem?_of_drop h] at hd
    exact Option.some.inj hd ▸ hc
  · intro i hi hsign
    rw [hat i hi, h] at hsign
    obtain ⟨tail, htail⟩ := hsign
    obtain ⟨hcolon, hrest⟩ := List.cons.inj htail
    exact (hne tail hcolon.symm hrest.symm).elim
  · intro hassign
    exact absurd hassign (ofChar_ne_assign c)
  · intro d hd
    obtain ⟨rfl, hmem⟩ := eq_of_ofChar hd
    exact ⟨hc, hmem⟩

/-- The sign of a definition is one token. -/
theorem standsIn_assign (h : cs.drop pos = ':' :: '=' :: rest) :
    StandsIn cs ⟨.assign, ⟨pos, pos + 2⟩⟩ := by
  have hbehind := drop_succ_of_drop h
  have hat : ∀ i, Span.Covers ⟨pos, pos + 2⟩ i → i = pos ∨ i = pos + 1 := by
    rintro i ⟨hle, hlt⟩
    simp only at hle hlt
    omega
  refine ⟨⟨by simp, lt_length_of_drop hbehind⟩, ?_, ?_, ?_, ?_, ?_⟩
  · simp [text, Symbol.text, Span.slice, h]
  · intro i d hi hd
    rcases hat i hi with rfl | rfl
    · rw [getElem?_of_drop h] at hd
      cases hd
      decide
    · rw [getElem?_of_drop hbehind] at hd
      cases hd
      decide
  · intro i hi hsign
    rcases hat i hi with rfl | rfl
    · rfl
    · -- what starts with `=` does not start with `:=`
      rw [hbehind] at hsign
      obtain ⟨tail, htail⟩ := hsign
      exact absurd (List.cons.inj htail).1 (by decide)
  · intro _
    exact ⟨rfl, rest, h.symm⟩
  · intro d hd
    cases hd

/-! ## The tokens of a text -/

/-- The tokens stand in a text from offset `pos` on, and only blanks are left out. -/
structure Divides (cs : List Char) (pos : Nat) (toks : List Token) : Prop where
  /-- Each token stands in the text. -/
  standsIn : ∀ t ∈ toks, pos ≤ t.span.start ∧ t.StandsIn cs
  /-- Each token ends before the next one starts. -/
  increasing : toks.Pairwise fun t u => t.span.stop ≤ u.span.start
  /-- What is not a blank belongs to a token. -/
  covered : ∀ i c, pos ≤ i → cs[i]? = some c → isBlank c = false → ∃ t ∈ toks, t.span.Covers i

theorem Divides.cons {t : Token} (ht : t.StandsIn cs) (h : Divides cs t.span.stop toks) :
    Divides cs t.span.start (t :: toks) := by
  have hlt := ht.within.1
  refine ⟨List.forall_mem_cons.2 ⟨⟨Nat.le_refl _, ht⟩, ?_⟩,
    List.pairwise_cons.2 ⟨fun u hu => (h.standsIn u hu).1, h.increasing⟩, ?_⟩
  · intro u hu
    exact ⟨Nat.le_trans (Nat.le_of_lt hlt) (h.standsIn u hu).1, (h.standsIn u hu).2⟩
  · intro i c hi hc hblank
    by_cases hin : i < t.span.stop
    · exact ⟨t, List.mem_cons_self .., hi, hin⟩
    · obtain ⟨u, hu, hcovers⟩ := h.covered i c (Nat.le_of_not_lt hin) hc hblank
      exact ⟨u, List.mem_cons_of_mem _ hu, hcovers⟩

theorem Divides.blank {c : Char} (hc : cs[pos]? = some c) (hblank : isBlank c = true)
    (h : Divides cs (pos + 1) toks) : Divides cs pos toks := by
  refine ⟨fun t ht => ⟨Nat.le_of_succ_le (h.standsIn t ht).1, (h.standsIn t ht).2⟩,
    h.increasing, ?_⟩
  intro i d hi hd hd'
  rcases Nat.eq_or_lt_of_le hi with rfl | hi
  · rw [hc] at hd
    cases hd
    rw [hblank] at hd'
    cases hd'
  · exact h.covered i d hi hd hd'

/-- **The tokens of a text stand in it one behind the other, and only blanks are left out.** -/
theorem divides_readFrom (h : cs.drop pos = rest) : Divides cs pos (readFrom pos rest) := by
  fun_induction readFrom pos rest with
  | case1 pos =>
      refine ⟨by simp, .nil, ?_⟩
      intro i c hi hc
      have hend : cs.length ≤ pos := List.drop_eq_nil_iff.1 h
      have := (List.getElem?_eq_some_iff.1 hc).1
      omega
  | case2 pos rest ih =>
      exact .cons (standsIn_assign h) (ih (drop_succ_of_drop (drop_succ_of_drop h)))
  | case3 pos c rest hne hc ih => exact .blank (getElem?_of_drop h) hc (ih (drop_succ_of_drop h))
  | case4 pos c rest hne hc ih =>
      exact .cons (standsIn_ofChar h (by simpa using hc) hne) (ih (drop_succ_of_drop h))

theorem divides_tokenize (source : String) : Divides source.toList 0 (tokenize source) :=
  divides_readFrom rfl

/-- A character belongs to a token exactly if it is not a blank. -/
theorem Divides.covered_iff (h : Divides cs 0 toks) {i : Nat} {c : Char} (hc : cs[i]? = some c) :
    (∃ t ∈ toks, t.span.Covers i) ↔ isBlank c = false := by
  constructor
  · rintro ⟨t, ht, hcovers⟩
    exact (h.standsIn t ht).2.noBlank i c hcovers hc
  · exact h.covered i c (Nat.zero_le i) hc

/-- The sign of a definition is read exactly where it stands. -/
theorem Divides.assign_mem_iff (h : Divides cs 0 toks) (span : Span) :
    ⟨.assign, span⟩ ∈ toks ↔ span.stop = span.start + 2 ∧ assignChars <+: cs.drop span.start := by
  constructor
  · intro hmem
    exact (h.standsIn _ hmem).2.assign rfl
  · obtain ⟨start, stop⟩ := span
    rintro ⟨hstop, hsign⟩
    simp only at hstop hsign
    obtain ⟨tail, htail⟩ := hsign
    obtain ⟨t, ht, hcovers⟩ := h.covered start ':' (Nat.zero_le start)
      (getElem?_of_drop htail.symm) (by decide)
    rw [hstop, ← (h.standsIn t ht).2.sign start hcovers ⟨tail, htail⟩]
    exact ht

/-! ## Scanning on -/

/-- The offset behind the last of the tokens, or `pos` if there is none. -/
def endOf (pos : Nat) : List Token → Nat
  | [] => pos
  | t :: toks => endOf t.span.stop toks

/-- Reading goes on in the same way from the end of every token. -/
theorem readFrom_endOf {before after : List Token}
    (h : readFrom pos (cs.drop pos) = before ++ after) :
    readFrom (endOf pos before) (cs.drop (endOf pos before)) = after := by
  induction before generalizing pos with
  | nil => exact h
  | cons t before ih =>
      obtain ⟨hlt, hrest⟩ := readFrom_behind h
      rw [List.drop_drop, Nat.add_sub_of_le (Nat.le_of_lt hlt)] at hrest
      exact ih hrest

end Token

/-! ## Asking a cursor -/

namespace Cursor

/-- What a cursor can be asked. -/
inductive Request where
  /-- To show the next token. -/
  | peek
  /-- To hand out the next token. -/
  | next
  deriving DecidableEq, Repr

/-- What a cursor does if it is asked once. -/
def serve (c : Cursor) : Request → Option Token × Cursor
  | .peek => (c.peek?, c)
  | .next => c.next

/-- What a cursor answers if it is asked again and again. -/
def log (c : Cursor) : List Request → List (Request × Option Token)
  | [] => []
  | q :: qs => (q, (c.serve q).1) :: (c.serve q).2.log qs

/-- The answers to the requests that hand out a token. -/
def handedOut (entries : List (Request × Option Token)) : List (Option Token) :=
  (entries.filter fun e => decide (e.1 = .next)).map (·.2)

theorem rest_serve (c : Cursor) (q : Request) :
    (c.serve q).1 = c.rest.head? ∧ (c.serve q).2.rest = c.rest.drop ([q].count .next) := by
  cases q with
  | peek => exact ⟨rfl, rfl⟩
  | next => exact ⟨rfl, by simp [serve, Cursor.next]⟩

/-- Every request is answered with the first token that has not been handed out. -/
theorem getElem?_log (c : Cursor) (before : List Request) (q : Request) (after : List Request) :
    (c.log (before ++ q :: after))[before.length]? = some (q, c.rest[before.count .next]?) := by
  induction before generalizing c with
  | nil => simp [log, (c.rest_serve q).1, List.head?_eq_getElem?]
  | cons p before ih =>
      have hcount : (p :: before).count .next = [p].count .next + before.count .next := by
        rw [← List.singleton_append, List.count_append]
      rw [List.cons_append, log, List.length_cons, List.getElem?_cons_succ, ih,
        (c.rest_serve p).2, List.getElem?_drop, hcount]

/-- The tokens are handed out in order, and then nothing any more. -/
theorem handedOut_log (c : Cursor) (qs : List Request) :
    handedOut (c.log qs) = (List.range (qs.count .next)).map fun k => c.rest[k]? := by
  induction qs generalizing c with
  | nil => rfl
  | cons q qs ih =>
      obtain ⟨hanswer, hrest⟩ := c.rest_serve q
      cases q with
      | peek =>
          rw [log, handedOut, List.filter_cons_of_neg (by simp), List.count_cons_of_ne (by simp)]
          exact ih c
      | next =>
          have htail : handedOut ((c.serve .next).2.log qs) =
              (List.range (qs.count .next)).map fun k => c.rest[k + 1]? := by
            rw [ih, hrest]
            simp
          rw [log, handedOut, List.filter_cons_of_pos (by simp), List.map_cons, hanswer,
            List.count_cons_self, List.range_succ_eq_map, List.map_cons, List.map_map,
            List.head?_eq_getElem?]
          exact congrArg (c.rest[0]? :: ·) htail

end Cursor

/-! ## A lexer is a cursor -/

namespace Lexer

/-- What a lexer does if it is asked once. -/
def serve (l : Lexer) : Cursor.Request → Option Token × Lexer
  | .peek => (l.peek?, l)
  | .next => l.next

/-- What a lexer answers if it is asked again and again. -/
def log (l : Lexer) : List Cursor.Request → List (Cursor.Request × Option Token)
  | [] => []
  | q :: qs => (q, (l.serve q).1) :: (l.serve q).2.log qs

/-- The lexer has read the first of the tokens that the cursor has left, and the others are still
to be read behind its position. -/
structure Follows (l : Lexer) (c : Cursor) : Prop where
  /-- The first token has been read. -/
  peeked : l.peeked = c.rest.head?
  /-- The others stand behind it. -/
  behind : Token.readFrom l.position (l.source.toList.drop l.position) = c.rest.tail

/-- A lexer that reads a token from its position is one ahead of the position. -/
theorem follows_advance {l : Lexer} {c : Cursor}
    (h : Token.readFrom l.position (l.source.toList.drop l.position) = c.rest) :
    l.advance.Follows c := by
  unfold advance scan scan?
  rw [h]
  cases hrest : c.rest with
  | nil => exact ⟨by simp [hrest], by simp [h, hrest]⟩
  | cons t rest =>
      obtain ⟨hlt, hbehind⟩ := Token.readFrom_behind (h.trans hrest)
      rw [List.drop_drop, Nat.add_sub_of_le (Nat.le_of_lt hlt)] at hbehind
      exact ⟨by simp [hrest], by simpa [hrest] using hbehind⟩

theorem follows_ofSource (source : String) : (ofSource source).Follows (.ofSource source) :=
  follows_advance rfl

/-- Taking a token keeps the two together. -/
theorem Follows.next {l : Lexer} {c : Cursor} (h : l.Follows c) :
    l.next.1 = c.next.1 ∧ l.next.2.Follows c.next.2 := by
  unfold Lexer.next
  cases hpeeked : l.peeked with
  | none =>
      have hrest : c.rest = [] := List.head?_eq_none_iff.1 (h.peeked.symm.trans hpeeked)
      exact ⟨by simp [Cursor.next, hrest], by simp [Cursor.next, hpeeked, hrest],
        by simpa [Cursor.next, hrest] using h.behind⟩
  | some t => exact ⟨hpeeked.symm.trans h.peeked, follows_advance h.behind⟩

/-- However they are asked for tokens, the two give the same answers. -/
theorem Follows.log_eq {l : Lexer} {c : Cursor} (h : l.Follows c) (qs : List Cursor.Request) :
    l.log qs = c.log qs := by
  induction qs generalizing l c with
  | nil => rfl
  | cons q qs ih =>
      have hserve : (l.serve q).1 = (c.serve q).1 ∧ (l.serve q).2.Follows (c.serve q).2 := by
        cases q with
        | peek => exact ⟨h.peeked, h⟩
        | next => exact h.next
      rw [log, Cursor.log, hserve.1, ih hserve.2]

/-- All tokens that are left are taken by the two alike. -/
theorem Follows.takeAll_eq {l : Lexer} {c : Cursor} (h : l.Follows c) :
    l.takeAll.1 = c.takeAll.1 := by
  fun_induction takeAll l generalizing c with
  | case1 l hpeeked => exact (List.head?_eq_none_iff.1 (h.peeked.symm.trans hpeeked)).symm
  | case2 l t hpeeked ih =>
      obtain ⟨rest, hrest⟩ := List.head?_eq_some_iff.1 (h.peeked.symm.trans hpeeked)
      have hnext : l.advance.Follows ⟨rest, c.length⟩ :=
        follows_advance (by simpa [hrest] using h.behind)
      rw [Prod.map_fst, ih hnext]
      exact hrest.symm

end Lexer

/-- **The tokens of a source are a lossless partition of it.**  No token is empty, each lies
within the source and ends before the next one starts, and the source is there what the token
is written as.  A character belongs to a token exactly if it is not a blank, and the sign of a
definition is read exactly where it stands.  Scanning from the end of a token finds the next
one, and a lexer that goes on doing so finds these tokens.  However a lexer over the source is
asked to show or to hand out tokens, it hands out these tokens in order and then nothing any more,
and what it shows is what it hands out next; and so does a cursor, which gives the same answers. -/
theorem tokenize_lossless (source : String) :
    (∀ t ∈ tokenize source, t.span.start < t.span.stop ∧ t.span.stop ≤ source.length ∧
      t.text.toList = t.span.slice source.toList) ∧
    (tokenize source).Pairwise (fun t u => t.span.stop ≤ u.span.start) ∧
    (∀ i c, source.toList[i]? = some c →
      ((∃ t ∈ tokenize source, t.span.Covers i) ↔ isBlank c = false)) ∧
    (∀ span, ⟨.assign, span⟩ ∈ tokenize source ↔
      span.stop = span.start + 2 ∧ assignChars <+: source.toList.drop span.start) ∧
    (∀ t ∈ tokenize source, ∀ c, t.symbol = .variable c → IsVariable c) ∧
    (∀ before after, tokenize source = before ++ after →
      scan? source (Token.endOf 0 before) = after.head?) ∧
    (Lexer.ofSource source).takeAll.1 = tokenize source ∧
    ∀ qs : List Cursor.Request,
      (Cursor.ofSource source).log qs = (Lexer.ofSource source).log qs ∧
      Cursor.handedOut ((Lexer.ofSource source).log qs) =
        (List.range (qs.count .next)).map (fun k => (tokenize source)[k]?) ∧
      ∀ before between after,
        qs = before ++ .peek :: (between ++ .next :: after) → .next ∉ between →
        ∃ answer, ((Lexer.ofSource source).log qs)[before.length]? = some (.peek, answer) ∧
          ((Lexer.ofSource source).log qs)[before.length + 1 + between.length]? =
            some (.next, answer) := by
  have hdivides : Token.Divides source.toList 0 (tokenize source) := Token.divides_readFrom rfl
  refine ⟨?_, hdivides.increasing, fun i c hc => hdivides.covered_iff hc, hdivides.assign_mem_iff,
    fun t ht => (hdivides.standsIn t ht).2.plain, ?_, (Lexer.follows_ofSource source).takeAll_eq,
    ?_⟩
  · intro t ht
    have hstands := (hdivides.standsIn t ht).2
    exact ⟨hstands.within.1, String.length_toList ▸ hstands.within.2, hstands.text⟩
  · intro before after h
    have hread : Token.readFrom 0 (source.toList.drop 0) = before ++ after := h
    rw [scan?, Token.readFrom_endOf hread]
  · intro qs
    rw [(Lexer.follows_ofSource source).log_eq qs]
    refine ⟨rfl, Cursor.handedOut_log _ qs, ?_⟩
    rintro before between after rfl hbetween
    have hpeek := (Cursor.ofSource source).getElem?_log before .peek (between ++ .next :: after)
    have hnext := (Cursor.ofSource source).getElem?_log (before ++ .peek :: between) .next after
    have hcount : (before ++ .peek :: between).count .next = before.count .next := by
      simp [List.count_eq_zero_of_not_mem hbetween]
    have hlength : (before ++ .peek :: between).length = before.length + 1 + between.length := by
      simp [Nat.add_right_comm, Nat.add_assoc]
    rw [hcount, hlength, List.append_assoc, List.cons_append] at hnext
    exact ⟨_, hpeek, hnext⟩

/-- The theorem at `::=: =`, where the first colon is a variable, the second belongs to a `:=`,
and the third is kept apart from its `=` by a blank. -/
theorem tokenize_lossless_colons :
    let source := "::=: ="
    tokenize source = [⟨.variable ':', ⟨0, 1⟩⟩, ⟨.assign, ⟨1, 3⟩⟩] ++
      [⟨.variable ':', ⟨3, 4⟩⟩, ⟨.variable '=', ⟨5, 6⟩⟩] ∧
    source.toList[4]? = some ' ' ∧ (¬∃ t ∈ tokenize source, t.span.Covers 4) ∧
    scan? source 3 = some ⟨.variable ':', ⟨3, 4⟩⟩ ∧
    ∃ answer, ((Lexer.ofSource source).log [.next, .peek, .peek, .next])[1]? =
        some (.peek, answer) ∧
      ((Lexer.ofSource source).log [.next, .peek, .peek, .next])[3]? = some (.next, answer) := by
  intro source
  have htokens : tokenize source = [⟨.variable ':', ⟨0, 1⟩⟩, ⟨.assign, ⟨1, 3⟩⟩] ++
      [⟨.variable ':', ⟨3, 4⟩⟩, ⟨.variable '=', ⟨5, 6⟩⟩] := by decide +kernel +zetaReduce
  have hblank : source.toList[4]? = some ' ' := by decide +kernel +zetaReduce
  obtain ⟨-, -, hcovered, -, -, hscan, -, hlog⟩ := tokenize_lossless source
  refine ⟨htokens, hblank, ?_, hscan _ _ htokens, ?_⟩
  · rw [hcovered 4 ' ' hblank]
    decide
  · exact (hlog [.next, .peek, .peek, .next]).2.2 [.next] [.peek] [] rfl (by decide)

end UntypedLambda
