import UntypedLambda.Token

/-!
# The tokens of a text

Without blanks every character is a token of its own, as long as no `:` stands
directly before a `=`; where one does, the two are read as the sign of a
definition.

* `map_symbol_readFrom` — the symbols of a text without blanks and without `:=`.
* `assign_mem_readFrom` — every text with `:=` in it has that sign as a token.
* `isVariable_of_mem_readFrom` — the variables among the symbols of a text.
* `readFrom_append` — the tokens of two texts, one behind the other.
* `map_symbol_tokenize_append_of`, `map_symbol_tokenize_append` — their symbols, also with a
  blank in between.
* `map_symbol_tokenize_strip` — without the blanks around it, a text has the same symbols.
-/

namespace UntypedLambda

/-- The two characters of the sign of a definition. -/
def assignChars : List Char := [':', '=']

/-- A character that is read as a variable. -/
def IsVariable (c : Char) : Prop := isBlank c = false ∧ c ∉ ['λ', '.', '(', ')']

instance (c : Char) : Decidable (IsVariable c) :=
  inferInstanceAs (Decidable (isBlank c = false ∧ c ∉ ['λ', '.', '(', ')']))

theorem IsVariable.ofChar {c : Char} (h : IsVariable c) : Symbol.ofChar c = .variable c := by
  simp only [IsVariable, List.mem_cons, List.not_mem_nil, or_false, not_or] at h
  obtain ⟨-, hl, hd, ho, hc⟩ := h
  rw [Symbol.ofChar, if_neg hl, if_neg hd, if_neg ho, if_neg hc]

theorem eq_of_ofChar {c d : Char} (h : Symbol.ofChar d = .variable c) :
    d = c ∧ d ∉ ['λ', '.', '(', ')'] := by
  have hmem : d ∉ ['λ', '.', '(', ')'] := by
    intro hd
    simp only [List.mem_cons, List.not_mem_nil, or_false] at hd
    rcases hd with rfl | rfl | rfl | rfl <;> simp [Symbol.ofChar] at h
  have hd := hmem
  simp only [List.mem_cons, List.not_mem_nil, or_false, not_or] at hd
  obtain ⟨hl, hdot, ho, hc⟩ := hd
  rw [Symbol.ofChar, if_neg hl, if_neg hdot, if_neg ho, if_neg hc] at h
  exact ⟨Symbol.variable.inj h, hmem⟩

/-- A name that is written as a variable: a single character, and not one that means
something else. -/
def IsVariableName (x : String) : Prop := ∃ c, x = String.singleton c ∧ IsVariable c

namespace Token

/-- If no character is a blank and no two of them are `:=`, each one is a symbol. -/
theorem map_symbol_readFrom {cs : List Char} (pos : Nat) (hb : ∀ c ∈ cs, isBlank c = false)
    (h : ¬assignChars <:+: cs) : (readFrom pos cs).map symbol = cs.map Symbol.ofChar := by
  fun_induction readFrom pos cs with
  | case1 => rfl
  | case2 pos rest ih => exact absurd (List.prefix_append assignChars rest).isInfix h
  | case3 pos c rest hne hc ih =>
      rw [hb c (List.mem_cons_self ..)] at hc
      cases hc
  | case4 pos c rest hne hc ih =>
      have hrest : ¬assignChars <:+: rest := fun hi => h (List.infix_cons_iff.2 (.inr hi))
      rw [List.map_cons, List.map_cons, ih (fun d hd => hb d (List.mem_cons_of_mem _ hd)) hrest]

/-- Wherever `:=` stands, it is read as one symbol. -/
theorem assign_mem_readFrom {cs : List Char} (pos : Nat) (h : assignChars <:+: cs) :
    .assign ∈ (readFrom pos cs).map symbol := by
  fun_induction readFrom pos cs with
  | case1 => cases (List.infix_nil.1 h)
  | case2 pos rest ih => exact List.mem_cons_self ..
  | case3 pos c rest hne hc ih =>
      rcases List.infix_cons_iff.1 h with hp | hi
      · obtain ⟨u, hu⟩ := hp
        cases hu
        exact absurd rfl (hne u rfl)
      · exact ih hi
  | case4 pos c rest hne hc ih =>
      rcases List.infix_cons_iff.1 h with hp | hi
      · obtain ⟨u, hu⟩ := hp
        cases hu
        exact absurd rfl (hne u rfl)
      · exact List.mem_cons_of_mem _ (ih hi)

/-- Every variable is a character that is written as one. -/
theorem isVariable_of_mem_readFrom {cs : List Char} {pos : Nat} {c : Char}
    (h : .variable c ∈ (readFrom pos cs).map symbol) : IsVariable c := by
  fun_induction readFrom pos cs with
  | case1 => cases h
  | case2 pos rest ih =>
      rw [List.map_cons, List.mem_cons] at h
      exact ih (h.resolve_left (by simp))
  | case3 pos d rest hne hd ih => exact ih h
  | case4 pos d rest hne hd ih =>
      rw [List.map_cons, List.mem_cons] at h
      rcases h with h | h
      · obtain ⟨rfl, hmem⟩ := eq_of_ofChar h.symm
        exact ⟨by simpa using hd, hmem⟩
      · exact ih h

/-! ## One text behind the other -/

theorem getLast?_cons_of_some {c d : Char} {cs : List Char} (h : cs.getLast? = some d) :
    (c :: cs).getLast? = some d := by
  rw [List.getLast?_cons, h]
  rfl

/-- The tokens of a text and of one behind it, unless the two make up a `:=` where they
meet. -/
theorem readFrom_append {cs ds : List Char} (pos : Nat)
    (h : ¬(cs.getLast? = some ':' ∧ ds.head? = some '=')) :
    readFrom pos (cs ++ ds) = readFrom pos cs ++ readFrom (pos + cs.length) ds := by
  fun_induction readFrom pos cs with
  | case1 pos => rfl
  | case2 pos rest ih =>
      have hrest : ¬(rest.getLast? = some ':' ∧ ds.head? = some '=') := fun hr =>
        h ⟨getLast?_cons_of_some (getLast?_cons_of_some hr.1), hr.2⟩
      rw [List.cons_append, List.cons_append, readFrom, ih hrest, List.length_cons,
        List.length_cons, List.cons_append]
      congr 3
      omega
  | case3 pos c rest hne hc ih =>
      have hrest : ¬(rest.getLast? = some ':' ∧ ds.head? = some '=') := fun hr =>
        h ⟨getLast?_cons_of_some hr.1, hr.2⟩
      rw [List.cons_append, readFrom_cons_of_isBlank hc, ih hrest, List.length_cons]
      congr 2
      omega
  | case4 pos c rest hne hc ih =>
      have hrest : ¬(rest.getLast? = some ':' ∧ ds.head? = some '=') := fun hr =>
        h ⟨getLast?_cons_of_some hr.1, hr.2⟩
      have hne' : ∀ tail, c = ':' → rest ++ ds = '=' :: tail → False := by
        rintro tail rfl heq
        cases rest with
        | nil => exact h ⟨rfl, by rw [← List.nil_append ds, heq]; rfl⟩
        | cons d rest =>
            obtain ⟨rfl, -⟩ := List.cons.inj heq
            exact hne rest rfl rfl
      rw [List.cons_append, readFrom, if_neg hc, ih hrest, List.length_cons, List.cons_append]
      · congr 3
        omega
      · exact hne'

theorem map_symbol_readFrom_eq (pos : Nat) (cs : List Char) :
    (readFrom pos cs).map symbol = (readFrom 0 cs).map symbol := by
  have h := readFrom_add pos 0 cs
  rw [Nat.zero_add] at h
  rw [h, List.map_map]
  rfl

end Token

/-- The symbols of two texts, one directly behind the other, unless the two make up a `:=` where
they meet. -/
theorem map_symbol_tokenize_append_of {s t : String}
    (h : ¬(s.toList.getLast? = some ':' ∧ t.toList.head? = some '=')) :
    (tokenize (s ++ t)).map Token.symbol =
      (tokenize s).map Token.symbol ++ (tokenize t).map Token.symbol := by
  unfold tokenize
  rw [String.toList_append, Token.readFrom_append 0 h, List.map_append,
    Token.map_symbol_readFrom_eq (0 + s.toList.length)]

/-- The symbols of two texts with a blank in between. -/
theorem map_symbol_tokenize_append (source u : String) :
    (tokenize (source ++ " " ++ u)).map Token.symbol =
      (tokenize source).map Token.symbol ++ (tokenize u).map Token.symbol := by
  have hblank : (tokenize " ").map Token.symbol = [] := by decide
  rw [map_symbol_tokenize_append_of (by simp), map_symbol_tokenize_append_of (by simp), hblank,
    List.append_nil]

/-! ## Blanks around a text -/

theorem Token.readFrom_of_blanks {cs : List Char} (pos : Nat) (h : ∀ c ∈ cs, isBlank c = true) :
    readFrom pos cs = [] := by
  induction cs generalizing pos with
  | nil => rfl
  | cons c cs ih =>
      rw [readFrom_cons_of_isBlank (h c (List.mem_cons_self ..))]
      exact ih (pos + 1) fun d hd => h d (List.mem_cons_of_mem _ hd)

/-- What is stripped from a text are blanks. -/
theorem exists_eq_append_stripChars (cs : List Char) :
    ∃ pre post, cs = pre ++ (stripChars cs ++ post) ∧ (∀ c ∈ pre, isBlank c = true) ∧
      ∀ c ∈ post, isBlank c = true := by
  refine ⟨cs.takeWhile isBlank, ((cs.dropWhile isBlank).reverse.takeWhile isBlank).reverse,
    ?_, List.all_eq_true.1 List.all_takeWhile, fun c hc => ?_⟩
  · unfold stripChars
    rw [← List.reverse_append, List.takeWhile_append_dropWhile, List.reverse_reverse,
      List.takeWhile_append_dropWhile]
  · exact List.all_eq_true.1 List.all_takeWhile c (List.mem_reverse.1 hc)

/-- Without the blanks around it, a text has the same symbols. -/
theorem map_symbol_tokenize_strip (source : String) :
    (tokenize (strip source)).map Token.symbol = (tokenize source).map Token.symbol := by
  obtain ⟨pre, post, heq, hpre, hpost⟩ := exists_eq_append_stripChars source.toList
  have hblank : ∀ cs : List Char, (∀ c ∈ cs, isBlank c = true) → cs.head? ≠ some '=' := by
    intro cs hcs hhead
    have hmem : '=' ∈ cs := List.mem_of_mem_head? (by simp [hhead])
    exact absurd (hcs '=' hmem) (by decide)
  have hstart : ∀ cs pos, (∀ c ∈ cs, isBlank c = true) → ∀ rest,
      (Token.readFrom pos (cs ++ rest)).map Token.symbol =
        (Token.readFrom pos rest).map Token.symbol := by
    intro cs
    induction cs with
    | nil => intro pos _ rest; rfl
    | cons c cs ih =>
        intro pos hcs rest
        rw [List.cons_append, Token.readFrom_cons_of_isBlank (hcs c (List.mem_cons_self ..)),
          ih (pos + 1) (fun d hd => hcs d (List.mem_cons_of_mem _ hd)) rest,
          Token.map_symbol_readFrom_eq (pos + 1), Token.map_symbol_readFrom_eq pos]
  unfold tokenize strip
  rw [String.toList_ofList]
  conv => rhs; rw [heq]
  rw [hstart pre 0 hpre, Token.readFrom_append 0 (fun h => hblank post hpost h.2),
    Token.readFrom_of_blanks _ hpost, List.append_nil]

end UntypedLambda
