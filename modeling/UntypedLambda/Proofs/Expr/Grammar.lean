import UntypedLambda.Expr.Grammar

/-!
# Properties of the grammar

The grammar of expressions gives every list of symbols at most one derivation, and
its language is that of the short grammar, which has many derivations for most lists
of symbols.

* `Expr.derives_iff_tree` — what is derived is what stands at the leaves of a tree.
* `Expr.Tree.symbols_inj` — no two derivations have the same symbols.
* `Expr.derivable_iff_permits` — the two grammars have the same language.

A derivation is found from left to right: an atom is known to end where it ends, the
atoms of a row end in front of a symbol that starts no atom, and everything else ends
at a closing parenthesis or with the symbols (`Tree.Splits`).
-/

namespace UntypedLambda

namespace Expr

/-! ## Derivations and trees -/

theorem Tree.derives {p : Part} (t : Tree p) : Derives p t.symbols t.expr := by
  induction t with
  | name c => exact .name c
  | group e ih => exact .group ih
  | single a ih => exact .single ih
  | further f a ihf iha => exact .further ihf iha
  | atoms f ih => exact .atoms ih
  | function f ih => exact .function ih
  | operand f a ihf iha => exact .operand ihf iha
  | lambda ps ih => exact .lambda ih
  | last c body ih => exact .last c ih
  | next c ps ih => exact .next c ih

theorem Derives.exists_tree {p : Part} {ts : List Symbol} {e : Expr} (h : Derives p ts e) :
    ∃ t : Tree p, t.symbols = ts ∧ t.expr = e := by
  induction h with
  | name c => exact ⟨.name c, rfl, rfl⟩
  | group _ ih =>
      obtain ⟨e, rfl, rfl⟩ := ih
      exact ⟨.group e, rfl, rfl⟩
  | single _ ih =>
      obtain ⟨a, rfl, rfl⟩ := ih
      exact ⟨.single a, rfl, rfl⟩
  | further _ _ ihf iha =>
      obtain ⟨f, rfl, rfl⟩ := ihf
      obtain ⟨a, rfl, rfl⟩ := iha
      exact ⟨.further f a, rfl, rfl⟩
  | atoms _ ih =>
      obtain ⟨f, rfl, rfl⟩ := ih
      exact ⟨.atoms f, rfl, rfl⟩
  | function _ ih =>
      obtain ⟨f, rfl, rfl⟩ := ih
      exact ⟨.function f, rfl, rfl⟩
  | operand _ _ ihf iha =>
      obtain ⟨f, rfl, rfl⟩ := ihf
      obtain ⟨a, rfl, rfl⟩ := iha
      exact ⟨.operand f a, rfl, rfl⟩
  | lambda _ ih =>
      obtain ⟨ps, rfl, rfl⟩ := ih
      exact ⟨.lambda ps, rfl, rfl⟩
  | last c _ ih =>
      obtain ⟨body, rfl, rfl⟩ := ih
      exact ⟨.last c body, rfl, rfl⟩
  | next c _ ih =>
      obtain ⟨ps, rfl, rfl⟩ := ih
      exact ⟨.next c ps, rfl, rfl⟩

/-- Symbols are derived exactly if they stand at the leaves of a derivation tree. -/
theorem derives_iff_tree {p : Part} {ts : List Symbol} {e : Expr} :
    Derives p ts e ↔ ∃ t : Tree p, t.symbols = ts ∧ t.expr = e := by
  constructor
  · exact Derives.exists_tree
  · rintro ⟨t, rfl, rfl⟩
    exact t.derives

/-! ## Unambiguity -/

namespace Tree

/-- The atoms in a row, from left to right. -/
def row {p : Part} : Tree p → List (Tree .atom)
  | .single a => [a]
  | .further f a => f.row ++ [a]
  | .atoms f => f.row
  | .operand f _ => f.row
  | _ => []

/-- The function at the end of an expression. -/
def last? {p : Part} : Tree p → Option (Tree .function)
  | .function f => some f
  | .operand _ f => some f
  | _ => none

/-- The symbols of atoms in a row. -/
def rowSymbols (row : List (Tree .atom)) : List Symbol := row.flatMap symbols

/-- The symbols of the function at the end, if there is one. -/
def lastSymbols (last : Option (Tree .function)) : List Symbol := last.elim [] symbols

theorem rowSymbols_cons (a : Tree .atom) (row : List (Tree .atom)) (rest : List Symbol) :
    rowSymbols (a :: row) ++ rest = a.symbols ++ (rowSymbols row ++ rest) := by
  rw [rowSymbols, List.flatMap_cons, List.append_assoc, rowSymbols]

theorem row_ne_nil (t : Tree .atoms) : t.row ≠ [] := by
  cases t <;> simp [row]

theorem symbols_atoms {p : Part} (hp : p = .atoms) (t : Tree p) : t.symbols = rowSymbols t.row := by
  induction t with
  | single a => simp [symbols, rowSymbols, row]
  | further f a ihf _ => simp [symbols, rowSymbols, row, ihf rfl]
  | _ => cases hp

theorem symbols_expression (t : Tree .expression) :
    t.symbols = rowSymbols t.row ++ lastSymbols t.last? := by
  cases t with
  | atoms f => simp [symbols, symbols_atoms rfl f, row, last?, lastSymbols]
  | function f => simp [symbols, row, rowSymbols, last?, lastSymbols]
  | operand f a => simp [symbols, symbols_atoms rfl f, row, last?, lastSymbols]

/-- A row is known by its atoms. -/
theorem eq_of_row {p : Part} (hp : p = .atoms) {t t' : Tree p} (h : t.row = t'.row) : t = t' := by
  induction t with
  | single a =>
      cases t' with
      | single a' => simpa [row] using h
      | further f' a' =>
          have hlong : [] ++ [a] = f'.row ++ [a'] := h
          exact absurd (List.append_inj' hlong rfl).1.symm f'.row_ne_nil
  | further f a ihf _ =>
      cases t' with
      | single a' =>
          have hlong : f.row ++ [a] = [] ++ [a'] := h
          exact absurd (List.append_inj' hlong rfl).1 f.row_ne_nil
      | further f' a' =>
          obtain ⟨hf, ha⟩ := List.append_inj' h rfl
          rw [ihf rfl hf, List.singleton_inj.1 ha]
  | _ => cases hp

/-- An expression is known by its atoms and the function at its end. -/
theorem eq_of_row_of_last {t t' : Tree .expression} (hrow : t.row = t'.row)
    (hlast : t.last? = t'.last?) : t = t' := by
  cases t with
  | atoms f =>
      cases t' with
      | atoms f' => rw [eq_of_row rfl hrow]
      | function f' => cases hlast
      | operand f' a' => cases hlast
  | function f =>
      cases t' with
      | atoms f' => cases hlast
      | function f' => rw [Option.some.inj hlast]
      | operand f' a' => exact absurd hrow.symm f'.row_ne_nil
  | operand f a =>
      cases t' with
      | atoms f' => cases hlast
      | function f' => exact absurd hrow f.row_ne_nil
      | operand f' a' => rw [eq_of_row rfl hrow, Option.some.inj hlast]

/-- The symbols do not start with an atom. -/
def StartsNoAtom : List Symbol → Prop
  | .variable _ :: _ => False
  | .openParen :: _ => False
  | _ => True

/-- The symbols start with a closing parenthesis, if there are any. -/
def Closes : List Symbol → Prop
  | [] => True
  | s :: _ => s = .closeParen

/-- Whatever follows an atom, it is known where the atom ends and which one it is. -/
def Ends (a : Tree .atom) : Prop :=
  ∀ (a' : Tree .atom) (rest rest' : List Symbol),
    a.symbols ++ rest = a'.symbols ++ rest' → a = a' ∧ rest = rest'

/-- If nothing or a closing parenthesis follows a part, it is known where the part ends
and which one it is. -/
def EndsAtClose {p : Part} (t : Tree p) : Prop :=
  ∀ (t' : Tree p) (rest rest' : List Symbol), Closes rest → Closes rest' →
    t.symbols ++ rest = t'.symbols ++ rest' → t = t' ∧ rest = rest'

/-- What is known of the end of a part. -/
def Splits : {p : Part} → Tree p → Prop
  | .atom, a => a.Ends
  | .atoms, t => ∀ a ∈ t.row, a.Ends
  | _, t => t.EndsAtClose

theorem not_startsNoAtom_atom (a : Tree .atom) (rest : List Symbol) :
    ¬StartsNoAtom (a.symbols ++ rest) := by
  cases a <;> simp [symbols, StartsNoAtom]

/-- It is known where a row of atoms ends if no atom follows. -/
theorem row_eq_of_ends {row row' : List (Tree .atom)} {rest rest' : List Symbol}
    (hends : ∀ a ∈ row, a.Ends) (hrest : StartsNoAtom rest) (hrest' : StartsNoAtom rest')
    (h : rowSymbols row ++ rest = rowSymbols row' ++ rest') : row = row' ∧ rest = rest' := by
  induction row generalizing row' with
  | nil =>
      cases row' with
      | nil => exact ⟨rfl, h⟩
      | cons a' row' =>
          have hstart : rest = rowSymbols (a' :: row') ++ rest' := h
          rw [hstart, rowSymbols_cons] at hrest
          exact absurd hrest (a'.not_startsNoAtom_atom _)
  | cons a row ih =>
      cases row' with
      | nil =>
          have hstart : rowSymbols (a :: row) ++ rest = rest' := h
          rw [← hstart, rowSymbols_cons] at hrest'
          exact absurd hrest' (a.not_startsNoAtom_atom _)
      | cons a' row' =>
          rw [rowSymbols_cons, rowSymbols_cons] at h
          obtain ⟨rfl, htail⟩ := hends a (List.mem_cons_self ..) a' _ _ h
          obtain ⟨rfl, hr⟩ := ih (fun b hb => hends b (List.mem_cons_of_mem _ hb)) htail
          exact ⟨rfl, hr⟩

theorem symbols_function (f : Tree .function) : ∃ ts, f.symbols = .lambda :: ts := by
  cases f with
  | lambda ps => exact ⟨ps.symbols, rfl⟩

/-- Behind the atoms of an expression no atom follows. -/
theorem startsNoAtom_last (last : Option (Tree .function)) {rest : List Symbol}
    (h : Closes rest) : StartsNoAtom (lastSymbols last ++ rest) := by
  cases last with
  | none =>
      cases rest with
      | nil => trivial
      | cons s rest =>
          have hs : s = .closeParen := h
          simp [lastSymbols, hs, StartsNoAtom]
  | some f =>
      obtain ⟨ts, hts⟩ := f.symbols_function
      simp [lastSymbols, hts, StartsNoAtom]

/-- It is known whether a function stands at the end of an expression, and which. -/
theorem last_eq_of_endsAtClose {last last' : Option (Tree .function)} {rest rest' : List Symbol}
    (hends : ∀ f ∈ last, f.EndsAtClose) (hrest : Closes rest) (hrest' : Closes rest')
    (h : lastSymbols last ++ rest = lastSymbols last' ++ rest') : last = last' ∧ rest = rest' := by
  cases last with
  | none =>
      cases last' with
      | none => exact ⟨rfl, h⟩
      | some f' =>
          obtain ⟨ts, hts⟩ := f'.symbols_function
          have hstart : rest = .lambda :: (ts ++ rest') := by simpa [lastSymbols, hts] using h
          rw [hstart] at hrest
          cases hrest
  | some f =>
      cases last' with
      | none =>
          obtain ⟨ts, hts⟩ := f.symbols_function
          have hstart : .lambda :: (ts ++ rest) = rest' := by simpa [lastSymbols, hts] using h
          rw [← hstart] at hrest'
          cases hrest'
      | some f' =>
          obtain ⟨rfl, hr⟩ := hends f rfl f' rest rest' hrest hrest' h
          exact ⟨rfl, hr⟩

/-- The end of an expression is known if those of its atoms and of the function at its
end are. -/
theorem endsAtClose_expression {t : Tree .expression} (hrow : ∀ a ∈ t.row, a.Ends)
    (hlast : ∀ f ∈ t.last?, f.EndsAtClose) : t.EndsAtClose := by
  intro t' rest rest' hrest hrest' h
  rw [symbols_expression, symbols_expression, List.append_assoc, List.append_assoc] at h
  obtain ⟨hr, htail⟩ := row_eq_of_ends hrow (startsNoAtom_last t.last? hrest)
    (startsNoAtom_last t'.last? hrest') h
  obtain ⟨hl, heq⟩ := last_eq_of_endsAtClose hlast hrest hrest' htail
  exact ⟨eq_of_row_of_last hr hl, heq⟩

theorem splits {p : Part} (t : Tree p) : t.Splits := by
  induction t with
  | name c =>
      intro a' rest rest' h
      cases a' with
      | name c' =>
          obtain ⟨hc, hr⟩ := List.cons.inj h
          cases hc
          exact ⟨rfl, hr⟩
      | group e' => cases (List.cons.inj h).1
  | group e ih =>
      intro a' rest rest' h
      cases a' with
      | name c' => cases (List.cons.inj h).1
      | group e' =>
          have hinner : e.symbols ++ .closeParen :: rest = e'.symbols ++ .closeParen :: rest' := by
            simpa [symbols] using h
          have hends : e.EndsAtClose := ih
          obtain ⟨rfl, hr⟩ := hends e' (.closeParen :: rest) (.closeParen :: rest') rfl rfl hinner
          exact ⟨rfl, (List.cons.inj hr).2⟩
  | single a ih =>
      intro b hb
      rw [List.mem_singleton.1 hb]
      exact ih
  | further f a ihf iha =>
      intro b hb
      rcases List.mem_append.1 hb with hb | hb
      · exact ihf b hb
      · rw [List.mem_singleton.1 hb]
        exact iha
  | atoms f ih => exact endsAtClose_expression ih (by simp [last?])
  | function f ih =>
      have hends : f.EndsAtClose := ih
      exact endsAtClose_expression (by simp [row]) (by simpa [last?] using hends)
  | operand f a ihf iha =>
      have hends : a.EndsAtClose := iha
      exact endsAtClose_expression ihf (by simpa [last?] using hends)
  | lambda ps ih =>
      intro t' rest rest' hrest hrest' h
      cases t' with
      | lambda ps' =>
          obtain ⟨rfl, hr⟩ := ih ps' rest rest' hrest hrest' (List.cons.inj h).2
          exact ⟨rfl, hr⟩
  | last c body ih =>
      intro t' rest rest' hrest hrest' h
      cases t' with
      | last c' body' =>
          obtain ⟨hc, htail⟩ := List.cons.inj h
          cases hc
          obtain ⟨rfl, hr⟩ := ih body' rest rest' hrest hrest' (List.cons.inj htail).2
          exact ⟨rfl, hr⟩
      | next c' ps' => cases ps' <;> cases (List.cons.inj (List.cons.inj h).2).1
  | next c ps ih =>
      intro t' rest rest' hrest hrest' h
      cases t' with
      | last c' body' => cases ps <;> cases (List.cons.inj (List.cons.inj h).2).1
      | next c' ps' =>
          obtain ⟨hc, htail⟩ := List.cons.inj h
          cases hc
          obtain ⟨rfl, hr⟩ := ih ps' rest rest' hrest hrest' htail
          exact ⟨rfl, hr⟩

/-- **The grammar is unambiguous**: no two derivations of an expression have the same
symbols. -/
theorem symbols_inj {t t' : Tree .expression} (h : t.symbols = t'.symbols) : t = t' := by
  have hends : t.EndsAtClose := t.splits
  refine (hends t' [] [] trivial trivial ?_).1
  rw [h]

end Tree

/-! ## The short grammar -/

/-- Where the short grammar has a part.  It has no rows of atoms, and allows
expressions in their place. -/
def Part.short : Part → Part
  | .atoms => .expression
  | p => p

/-- What is derived is permitted. -/
theorem Derives.permits {p : Part} {ts : List Symbol} {e : Expr} (h : Derives p ts e) :
    Permits p.short ts := by
  induction h with
  | name c => exact .name c
  | group _ ih => exact .group ih
  | single _ ih => exact .first ih
  | further _ _ ihf iha => exact .thenAtom ihf iha
  | atoms _ ih => exact ih
  | function _ ih => exact .first (.function ih)
  | operand _ _ ihf iha => exact .thenFunction ihf iha
  | lambda _ ih => exact .lambda ih
  | last c _ ih => exact .last c ih
  | next c _ ih => exact .next c ih

/-- The symbols stand for some expression. -/
def Derivable (p : Part) (ts : List Symbol) : Prop := ∃ e, Derives p ts e

/-- Two rows of atoms are a row of atoms. -/
theorem Derives.append_atoms {ts us : List Symbol} {f a : Expr} (hf : Derives .atoms ts f)
    (ha : Derives .atoms us a) : Derivable .atoms (ts ++ us) := by
  generalize hp : Part.atoms = p at ha
  induction ha with
  | single h =>
      cases hp
      exact ⟨_, .further hf h⟩
  | further _ h ih _ =>
      cases hp
      obtain ⟨e, he⟩ := ih rfl
      rw [← List.append_assoc]
      exact ⟨_, .further he h⟩
  | _ => cases hp

/-- Atoms in front of an expression are an expression with it. -/
theorem Derives.append_expression {ts us : List Symbol} {f e : Expr} (hf : Derives .atoms ts f)
    (he : Derives .expression us e) : Derivable .expression (ts ++ us) := by
  cases he with
  | atoms ha =>
      obtain ⟨e', he'⟩ := hf.append_atoms ha
      exact ⟨e', .atoms he'⟩
  | function ha => exact ⟨_, .operand hf ha⟩
  | operand ha hl =>
      obtain ⟨e', he'⟩ := hf.append_atoms ha
      rw [← List.append_assoc]
      exact ⟨_, .operand he' hl⟩

/-- An expression in front of another is an expression with it.  What follows a
function goes into its body. -/
theorem Derives.append {p : Part} {ts us : List Symbol} {e e' : Expr} (h : Derives p ts e)
    (hu : Derives .expression us e') (hp : p ≠ .atom) : Derivable p.short (ts ++ us) := by
  induction h with
  | name c => exact absurd rfl hp
  | group _ _ => exact absurd rfl hp
  | single ha _ => exact (Derives.single ha).append_expression hu
  | further hf ha _ _ => exact (Derives.further hf ha).append_expression hu
  | atoms ha _ => exact ha.append_expression hu
  | function _ ih =>
      obtain ⟨f, hf⟩ := ih (by simp)
      exact ⟨f, .function hf⟩
  | operand hf _ _ iha =>
      obtain ⟨a, ha⟩ := iha (by simp)
      rw [List.append_assoc]
      exact ⟨_, .operand hf ha⟩
  | lambda _ ih =>
      obtain ⟨f, hf⟩ := ih (by simp)
      exact ⟨f, .lambda hf⟩
  | last c _ ih =>
      obtain ⟨b, hb⟩ := ih (by simp)
      exact ⟨_, .last c hb⟩
  | next c _ ih =>
      obtain ⟨b, hb⟩ := ih (by simp)
      exact ⟨_, .next c hb⟩

theorem Derivable.append {ts us : List Symbol} (ht : Derivable .expression ts)
    (hu : Derivable .expression us) : Derivable .expression (ts ++ us) := by
  obtain ⟨e, he⟩ := ht
  obtain ⟨e', he'⟩ := hu
  exact he.append he' (by simp)

/-- The part that the symbols of a part can be derived as, if they are permitted. -/
def Part.whole : Part → Part
  | .atom => .expression
  | p => p

/-- What is permitted is derived; a function that is permitted as an atom is derived as
an expression only. -/
theorem Permits.derivable {p : Part} {ts : List Symbol} (h : Permits p ts) :
    Derivable p.whole ts := by
  induction h with
  | name c => exact ⟨_, .atoms (.single (.name c))⟩
  | group _ ih =>
      obtain ⟨e, he⟩ := ih
      exact ⟨e, .atoms (.single (.group he))⟩
  | function _ ih =>
      obtain ⟨f, hf⟩ := ih
      exact ⟨f, .function hf⟩
  | first _ ih => exact ih
  | thenAtom _ _ ihe iha => exact ihe.append iha
  | thenFunction _ _ ihe ihf =>
      obtain ⟨f, hf⟩ := ihf
      exact ihe.append ⟨f, .function hf⟩
  | lambda _ ih =>
      obtain ⟨f, hf⟩ := ih
      exact ⟨f, .lambda hf⟩
  | last c _ ih =>
      obtain ⟨b, hb⟩ := ih
      exact ⟨_, .last c hb⟩
  | next c _ ih =>
      obtain ⟨b, hb⟩ := ih
      exact ⟨_, .next c hb⟩

/-- **The two grammars have the same language**: the symbols that may be written for an
expression are those that stand for one. -/
theorem derivable_iff_permits {ts : List Symbol} :
    Derivable .expression ts ↔ Permits .expression ts := by
  constructor
  · rintro ⟨e, he⟩
    exact he.permits
  · exact Permits.derivable

end Expr

end UntypedLambda
