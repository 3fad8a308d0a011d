import UntypedLambda.Nameless

/-!
# The redexes of a nameless term

Where the redexes of a term stand, listed from the outside in and from left to
right; the first of them is the leftmost-outermost one.  This says what
`Nameless.step?` contracts without following its recursion.

* `mem_redexes_iff` — the list holds the places of all redexes, and of nothing
  else.
* `Leftmost` — one contraction of the leftmost-outermost redex, with its place.
* `step?_eq_some_iff` — it is what `Nameless.step?` performs.
-/

namespace UntypedLambda

/-- One turn on the way from a term to a part of it. -/
inductive Turn where
  /-- To the function part of an application. -/
  | fn
  /-- To the argument of an application. -/
  | arg
  /-- To the body of a function. -/
  | body
  deriving DecidableEq, Repr, Inhabited

/-- The way from a term to a part of it. -/
abbrev Path := List Turn

namespace Nameless

/-- The part that stands at a path. -/
def at? : Nameless → Path → Option Nameless
  | t, [] => some t
  | .app fn _, .fn :: p => fn.at? p
  | .app _ arg, .arg :: p => arg.at? p
  | .lam body, .body :: p => body.at? p
  | _, _ :: _ => none

/-- The term with another part at a path. -/
def put : Nameless → Path → Nameless → Nameless
  | _, [], u => u
  | .app fn arg, .fn :: p, u => .app (fn.put p u) arg
  | .app fn arg, .arg :: p, u => .app fn (arg.put p u)
  | .lam body, .body :: p, u => .lam (body.put p u)
  | t, _ :: _, _ => t

/-- The places of all redexes: an application before its parts, and the function
part before the argument. -/
def redexes : Nameless → List Path
  | .app fn arg =>
      (if fn.isLam then [[]] else []) ++ fn.redexes.map (.fn :: ·) ++ arg.redexes.map (.arg :: ·)
  | .lam body => body.redexes.map (.body :: ·)
  | _ => []

theorem isLam_iff {t : Nameless} : t.isLam = true ↔ ∃ b, t = .lam b := by
  cases t <;> simp [isLam]

theorem isLam_eq_false {t : Nameless} (h : ∀ b, t ≠ .lam b) : t.isLam = false := by
  rw [← Bool.not_eq_true, isLam_iff]
  rintro ⟨b, hb⟩
  exact h b hb

/-- The places listed are those of the applications of functions. -/
theorem mem_redexes_iff {t : Nameless} {p : Path} :
    p ∈ t.redexes ↔ ∃ b a, t.at? p = some (.app (.lam b) a) := by
  induction t generalizing p with
  | index i => cases p <;> simp [redexes, at?]
  | free name => cases p <;> simp [redexes, at?]
  | loose id => cases p <;> simp [redexes, at?]
  | app fn arg ihf iha =>
      rcases p with _ | ⟨_ | _ | _, p⟩
      · by_cases h : fn.isLam
        · obtain ⟨b, rfl⟩ := isLam_iff.1 h
          simp [redexes, at?, isLam]
        · have h' : ∀ b, fn ≠ .lam b := fun b hb => h (isLam_iff.2 ⟨b, hb⟩)
          simp [redexes, at?, h, h']
      · simp only [redexes, at?, ← ihf]
        split <;> simp
      · simp only [redexes, at?, ← iha]
        split <;> simp
      · simp only [redexes, at?]
        split <;> simp
  | lam body ih =>
      rcases p with _ | ⟨_ | _ | _, p⟩
      · simp [redexes, at?]
      · simp [redexes, at?]
      · simp [redexes, at?]
      · simp [redexes, at?, ih]

/-- A term is normal exactly when it has no redexes. -/
theorem redexes_eq_nil_iff (t : Nameless) : t.redexes = [] ↔ t.IsNormal := by
  induction t with
  | index i => simp [redexes, IsNormal]
  | free name => simp [redexes, IsNormal]
  | loose id => simp [redexes, IsNormal]
  | app fn arg ihf iha =>
      cases h : fn.isLam <;> simp [redexes, IsNormal, h, ← ihf, ← iha]
  | lam body ih => simp [redexes, IsNormal, ← ih]

/-! ## The leftmost-outermost contraction -/

/-- `redex`, which stands at `p`, is the leftmost-outermost redex of `t`; it
contracts to `contractum`, and this turns `t` into `u`. -/
structure Leftmost (t : Nameless) (p : Path) (redex contractum u : Nameless) : Prop where
  /-- No redex stands further to the left or outside. -/
  first : t.redexes.head? = some p
  /-- The redex is the part at that place. -/
  place : t.at? p = some redex
  /-- It is the application of a function, and contracted by replacing its
  parameter. -/
  contracts : ∃ b a, redex = .app (.lam b) a ∧ contractum = contract b a
  /-- Nothing else changes. -/
  result : u = t.put p contractum

namespace Leftmost

variable {t u redex contractum : Nameless} {p : Path}

theorem head (body arg : Nameless) :
    Leftmost (.app (.lam body) arg) [] (.app (.lam body) arg) (Nameless.contract body arg)
      (Nameless.contract body arg) where
  first := rfl
  place := rfl
  contracts := ⟨body, arg, rfl, rfl⟩
  result := rfl

theorem fn (h : Leftmost t p redex contractum u) (hl : t.isLam = false) (arg : Nameless) :
    Leftmost (.app t arg) (.fn :: p) redex contractum (.app u arg) where
  first := by simp [redexes, hl, h.first]
  place := h.place
  contracts := h.contracts
  result := by rw [h.result]; rfl

theorem arg (h : Leftmost t p redex contractum u) {fn : Nameless} (hl : fn.isLam = false)
    (hn : fn.IsNormal) : Leftmost (.app fn t) (.arg :: p) redex contractum (.app fn u) where
  first := by simp [redexes, hl, (redexes_eq_nil_iff fn).2 hn, h.first]
  place := h.place
  contracts := h.contracts
  result := by rw [h.result]; rfl

theorem body (h : Leftmost t p redex contractum u) :
    Leftmost (.lam t) (.body :: p) redex contractum (.lam u) where
  first := by simp [redexes, h.first]
  place := h.place
  contracts := h.contracts
  result := by rw [h.result]; rfl

end Leftmost

/-- A term without a step is normal. -/
theorem step?_eq_none_iff (t : Nameless) : t.step? = none ↔ t.IsNormal := by
  fun_induction step? t with
  | case1 body arg => simp [IsNormal, isLam]
  | case2 fn arg hl fn' hf ih =>
      rw [hf] at ih
      simp only [reduceCtorEq, false_iff] at ih ⊢
      exact fun hn => ih hn.2.1
  | case3 fn arg hl hf ihf iha =>
      simp only [Option.map_eq_none_iff, iha]
      exact ⟨fun ha => ⟨isLam_eq_false hl, ihf.1 hf, ha⟩, fun hn => hn.2.2⟩
  | case4 body ih => simpa [IsNormal] using ih
  | case5 t hn₁ hn₂ hn₃ =>
      cases t with
      | app fn arg => exact absurd rfl (hn₂ fn arg)
      | lam body => exact absurd rfl (hn₃ body)
      | _ => simp [IsNormal]

theorem exists_leftmost {t u : Nameless} (h : t.step? = some u) :
    ∃ p redex contractum, Leftmost t p redex contractum u := by
  fun_induction step? t generalizing u with
  | case1 body arg =>
      cases h
      exact ⟨_, _, _, Leftmost.head body arg⟩
  | case2 fn arg hl fn' hf ih =>
      cases h
      obtain ⟨p, r, c, hp⟩ := ih hf
      exact ⟨_, r, c, hp.fn (isLam_eq_false hl) arg⟩
  | case3 fn arg hl hf ihf iha =>
      obtain ⟨arg', ha, rfl⟩ := Option.map_eq_some_iff.1 h
      obtain ⟨p, r, c, hp⟩ := iha ha
      exact ⟨_, r, c, hp.arg (isLam_eq_false hl) ((step?_eq_none_iff fn).1 hf)⟩
  | case4 body ih =>
      obtain ⟨body', hb, rfl⟩ := Option.map_eq_some_iff.1 h
      obtain ⟨p, r, c, hp⟩ := ih hb
      exact ⟨_, r, c, hp.body⟩
  | case5 => cases h

/-- There is only one leftmost-outermost contraction. -/
theorem Leftmost.result_unique {t u u' r r' c c' : Nameless} {p p' : Path}
    (h : Leftmost t p r c u) (h' : Leftmost t p' r' c' u') : u = u' := by
  obtain rfl : p = p' := Option.some.inj (h.first.symm.trans h'.first)
  obtain rfl : r = r' := Option.some.inj (h.place.symm.trans h'.place)
  obtain ⟨b, a, rfl, rfl⟩ := h.contracts
  obtain ⟨b', a', hr, rfl⟩ := h'.contracts
  cases hr
  rw [h.result, h'.result]

/-- The step of a term is the contraction of its leftmost-outermost redex. -/
theorem step?_eq_some_iff {t u : Nameless} :
    t.step? = some u ↔ ∃ p redex contractum, Leftmost t p redex contractum u := by
  refine ⟨exists_leftmost, fun ⟨p, r, c, h⟩ => ?_⟩
  cases hs : t.step? with
  | none =>
      have hn := (redexes_eq_nil_iff t).2 ((step?_eq_none_iff t).1 hs)
      exact absurd h.first (by simp [hn])
  | some u' =>
      obtain ⟨p', r', c', h'⟩ := exists_leftmost hs
      rw [h.result_unique h']

end Nameless

end UntypedLambda
