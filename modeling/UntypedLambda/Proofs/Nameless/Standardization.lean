import Mathlib.Logic.Relation
import UntypedLambda.Proofs.Nameless.Redexes
import UntypedLambda.Proofs.Nameless.Shifting

/-!
# Leftmost-outermost reduction finds normal forms

A term may have a normal form and an infinite reduction as well.  This file shows
that always contracting the leftmost-outermost redex leads to the normal form
whenever there is one.

* `Head` — contraction of the redex in function position.
* `Standard` — a reduction that contracts what is in function position first, then
  goes on in the parts of what this has led to.
* `standard_of_beta` — whatever can be reached can be reached that way.
* `leftmost_of_beta` — a normal form that can be reached is reached from left to
  right.
* `reduct?` — the same reduction, with its contractions counted.

The heart of the matter is `Standard.beta`: one contraction after a standard
reduction can be moved to where it belongs, since standard reductions are kept by
substitution (`Standard.subst`).
-/

namespace UntypedLambda

namespace Nameless

open Relation (ReflTransGen)

/-- Contracts the redex in function position. -/
inductive Head : Nameless → Nameless → Prop
  /-- The term is the redex. -/
  | contract (body arg : Nameless) : Head (.app (.lam body) arg) (contract body arg)
  /-- The redex is in function position of the function part. -/
  | fn {f f' : Nameless} (a : Nameless) : Head f f' → Head (.app f a) (.app f' a)

theorem Head.shift {t u : Nameless} (h : Head t u) (d : Nat) : Head (t.shift d) (u.shift d) := by
  induction h with
  | contract body arg =>
      rw [shift_contract]
      exact .contract _ _
  | fn a h ih => exact .fn _ ih

theorem Head.subst {t u : Nameless} (h : Head t u) (d : Nat) (v : Nameless) :
    Head (t.subst d v) (u.subst d v) := by
  induction h with
  | contract body arg =>
      rw [subst_contract]
      exact .contract _ _
  | fn a h ih => exact .fn _ ih

theorem head_shift {t u : Nameless} (h : ReflTransGen Head t u) (d : Nat) :
    ReflTransGen Head (t.shift d) (u.shift d) := by
  refine ReflTransGen.lift (Nameless.shift d) ?_ t u h
  intro t u h
  exact h.shift d

theorem head_subst {t u : Nameless} (h : ReflTransGen Head t u) (d : Nat) (v : Nameless) :
    ReflTransGen Head (t.subst d v) (u.subst d v) := by
  refine ReflTransGen.lift (fun t => t.subst d v) ?_ t u h
  intro t u h
  exact h.subst d v

theorem head_fn {t u : Nameless} (h : ReflTransGen Head t u) (arg : Nameless) :
    ReflTransGen Head (.app t arg) (.app u arg) := by
  refine ReflTransGen.lift (fun t => Nameless.app t arg) ?_ t u h
  intro t u h
  exact .fn arg h

/-! ## Standard reductions -/

/-- What a reduction makes of a term that contracts in function position first, and
only then in the parts. -/
inductive Standard : Nameless → Nameless → Prop
  /-- The term becomes a variable. -/
  | index {t : Nameless} {i : Nat} : ReflTransGen Head t (.index i) → Standard t (.index i)
  /-- The term becomes a name. -/
  | free {t : Nameless} {name : String} : ReflTransGen Head t (.free name) →
      Standard t (.free name)
  /-- The term becomes a loose variable. -/
  | loose {t : Nameless} {id : Int} : ReflTransGen Head t (.loose id) → Standard t (.loose id)
  /-- The term becomes an application, whose parts are reduced further. -/
  | app {t f f' a a' : Nameless} : ReflTransGen Head t (.app f a) → Standard f f' →
      Standard a a' → Standard t (.app f' a')
  /-- The term becomes a function, whose body is reduced further. -/
  | lam {t b b' : Nameless} : ReflTransGen Head t (.lam b) → Standard b b' → Standard t (.lam b')

theorem Standard.refl (t : Nameless) : Standard t t := by
  induction t with
  | index i => exact .index .refl
  | free name => exact .free .refl
  | loose id => exact .loose .refl
  | app fn arg ihf iha => exact .app .refl ihf iha
  | lam body ih => exact .lam .refl ih

/-- Contractions in function position may come before a standard reduction. -/
theorem Standard.of_head {t u v : Nameless} (h : ReflTransGen Head t u) (hs : Standard u v) :
    Standard t v := by
  cases hs with
  | index hu => exact .index (h.trans hu)
  | free hu => exact .free (h.trans hu)
  | loose hu => exact .loose (h.trans hu)
  | app hu hf ha => exact .app (h.trans hu) hf ha
  | lam hu hb => exact .lam (h.trans hu) hb

theorem Standard.shift {t u : Nameless} (h : Standard t u) (d : Nat) :
    Standard (t.shift d) (u.shift d) := by
  induction h generalizing d with
  | index ht => exact .of_head (head_shift ht d) (.refl _)
  | free ht => exact .of_head (head_shift ht d) (.refl _)
  | loose ht => exact .of_head (head_shift ht d) (.refl _)
  | app ht hf ha ihf iha => exact .app (head_shift ht d) (ihf d) (iha d)
  | lam ht hb ih => exact .lam (head_shift ht d) (ih (d + 1))

/-- Standard reductions of a term and of what is put into it make one of the
result. -/
theorem Standard.subst {t t' u u' : Nameless} (ht : Standard t t') (hu : Standard u u') (d : Nat) :
    Standard (t.subst d u) (t'.subst d u') := by
  induction ht generalizing d u u' with
  | @index t i ht =>
      refine .of_head (head_subst ht d u) ?_
      rcases index_cases i d with hi | rfl | ⟨j, hj, rfl⟩
      · rw [subst_index_of_lt hi, subst_index_of_lt hi]
        exact .refl _
      · rw [subst_index_self, subst_index_self]
        exact hu
      · rw [subst_index_succ hj, subst_index_succ hj]
        exact .refl _
  | free ht => exact .of_head (head_subst ht d u) (.refl _)
  | loose ht => exact .of_head (head_subst ht d u) (.refl _)
  | app ht hf ha ihf iha => exact .app (head_subst ht d u) (ihf hu d) (iha hu d)
  | lam ht hb ih => exact .lam (head_subst ht d u) (ih (hu.shift 0) (d + 1))

/-- A contraction after a standard reduction makes another standard reduction. -/
theorem Standard.beta {t u v : Nameless} (ht : Standard t u) (h : Beta u v) : Standard t v := by
  induction h generalizing t with
  | head body arg =>
      cases ht with
      | @app _ f _ a _ ht hf ha =>
          cases hf with
          | @lam _ b _ hf hb =>
              have hredex := (ht.trans (head_fn hf a)).tail (.contract b a)
              exact .of_head hredex (hb.subst ha 0)
  | fn a h ih =>
      cases ht with
      | app ht hf ha => exact .app ht (ih hf) ha
  | arg f h ih =>
      cases ht with
      | app ht hf ha => exact .app ht hf (ih ha)
  | body h ih =>
      cases ht with
      | lam ht hb => exact .lam ht (ih hb)

/-- Whatever a term can be reduced to is reached by a standard reduction. -/
theorem standard_of_beta {t u : Nameless} (h : ReflTransGen Beta t u) : Standard t u := by
  induction h with
  | refl => exact .refl t
  | tail _ h ih => exact ih.beta h

/-! ## From left to right -/

/-- Contraction of the leftmost-outermost redex. -/
def Next (t u : Nameless) : Prop := t.step? = some u

theorem step?_app {fn : Nameless} (h : fn.isLam = false) (arg : Nameless) :
    (Nameless.app fn arg).step? =
      match fn.step? with
      | some fn' => some (.app fn' arg)
      | none => arg.step?.map (.app fn) := by
  cases fn with
  | lam body => cases h
  | index i => rfl
  | free name => rfl
  | loose id => rfl
  | app f a => rfl

/-- The redex in function position is the leftmost-outermost one. -/
theorem Head.next {t u : Nameless} (h : Head t u) : Next t u := by
  induction h with
  | contract body arg => rfl
  | @fn f f' a h ih =>
      have hl : f.isLam = false := by cases h <;> rfl
      unfold Next at ih ⊢
      rw [step?_app hl, ih]

/-- What becomes of a function is a function. -/
theorem Next.isLam_eq_false {t u : Nameless} (h : Next t u) (hu : u.isLam = false) :
    t.isLam = false := by
  cases t with
  | lam body =>
      obtain ⟨body', -, rfl⟩ := Option.map_eq_some_iff.1 h
      cases hu
  | index i => rfl
  | free name => rfl
  | loose id => rfl
  | app fn arg => rfl

/-- In the body of a function the contractions are those of the function. -/
theorem next_lam {t u : Nameless} (h : ReflTransGen Next t u) :
    ReflTransGen Next (.lam t) (.lam u) := by
  refine ReflTransGen.lift Nameless.lam ?_ t u h
  intro t u h
  unfold Next at h
  show (Nameless.lam t).step? = some (.lam u)
  rw [step?, h, Option.map_some]

/-- As long as the function part does not become a function, its contractions come
first. -/
theorem next_fn {t u : Nameless} (h : ReflTransGen Next t u) (hu : u.isLam = false)
    (arg : Nameless) : ReflTransGen Next (.app t arg) (.app u arg) := by
  induction h with
  | refl => exact .refl
  | @tail v u _ hv ih =>
      have hl := hv.isLam_eq_false hu
      refine (ih hl).tail ?_
      unfold Next at hv ⊢
      rw [step?_app hl, hv]

/-- Once the function part is normal, it is the argument's turn. -/
theorem next_arg {fn t u : Nameless} (hl : fn.isLam = false) (hn : fn.IsNormal)
    (h : ReflTransGen Next t u) : ReflTransGen Next (.app fn t) (.app fn u) := by
  have hnone := (step?_eq_none_iff fn).2 hn
  refine ReflTransGen.lift (Nameless.app fn) ?_ t u h
  intro t u h
  unfold Next at h
  show (Nameless.app fn t).step? = some (.app fn u)
  rw [step?_app hl, hnone, h]
  rfl

/-- A standard reduction to a normal form goes from left to right. -/
theorem Standard.next {t n : Nameless} (h : Standard t n) (hn : n.IsNormal) :
    ReflTransGen Next t n := by
  have first : ∀ {t u : Nameless}, ReflTransGen Head t u → ReflTransGen Next t u := by
    intro t u h
    exact ReflTransGen.mono (fun _ _ h => h.next) t u h
  induction h with
  | index ht => exact first ht
  | free ht => exact first ht
  | loose ht => exact first ht
  | app ht hf ha ihf iha =>
      obtain ⟨hl, hnf, hna⟩ := hn
      exact (first ht).trans ((next_fn (ihf hnf) hl _).trans (next_arg hl hnf (iha hna)))
  | lam ht hb ih => exact (first ht).trans (next_lam (ih hn))

/-- **Leftmost-outermost reduction finds the normal form**, however it can be
reached. -/
theorem leftmost_of_beta {t n : Nameless} (h : ReflTransGen Beta t n) (hn : n.IsNormal) :
    ReflTransGen Next t n :=
  (standard_of_beta h).next hn

/-! ## Counting contractions -/

/-- What `k` contractions from left to right lead to, if there are that many. -/
def reduct? : Nat → Nameless → Option Nameless
  | 0, t => some t
  | k + 1, t => t.step?.bind (reduct? k)

theorem exists_reduct? {t u : Nameless} (h : ReflTransGen Next t u) :
    ∃ k, t.reduct? k = some u := by
  induction h using ReflTransGen.head_induction_on with
  | refl => exact ⟨0, rfl⟩
  | @head t v htv _ ih =>
      obtain ⟨k, hk⟩ := ih
      unfold Next at htv
      refine ⟨k + 1, ?_⟩
      rw [reduct?, htv, Option.bind_some, hk]

theorem beta_of_reduct? {k : Nat} {t u : Nameless} (h : t.reduct? k = some u) :
    ReflTransGen Beta t u := by
  induction k generalizing t with
  | zero =>
      cases h
      exact .refl
  | succ k ih =>
      obtain ⟨v, hv, hu⟩ := Option.bind_eq_some_iff.1 h
      exact .head (beta_of_step? hv) (ih hu)

/-- Beyond the normal form there are no contractions, and before it there is no
other normal form. -/
theorem reduct?_le {k j : Nat} {t n u : Nameless} (h : t.reduct? k = some n) (hn : n.IsNormal)
    (hu : t.reduct? j = some u) : j ≤ k ∧ (u.IsNormal ∨ j = k → u = n) := by
  induction k generalizing t j with
  | zero =>
      cases h
      have hnone := (step?_eq_none_iff n).2 hn
      cases j with
      | zero =>
          cases hu
          exact ⟨Nat.le_refl 0, fun _ => rfl⟩
      | succ j =>
          rw [reduct?, hnone] at hu
          cases hu
  | succ k ih =>
      obtain ⟨v, hv, hk⟩ := Option.bind_eq_some_iff.1 h
      cases j with
      | zero =>
          cases hu
          refine ⟨Nat.zero_le _, ?_⟩
          rintro (hn' | hj)
          · rw [(step?_eq_none_iff u).2 hn'] at hv
            cases hv
          · cases hj
      | succ j =>
          rw [reduct?, hv, Option.bind_some] at hu
          obtain ⟨hle, heq⟩ := ih hk hu
          exact ⟨Nat.succ_le_succ hle, fun hor => heq (hor.imp_right Nat.succ.inj)⟩

end Nameless

end UntypedLambda
