import UntypedLambda.Nameless

/-!
# Shifting and substitution of nameless terms

How making room for a function and replacing an index commute with each other.
In each law the smaller depth is the one that is met first on the way in, and the
larger one is corrected for the function that has been added or taken away there.
-/

namespace UntypedLambda

namespace Nameless

theorem shift_index_of_lt {i d : Nat} (h : i < d) : (index i).shift d = index i := by
  rw [shift, if_pos h]

theorem shift_index_of_ge {i d : Nat} (h : d ≤ i) : (index i).shift d = index (i + 1) := by
  rw [shift, if_neg (by omega)]

theorem subst_index_of_lt {i d : Nat} (h : i < d) (u : Nameless) :
    (index i).subst d u = index i := by
  rw [subst, if_pos h]

@[simp] theorem subst_index_self (d : Nat) (u : Nameless) : (index d).subst d u = u := by
  rw [subst, if_neg (Nat.lt_irrefl d), if_pos rfl]

theorem subst_index_succ {i d : Nat} (h : d ≤ i) (u : Nameless) :
    (index (i + 1)).subst d u = index i := by
  rw [subst, if_neg (by omega), if_neg (by omega), Nat.add_sub_cancel]

/-- An index is below the one that is replaced, is that one, or is above it. -/
theorem index_cases (i k : Nat) : i < k ∨ i = k ∨ ∃ j, k ≤ j ∧ i = j + 1 := by
  rcases Nat.lt_trichotomy i k with h | h | h
  · exact .inl h
  · exact .inr (.inl h)
  · exact .inr (.inr ⟨i - 1, by omega, by omega⟩)

/-- Making room at two depths can be done in either order. -/
theorem shift_shift (t : Nameless) {d k : Nat} (h : d ≤ k) :
    (t.shift d).shift (k + 1) = (t.shift k).shift d := by
  induction t generalizing d k with
  | index i =>
      by_cases hd : i < d
      · rw [shift_index_of_lt hd, shift_index_of_lt (by omega), shift_index_of_lt (by omega),
          shift_index_of_lt hd]
      · rw [shift_index_of_ge (Nat.not_lt.1 hd)]
        by_cases hk : i < k
        · rw [shift_index_of_lt (by omega), shift_index_of_lt hk, shift_index_of_ge (by omega)]
        · rw [shift_index_of_ge (by omega), shift_index_of_ge (Nat.not_lt.1 hk),
            shift_index_of_ge (by omega)]
  | free name => rfl
  | loose id => rfl
  | app fn arg ihf iha => simp only [shift, ihf h, iha h]
  | lam body ih => simp only [shift, ih (Nat.succ_le_succ h)]

/-- The room that was made for a function is taken by nothing, so replacing it
changes nothing. -/
@[simp] theorem subst_shift (t : Nameless) (d : Nat) (u : Nameless) :
    (t.shift d).subst d u = t := by
  induction t generalizing d u with
  | index i =>
      by_cases h : i < d
      · rw [shift_index_of_lt h, subst_index_of_lt h]
      · rw [shift_index_of_ge (Nat.not_lt.1 h), subst_index_succ (Nat.not_lt.1 h)]
  | free name => rfl
  | loose id => rfl
  | app fn arg ihf iha => simp only [shift, subst, ihf, iha]
  | lam body ih => simp only [shift, subst, ih]

/-- Making room outside of the index that is replaced. -/
theorem shift_subst_of_le (t u : Nameless) {d k : Nat} (h : k ≤ d) :
    (t.subst k u).shift d = (t.shift (d + 1)).subst k (u.shift d) := by
  induction t generalizing d k u with
  | index i =>
      rcases index_cases i k with hi | rfl | ⟨j, hj, rfl⟩
      · rw [subst_index_of_lt hi, shift_index_of_lt (by omega), shift_index_of_lt (by omega),
          subst_index_of_lt hi]
      · rw [subst_index_self, shift_index_of_lt (by omega), subst_index_self]
      · rw [subst_index_succ hj]
        by_cases hd : j < d
        · rw [shift_index_of_lt hd, shift_index_of_lt (by omega), subst_index_succ hj]
        · rw [shift_index_of_ge (by omega), shift_index_of_ge (by omega),
            subst_index_succ (by omega)]
  | free name => rfl
  | loose id => rfl
  | app fn arg ihf iha => simp only [shift, subst, ihf _ h, iha _ h]
  | lam body ih =>
      simp only [shift, subst, ih _ (Nat.succ_le_succ h)]
      rw [shift_shift u (Nat.zero_le d)]

/-- Making room inside of the index that is replaced. -/
theorem shift_subst_of_ge (t u : Nameless) {d k : Nat} (h : d ≤ k) :
    (t.subst k u).shift d = (t.shift d).subst (k + 1) (u.shift d) := by
  induction t generalizing d k u with
  | index i =>
      rcases index_cases i k with hi | rfl | ⟨j, hj, rfl⟩
      · rw [subst_index_of_lt hi]
        by_cases hd : i < d
        · rw [shift_index_of_lt hd, subst_index_of_lt (by omega)]
        · rw [shift_index_of_ge (by omega), subst_index_of_lt (by omega)]
      · rw [subst_index_self, shift_index_of_ge h, subst_index_self]
      · rw [subst_index_succ hj, shift_index_of_ge (by omega), shift_index_of_ge (by omega),
          subst_index_succ (by omega)]
  | free name => rfl
  | loose id => rfl
  | app fn arg ihf iha => simp only [shift, subst, ihf _ h, iha _ h]
  | lam body ih =>
      simp only [shift, subst, ih _ (Nat.succ_le_succ h)]
      rw [shift_shift u (Nat.zero_le d)]

/-- Two indices can be replaced in either order. -/
theorem subst_subst (t u v : Nameless) {d k : Nat} (h : k ≤ d) :
    (t.subst k u).subst d v = (t.subst (d + 1) (v.shift k)).subst k (u.subst d v) := by
  induction t generalizing d k u v with
  | index i =>
      rcases index_cases i k with hi | rfl | ⟨j, hj, rfl⟩
      · rw [subst_index_of_lt hi, subst_index_of_lt (by omega), subst_index_of_lt (by omega),
          subst_index_of_lt hi]
      · rw [subst_index_self, subst_index_of_lt (by omega), subst_index_self]
      · rw [subst_index_succ hj]
        rcases index_cases j d with hd | rfl | ⟨m, hm, rfl⟩
        · rw [subst_index_of_lt hd, subst_index_of_lt (by omega), subst_index_succ hj]
        · rw [subst_index_self, subst_index_self, subst_shift]
        · rw [subst_index_succ hm, subst_index_succ (by omega), subst_index_succ (by omega)]
  | free name => rfl
  | loose id => rfl
  | app fn arg ihf iha => simp only [subst, ihf _ _ h, iha _ _ h]
  | lam body ih =>
      simp only [subst, ih _ _ (Nat.succ_le_succ h)]
      rw [shift_shift v (Nat.zero_le k), shift_subst_of_ge u v (Nat.zero_le d)]

/-- Making room around a redex and around its contraction. -/
theorem shift_contract (body arg : Nameless) (d : Nat) :
    (contract body arg).shift d = contract (body.shift (d + 1)) (arg.shift d) :=
  shift_subst_of_le body arg (Nat.zero_le d)

/-- Replacing an index in a redex and in its contraction. -/
theorem subst_contract (body arg u : Nameless) (d : Nat) :
    (contract body arg).subst d u =
      contract (body.subst (d + 1) (u.shift 0)) (arg.subst d u) :=
  subst_subst body arg u (Nat.zero_le d)

end Nameless

end UntypedLambda
