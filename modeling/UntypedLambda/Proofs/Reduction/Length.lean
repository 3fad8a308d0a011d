import Mathlib.Data.ENat.Lattice
import Mathlib.Order.CompletePartialOrder
import UntypedLambda.Proofs.Reduction.Normalization

/-!
# How long a reduction is

A term is reduced from left to right by some number of contractions, or without an end.  This
file compares a run with that number, and runs with each other that differ in what they are
allowed to do.

* `Nameless.leftmostLength` — the length of the reduction from left to right.
* `Reducer.Measures` — what a run knows about the length.
* `Reducer.run_mono` — a run that was not cut short is the same if more is allowed.
* `Reducer.run_of_passes` — a finished run is the same for a watcher that lets as much pass.
* `Reducer.run_map`, `Reducer.run_map_of_hygienic` — a run does not depend on what else the
  watcher remembers.
-/

namespace UntypedLambda

namespace Nameless

/-- The number of contractions from left to right that can be performed one after the other. -/
noncomputable def leftmostLength (t : Nameless) : ℕ∞ :=
  ⨆ (k : ℕ) (_ : (t.reduct? k).isSome = true), (k : ℕ∞)

theorem le_leftmostLength {t u : Nameless} {k : Nat} (h : t.reduct? k = some u) :
    (k : ℕ∞) ≤ t.leftmostLength :=
  le_iSup₂_of_le (f := fun (k : ℕ) (_ : (t.reduct? k).isSome = true) => (k : ℕ∞)) k
    (by rw [h]; rfl) le_rfl

/-- Contractions that lead to a normal form are all there are. -/
theorem leftmostLength_eq {t n : Nameless} {k : Nat} (h : t.reduct? k = some n)
    (hn : n.IsNormal) : t.leftmostLength = k := by
  refine le_antisymm (iSup₂_le ?_) (le_leftmostLength h)
  intro j hj
  obtain ⟨u, hu⟩ := Option.isSome_iff_exists.1 hj
  exact Nat.cast_le.2 (reduct?_le h hn hu).1

theorem reduct?_succ (t : Nameless) (k : Nat) :
    t.reduct? (k + 1) = (t.reduct? k).bind step? := by
  induction k generalizing t with
  | zero =>
      show t.step?.bind some = t.step?
      cases t.step? <;> rfl
  | succ k ih =>
      rw [reduct?]
      cases hstep : t.step? with
      | none => rw [reduct?, hstep]; rfl
      | some u => rw [reduct?, hstep, Option.bind_some, Option.bind_some, ih]

/-- Where the term is not normal yet, there is one more contraction. -/
theorem lt_leftmostLength {t u : Nameless} {k : Nat} (h : t.reduct? k = some u)
    (hu : ¬u.IsNormal) : (k : ℕ∞) < t.leftmostLength := by
  rcases hstep : u.step? with _ | v
  · exact absurd ((step?_eq_none_iff u).1 hstep) hu
  · have hnext : t.reduct? (k + 1) = some v := by
      rw [reduct?_succ, h, Option.bind_some, hstep]
    exact lt_of_lt_of_le (Nat.cast_lt.2 (Nat.lt_succ_self k)) (le_leftmostLength hnext)

end Nameless

namespace Reducer

variable {σ τ ε : Type}

/-- What a run on the term `t`, which may take `fuel` steps, knows about the length of the
reduction. -/
structure Measures (t : Term) (fuel : Nat) (run : Run σ ε) : Prop where
  /-- All steps belong to the reduction. -/
  le : (run.reducer.steps : ℕ∞) ≤ t.nameless.leftmostLength
  /-- A run that is finished has performed all of them. -/
  normal : ∀ v, run.ending = .normal v → t.nameless.leftmostLength = run.reducer.steps
  /-- A run that is cut short has performed as many as are allowed, and not all of them. -/
  unfinished : ∀ u, run.ending = .unfinished u → run.reducer.steps = fuel ∧
    (fuel : ℕ∞) < t.nameless.leftmostLength

theorem measures_run (watch : Watcher σ ε) (fuel : Nat) (seen : σ) {t : Term} (ht : t.Hygienic) :
    Measures t fuel (fresh.run watch fuel seen t) := by
  obtain ⟨sts, u, hs, hp, -⟩ := exists_settled_steps watch fuel fresh seen ht
  have hsteps : (fresh.run watch fuel seen t).reducer.steps = sts.length := by
    rw [hp.steps]
    exact Nat.zero_add _
  have hreduct := hs.reduct?
  refine ⟨?_, fun v hv => ?_, fun w hw => ?_⟩
  · rw [hsteps]
    exact Nameless.le_leftmostLength hreduct
  · obtain rfl := hp.term v (by simp [hv, Ending.term?])
    rw [hsteps]
    exact Nameless.leftmostLength_eq hreduct
      ((Term.isNormal_nameless_iff v).2 (hp.normal v hv))
  · obtain rfl := hp.term w (by simp [hw, Ending.term?])
    obtain ⟨hnormal, hfuel⟩ := hp.unfinished w hw
    rw [hsteps]
    refine ⟨hfuel, hfuel ▸ Nameless.lt_leftmostLength hreduct ?_⟩
    intro hn
    exact hnormal ((Term.isNormal_nameless_iff w).1 hn)

/-! ## Runs that agree -/

theorem iterate_mono {next : Term → Supply → Option Step} {watch : Watcher σ ε}
    {fuel fuel' : Nat} {r : Reducer} {seen : σ} {t : Term} (hle : fuel ≤ fuel')
    (h : ∀ u, (iterate next watch fuel r seen t).ending ≠ .unfinished u) :
    (iterate next watch fuel' r seen t).toRun = (iterate next watch fuel r seen t).toRun := by
  fun_induction iterate next watch fuel r seen t generalizing fuel' with
  | case1 r seen t fuel hn =>
      rw [iterate.eq_def, hn]
      rfl
  | case2 r seen t st hn => exact absurd rfl (h t)
  | case3 r seen t st fuel hn seen' e hw =>
      obtain ⟨fuel', rfl⟩ := Nat.exists_eq_add_of_le' hle
      rw [Nat.succ_eq_add_one, ← Nat.add_assoc, iterate_succ watch _ seen hn, hw]
      rfl
  | case4 r seen t st fuel hn seen' hw ih =>
      obtain ⟨fuel', rfl⟩ := Nat.exists_eq_add_of_le' hle
      rw [Nat.succ_eq_add_one, ← Nat.add_assoc, iterate_succ watch _ seen hn, hw]
      exact ih (Nat.le_add_left fuel fuel') h

/-- A run that was not cut short is the same if more contractions are allowed. -/
theorem run_mono {watch : Watcher σ ε} {fuel fuel' : Nat} {r : Reducer} {seen : σ} {t : Term}
    (hle : fuel ≤ fuel') (h : ∀ u, (r.run watch fuel seen t).ending ≠ .unfinished u) :
    r.run watch fuel' seen t = r.run watch fuel seen t := by
  rw [run_eq_iterate] at h ⊢
  rw [run_eq_iterate]
  exact iterate_mono hle h

theorem iterate_of_passes {next : Term → Supply → Option Step} {watch watch' : Watcher σ ε}
    (hpass : ∀ seen c seen', watch seen c = (seen', none) → watch' seen c = (seen', none))
    {fuel : Nat} {r : Reducer} {seen : σ} {t v : Term}
    (h : (iterate next watch fuel r seen t).ending = .normal v) :
    iterate next watch' fuel r seen t = iterate next watch fuel r seen t := by
  fun_induction iterate next watch fuel r seen t with
  | case1 r seen t fuel hn => rw [iterate.eq_def, hn]
  | case2 => cases h
  | case3 => cases h
  | case4 r seen t st fuel hn seen' hw ih =>
      rw [iterate_succ watch' fuel seen hn, hpass seen _ seen' hw]
      exact ih h

/-- A finished run is the same for every watcher that lets the same contractions pass. -/
theorem run_of_passes {watch watch' : Watcher σ ε}
    (hpass : ∀ seen c seen', watch seen c = (seen', none) → watch' seen c = (seen', none))
    {fuel : Nat} {r : Reducer} {seen : σ} {t v : Term}
    (h : (r.run watch fuel seen t).ending = .normal v) :
    r.run watch' fuel seen t = r.run watch fuel seen t := by
  rw [run_eq_iterate] at h ⊢
  rw [run_eq_iterate]
  exact congrArg Phase.toRun (iterate_of_passes hpass h)

/-- What is asked of the two watchers has to hold only for the contractions on the way, which `Inv`
tells something about. -/
theorem iterate_map {next : Term → Supply → Option Step} {watch : Watcher σ ε}
    {watch' : Watcher τ ε} (f : σ → τ) (Inv : Term → Supply → Prop)
    (hstep : ∀ t s st, Inv t s → next t s = some st → Inv st.result st.supply ∧
      ∀ seen, watch' (f seen) st.contraction =
        (f (watch seen st.contraction).1, (watch seen st.contraction).2))
    (fuel : Nat) (r : Reducer) (seen : σ) (t : Term) (ht : Inv t r.supply) :
    (iterate next watch' fuel r (f seen) t).toRun =
      ⟨(iterate next watch fuel r seen t).ending,
        (iterate next watch fuel r seen t).stage.reducer,
        f (iterate next watch fuel r seen t).stage.seen⟩ := by
  fun_induction iterate next watch fuel r seen t with
  | case1 r seen t fuel hn =>
      rw [iterate.eq_def, hn]
      rfl
  | case2 r seen t st hn =>
      rw [iterate.eq_def, hn]
      rfl
  | case3 r seen t st fuel hn seen' e hw =>
      obtain ⟨-, hmap⟩ := hstep t r.supply st ht hn
      rw [iterate_succ watch' fuel (f seen) hn, hmap, hw]
      rfl
  | case4 r seen t st fuel hn seen' hw ih =>
      obtain ⟨hnext, hmap⟩ := hstep t r.supply st ht hn
      rw [iterate_succ watch' fuel (f seen) hn, hmap, hw]
      exact ih hnext

/-- A run does not depend on what else the watcher remembers. -/
theorem run_map {watch : Watcher σ ε} {watch' : Watcher τ ε} (f : σ → τ)
    (hmap : ∀ seen c, watch' (f seen) c = (f (watch seen c).1, (watch seen c).2))
    (fuel : Nat) (r : Reducer) (seen : σ) (t : Term) :
    r.run watch' fuel (f seen) t =
      ⟨(r.run watch fuel seen t).ending, (r.run watch fuel seen t).reducer,
        f (r.run watch fuel seen t).seen⟩ := by
  rw [run_eq_iterate, run_eq_iterate]
  exact iterate_map f (fun _ _ => True)
    (fun _ _ st _ _ => ⟨trivial, fun seen => hmap seen st.contraction⟩) fuel _ seen t trivial

/-- On a hygienic term, the watchers need to agree only on contractions with hygienic sides. -/
theorem run_map_of_hygienic {watch : Watcher σ ε} {watch' : Watcher τ ε} (f : σ → τ)
    (hmap : ∀ seen c, c.redex.Hygienic → c.contractum.Hygienic →
      watch' (f seen) c = (f (watch seen c).1, (watch seen c).2))
    (fuel : Nat) (r : Reducer) (seen : σ) {t : Term} (ht : t.Hygienic) :
    r.run watch' fuel (f seen) t =
      ⟨(r.run watch fuel seen t).ending, (r.run watch fuel seen t).reducer,
        f (r.run watch fuel seen t).seen⟩ := by
  rw [run_eq_iterate, run_eq_iterate]
  refine iterate_map f Term.Settled ?_ fuel _ seen t ⟨ht, t.known_reserve r.supply⟩
  intro u s st hu hst
  have hclean := hu.clean hst
  exact ⟨hclean.result,
    fun seen => hmap seen _ hclean.redex.hygienic hclean.contractum.hygienic⟩

end Reducer

end UntypedLambda
