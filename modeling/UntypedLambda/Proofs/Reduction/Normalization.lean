import UntypedLambda.Proofs.Nameless.Standardization
import UntypedLambda.Proofs.Reduction.Refinement

/-!
# A run finds the normal form

A run that nothing stops ends exactly when its term has a normal form, in the sense
of the nameless calculus with contraction of any redex in any order.

* `Steps.reduct?` — the steps of a run are contractions from left to right.
* `Reducer.run_idle_finds_normal_form` — with enough contractions allowed, a run
  ends with the normal form; without a normal form, it never ends.
-/

namespace UntypedLambda

open Relation (ReflTransGen)

/-- Looks on and never stops a run. -/
def Watcher.idle : Watcher Unit Empty := fun _ _ => ((), none)

/-- In the nameless form, the steps of a run are as many contractions from left to
right. -/
theorem Steps.reduct? {t u : Term} {s s' : Supply} {sts : List Step}
    (h : Steps (fun t s st => t.Settled s ∧ t.step? s = some st) t s sts u s') :
    t.nameless.reduct? sts.length = some u.nameless := by
  induction h with
  | nil t s => rfl
  | cons hst _ ih =>
      obtain ⟨p, -, -, hleft⟩ := hst.1.refines hst.2
      have hstep := Nameless.step?_eq_some_iff.2 ⟨_, _, _, hleft⟩
      rw [List.length_cons, Nameless.reduct?, hstep, Option.bind_some, ih]

namespace Reducer

/-- A run that nothing stops ends with a normal form of its term, or is cut short
after as many contractions as are allowed. -/
theorem run_idle_cases (fuel : Nat) (r : Reducer) {t : Term} (ht : t.Hygienic) :
    (∃ m k, (r.run Watcher.idle fuel () t).ending = .normal m ∧ m.nameless.IsNormal ∧
        t.nameless.reduct? k = some m.nameless) ∨
      ∃ m, (r.run Watcher.idle fuel () t).ending = .unfinished m ∧ ¬m.nameless.IsNormal ∧
        t.nameless.reduct? fuel = some m.nameless := by
  obtain ⟨sts, u, hs, hp, -⟩ := exists_settled_steps Watcher.idle fuel r () ht
  have hreduct := hs.reduct?
  rcases hend : (r.run Watcher.idle fuel () t).ending with m | e | m
  · obtain rfl := hp.term m (by simp [hend, Ending.term?])
    exact .inl ⟨m, _, rfl, (Term.isNormal_nameless_iff m).2 (hp.normal m hend), hreduct⟩
  · exact e.elim
  · obtain rfl := hp.term m (by simp [hend, Ending.term?])
    obtain ⟨hnormal, hlength⟩ := hp.unfinished m hend
    rw [hlength] at hreduct
    exact .inr ⟨m, rfl, fun h => hnormal ((Term.isNormal_nameless_iff m).1 h), hreduct⟩

/-- **A run finds the normal form exactly when there is one.**  If the nameless form
of a hygienic term can be reduced to a normal form at all, then a run that is allowed
enough contractions ends with it; otherwise no number of contractions is enough. -/
theorem run_idle_finds_normal_form (r : Reducer) (t : Term) (ht : t.Hygienic) :
    (∀ n, ReflTransGen Nameless.Beta t.nameless n → n.IsNormal →
      ∃ bound, ∀ fuel ≥ bound, ∃ m,
        (r.run Watcher.idle fuel () t).ending = .normal m ∧ m.nameless = n) ∧
    ((¬∃ n, ReflTransGen Nameless.Beta t.nameless n ∧ n.IsNormal) →
      ∀ fuel, ∃ u, (r.run Watcher.idle fuel () t).ending = .unfinished u) := by
  constructor
  · intro n hbeta hn
    obtain ⟨k, hk⟩ := Nameless.exists_reduct? (Nameless.leftmost_of_beta hbeta hn)
    refine ⟨k, ?_⟩
    intro fuel hfuel
    rcases r.run_idle_cases fuel ht with ⟨m, j, hend, hm, hj⟩ | ⟨m, -, hm, hj⟩
    · exact ⟨m, hend, (Nameless.reduct?_le hk hn hj).2 (.inl hm)⟩
    · -- a run that is cut short has not gone beyond the normal form, so it is there
      obtain ⟨hle, heq⟩ := Nameless.reduct?_le hk hn hj
      rw [heq (.inr (Nat.le_antisymm hle hfuel))] at hm
      exact absurd hn hm
  · intro hnone fuel
    rcases r.run_idle_cases fuel ht with ⟨m, j, -, hm, hj⟩ | ⟨m, hend, -, -⟩
    · exact absurd ⟨_, Nameless.beta_of_reduct? hj, hm⟩ hnone
    · exact ⟨m, hend⟩

/-- The theorem at `(λx.w)((λy.yy)(λz.zz))`, which has a normal form although its
argument has none. -/
theorem run_idle_finds_discarding_normal_form :
    let t : Term := .app (.lam (.bound 1 "x") (.var (.free "w")))
      (.app (.lam (.bound 2 "y") (.app (.var (.bound 2 "y")) (.var (.bound 2 "y"))))
        (.lam (.bound 3 "z") (.app (.var (.bound 3 "z")) (.var (.bound 3 "z")))))
    t.Hygienic ∧ ReflTransGen Nameless.Beta t.nameless (.free "w") ∧
      ∃ bound, ∀ fuel ≥ bound, ∃ m,
        (fresh.run Watcher.idle fuel () t).ending = .normal m ∧ m.nameless = .free "w" := by
  intro t
  have ht : t.Hygienic := by decide +zetaReduce
  have hbeta : ReflTransGen Nameless.Beta t.nameless (.free "w") :=
    .single (.head (.free "w") _)
  exact ⟨ht, hbeta, (run_idle_finds_normal_form fresh t ht).1 (.free "w") hbeta trivial⟩

end Reducer

end UntypedLambda
