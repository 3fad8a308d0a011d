import UntypedLambda.Proofs.Reduction.Hygiene
import UntypedLambda.Proofs.Term.Meaning

/-!
# Reduction and the nameless calculus

A run on numbered terms is the leftmost-outermost reduction of the nameless
calculus, contraction by contraction.

* `Term.Refines` — a step whose contraction is, in the nameless form of the whole
  term, the one of the leftmost-outermost redex.
* `Term.Settled.refines` — every step of a hygienic term is of this kind.
* `Reducer.run_refines` — so is every step of a run, and a run that is finished has
  reached the last term of the sequence.
-/

namespace UntypedLambda

namespace Term

/-- In the nameless form of `t`, the step `st` contracts the leftmost-outermost
redex.  The two sides of the contraction are read in the scope of its place. -/
def Refines (t : Term) (st : Step) : Prop :=
  ∃ p, t.at? p = some st.contraction.redex ∧
    st.result = t.put p st.contraction.contractum ∧
    Nameless.Leftmost t.nameless p (st.contraction.redex.namelessIn (t.scopeAt p []))
      (st.contraction.contractum.namelessIn (t.scopeAt p [])) st.result.nameless

/-- A contraction is one of the nameless forms, in any scope. -/
theorem Contracts.meaning {t : Term} {s : Supply} {p : Path} {st : Step}
    (h : Contracts t s p st) (ht : t.Settled s) (scope : List (Option Int)) :
    ∃ body arg, st.contraction.redex.namelessIn scope = .app (.lam body) arg ∧
      st.contraction.contractum.namelessIn scope = Nameless.contract body arg := by
  obtain ⟨param, body, hfn, hc⟩ := h.contracts
  have hplace := h.place
  rw [Contraction.redex, hfn] at hplace ⊢
  have hloose : ∀ i ∈ st.contraction.arg.looseIds, i < s.next := by
    intro i hi
    have hm := (mem_ids_iff st.contraction.arg i).2 (.inr hi)
    exact (ht.known.at? hplace i (List.mem_append_right _ hm)).2
  have hmeaning := namelessIn_contract (ht.hygienic.at? hplace) hloose scope
  rw [hc] at hmeaning
  exact ⟨_, _, rfl, hmeaning⟩

/-- A contraction of the leftmost-outermost redex is one in the nameless form. -/
theorem Contracts.leftmost {t : Term} {s : Supply} {p : Path} {st : Step}
    (h : Contracts t s p st) (ht : t.Settled s) :
    Nameless.Leftmost t.nameless p (st.contraction.redex.namelessIn (t.scopeAt p []))
      (st.contraction.contractum.namelessIn (t.scopeAt p [])) st.result.nameless where
  first := by rw [nameless, redexes_namelessIn, h.first]
  place := at?_namelessIn h.place []
  contracts := h.meaning ht (t.scopeAt p [])
  result := by
    rw [h.result]
    exact namelessIn_put h.place st.contraction.contractum []

theorem Settled.refines {t : Term} {s : Supply} {st : Step} (ht : t.Settled s)
    (h : t.step? s = some st) : t.Refines st := by
  obtain ⟨p, hp⟩ := exists_contracts h
  exact ⟨p, hp.place, hp.result, hp.leftmost ht⟩

end Term

namespace Reducer

variable {σ ε : Type}

/-- **A run is the leftmost-outermost reduction of the nameless form.**  The
contractions shown to the watcher are those of the reduction sequence of the term,
in this order and without a gap, and all of them are counted.  What a finished run
gives back is the last term of the sequence; no redex stands in it, and reducing it
again gives back the same term without a contraction. -/
theorem run_refines (watch : Watcher σ ε) (fuel : Nat) (r : Reducer) (seen : σ) (t : Term)
    (ht : t.Hygienic) :
    ∃ sts u, Steps (fun t _ st => t.Refines st) t (r.supply.reserve t.ids) sts u
        (r.run watch fuel seen t).reducer.supply ∧
      Performs watch fuel r seen (r.run watch fuel seen t) sts u ∧
      ∀ m, (r.run watch fuel seen t).ending = .normal m →
        m.nameless.redexes = [] ∧
        ∀ (σ' ε' : Type) (watch' : Watcher σ' ε') (fuel' : Nat) (r' : Reducer) (seen' : σ'),
          r'.run watch' fuel' seen' m =
            ⟨.normal m, ⟨r'.supply.reserve m.ids, r'.steps⟩, seen'⟩ := by
  obtain ⟨sts, u, hs, hp, -⟩ := exists_settled_steps watch fuel r seen ht
  refine ⟨sts, u, hs.mono fun t s st h => h.1.refines h.2, hp, ?_⟩
  intro m hm
  have hnormal := hp.normal m hm
  constructor
  · rw [Nameless.redexes_eq_nil_iff, Term.isNormal_nameless_iff]
    exact hnormal
  · intro σ' ε' watch' fuel' r' seen'
    exact run_of_isNormal watch' fuel' r' seen' hnormal

/-- The theorem at `(λx.xx)(λy.λz.yz)`, whose argument is copied twice and then
copied into one of its copies. -/
theorem run_refines_self_application :
    let t : Term := .app
      (.lam (.bound 1 "x") (.app (.var (.bound 1 "x")) (.var (.bound 1 "x"))))
      (.lam (.bound 2 "y") (.lam (.bound 3 "z")
        (.app (.var (.bound 2 "y")) (.var (.bound 3 "z")))))
    t.Hygienic ∧
      ∃ sts u, Steps (fun t _ st => t.Refines st) t (Supply.empty.reserve t.ids) sts u
          (fresh.run (fun n _ => (n + 1, if n = 4 then some () else none)) 9 0 t).reducer.supply ∧
        Performs (fun n _ => (n + 1, if n = 4 then some () else none)) 9 fresh 0
          (fresh.run (fun n _ => (n + 1, if n = 4 then some () else none)) 9 0 t) sts u := by
  intro t
  have ht : t.Hygienic := by decide +zetaReduce
  obtain ⟨sts, u, hs, hp, -⟩ := run_refines
    (fun n _ => (n + 1, if n = 4 then some () else none)) 9 fresh 0 t ht
  exact ⟨ht, sts, u, hs, hp⟩

end Reducer

end UntypedLambda
