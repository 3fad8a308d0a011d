import UntypedLambda.Proofs.Reduction.Leftmost

/-!
# The steps of a run

Every run leaves a list of steps behind, whether it reached a normal form, was
stopped by the watcher or used up the contractions it was allowed.

* `Steps` — a list of steps performed one after the other, each of them related
  to the term and the supply it started from.
* `Shown` — what a watcher makes of a list of contractions.
* `Reducer.exists_steps` — the steps of a run, and how they decide its outcome.
* `Steps.invariant` — what every step keeps holds all along.
-/

namespace UntypedLambda

/-- Steps performed one after the other, from a term and a supply to another term
and another supply; `R` says what a single step may be. -/
inductive Steps (R : Term → Supply → Step → Prop) :
    Term → Supply → List Step → Term → Supply → Prop
  /-- No step. -/
  | nil (t : Term) (s : Supply) : Steps R t s [] t s
  /-- One step, and those after it. -/
  | cons {t u : Term} {s s' : Supply} {st : Step} {sts : List Step} :
      R t s st → Steps R st.result st.supply sts u s' → Steps R t s (st :: sts) u s'

/-- What every step keeps holds before each of them, and in the end. -/
theorem Steps.invariant {R : Term → Supply → Step → Prop} {Inv : Term → Supply → Prop}
    (h : ∀ t s st, Inv t s → R t s st → Inv st.result st.supply)
    {t u : Term} {s s' : Supply} {sts : List Step} (hs : Steps R t s sts u s') (ht : Inv t s) :
    Steps (fun t s st => Inv t s ∧ R t s st) t s sts u s' ∧ Inv u s' := by
  induction hs with
  | nil t s => exact ⟨.nil t s, ht⟩
  | cons hst hs ih =>
      obtain ⟨hs', hu⟩ := ih (h _ _ _ ht hst)
      exact ⟨.cons ⟨ht, hst⟩ hs', hu⟩

theorem Steps.mono {R R' : Term → Supply → Step → Prop} (h : ∀ t s st, R t s st → R' t s st)
    {t u : Term} {s s' : Supply} {sts : List Step} (hs : Steps R t s sts u s') :
    Steps R' t s sts u s' := by
  induction hs with
  | nil t s => exact .nil t s
  | cons hst hs ih => exact .cons (h _ _ _ hst) ih

/-- What holds of every single step holds of all steps of a list. -/
theorem Steps.forall_mem {R : Term → Supply → Step → Prop} {P : Step → Prop}
    (h : ∀ t s st, R t s st → P st) {t u : Term} {s s' : Supply} {sts : List Step}
    (hs : Steps R t s sts u s') : ∀ st ∈ sts, P st := by
  induction hs with
  | nil t s => simp
  | cons hst _ ih => exact List.forall_mem_cons.2 ⟨h _ _ _ hst, ih⟩

/-- A watcher in state `seen` is shown contractions one after the other; it ends in
state `seen'`, and stops at the last one of them if `stop?` is its reason for
that. -/
inductive Shown {σ ε : Type} (watch : Watcher σ ε) :
    σ → List Contraction → σ → Option ε → Prop
  /-- Nothing is shown. -/
  | nil (seen : σ) : Shown watch seen [] seen none
  /-- The watcher stops. -/
  | stop {seen seen' : σ} {c : Contraction} {e : ε} :
      watch seen c = (seen', some e) → Shown watch seen [c] seen' (some e)
  /-- The watcher lets the next contraction come. -/
  | cons {seen seen' seen'' : σ} {c : Contraction} {cs : List Contraction} {stop? : Option ε} :
      watch seen c = (seen', none) → Shown watch seen' cs seen'' stop? →
      Shown watch seen (c :: cs) seen'' stop?

/-- The watcher's reason, if it stopped the run. -/
def Ending.stop? {ε : Type} : Ending ε → Option ε
  | .stopped e => some e
  | _ => none

/-- The term that a run ended with, unless the watcher stopped it. -/
def Ending.term? {ε : Type} : Ending ε → Option Term
  | .normal t => some t
  | .stopped _ => none
  | .unfinished t => some t

namespace Reducer

variable {σ ε : Type}

/-- The steps `sts`, which lead to the term `u`, are those of a run by the reducer
`r` that may take `fuel` of them, and they decide its outcome. -/
structure Performs (watch : Watcher σ ε) (fuel : Nat) (r : Reducer) (seen : σ) (run : Run σ ε)
    (sts : List Step) (u : Term) : Prop where
  /-- The watcher is shown the contractions of all steps, and nothing else. -/
  shown : Shown watch seen (sts.map Step.contraction) run.seen run.ending.stop?
  /-- All steps are counted. -/
  steps : run.reducer.steps = r.steps + sts.length
  /-- Unless the watcher stops the run, it ends with the last term. -/
  term : ∀ m, run.ending.term? = some m → m = u
  /-- A run that is finished has reached a normal form. -/
  normal : ∀ m, run.ending = .normal m → m.IsNormal
  /-- A run is cut short only at a term that is not normal, after as many steps as
  are allowed. -/
  unfinished : ∀ m, run.ending = .unfinished m → ¬m.IsNormal ∧ sts.length = fuel

theorem Performs.cons {watch : Watcher σ ε} {fuel : Nat} {r : Reducer} {seen seen' : σ}
    {run : Run σ ε} {st : Step} {sts : List Step} {u : Term}
    (hw : watch seen st.contraction = (seen', none))
    (h : Performs watch fuel ⟨st.supply, r.steps + 1⟩ seen' run sts u) :
    Performs watch (fuel + 1) r seen run (st :: sts) u where
  shown := .cons hw h.shown
  steps := by
    rw [h.steps, List.length_cons]
    exact Nat.add_right_comm r.steps 1 sts.length
  term := h.term
  normal := h.normal
  unfinished m hm := ⟨(h.unfinished m hm).1, congrArg (· + 1) (h.unfinished m hm).2⟩

/-- What has been done when a phase has ended. -/
def Phase.toRun (p : Phase σ ε) : Run σ ε := ⟨p.ending, p.stage.reducer, p.stage.seen⟩

theorem exists_steps_iterate (watch : Watcher σ ε) (fuel : Nat) (r : Reducer) (seen : σ)
    (t : Term) :
    ∃ sts u, Steps (fun t s st => t.step? s = some st) t r.supply sts u
        (iterate Term.step? watch fuel r seen t).toRun.reducer.supply ∧
      Performs watch fuel r seen (iterate Term.step? watch fuel r seen t).toRun sts u := by
  fun_induction iterate Term.step? watch fuel r seen t with
  | case1 r seen t fuel hn =>
      have ht := (t.step?_eq_none_iff r.supply).1 hn
      refine ⟨[], t, .nil t _, .nil seen, rfl, ?_, ?_, ?_⟩
      · simp [Phase.toRun, Ending.term?]
      · simpa [Phase.toRun] using ht
      · simp [Phase.toRun]
  | case2 r seen t st hst =>
      have ht : ¬t.IsNormal := by
        rw [← t.step?_eq_none_iff r.supply, hst]
        simp
      refine ⟨[], t, .nil t _, .nil seen, rfl, ?_, ?_, ?_⟩
      · simp [Phase.toRun, Ending.term?]
      · simp [Phase.toRun]
      · simpa [Phase.toRun] using ht
  | case3 r seen t st fuel hst seen' e hw =>
      refine ⟨[st], st.result, .cons hst (.nil _ _), .stop hw, rfl, ?_, ?_, ?_⟩
      · simp [Phase.toRun, Ending.term?]
      · simp [Phase.toRun]
      · simp [Phase.toRun]
  | case4 r seen t st fuel hst seen' hw ih =>
      obtain ⟨sts, u, hs, hp⟩ := ih
      exact ⟨st :: sts, u, .cons hst hs, hp.cons hw⟩

/-- Every run is a list of leftmost-outermost steps, from the term whose numbers
were reserved. -/
theorem exists_steps (watch : Watcher σ ε) (fuel : Nat) (r : Reducer) (seen : σ) (t : Term) :
    ∃ sts u, Steps (fun t s st => t.step? s = some st) t (r.supply.reserve t.ids) sts u
        (r.run watch fuel seen t).reducer.supply ∧
      Performs watch fuel r seen (r.run watch fuel seen t) sts u := by
  obtain ⟨sts, u, hs, hp⟩ :=
    exists_steps_iterate watch fuel ⟨r.supply.reserve t.ids, r.steps⟩ seen t
  rw [run_eq_iterate]
  exact ⟨sts, u, hs, hp.shown, hp.steps, hp.term, hp.normal, hp.unfinished⟩

/-- A normal term is given back as it is, without a step. -/
theorem run_of_isNormal (watch : Watcher σ ε) (fuel : Nat) (r : Reducer) (seen : σ) {t : Term}
    (h : t.IsNormal) :
    r.run watch fuel seen t = ⟨.normal t, ⟨r.supply.reserve t.ids, r.steps⟩, seen⟩ := by
  have hn := (t.step?_eq_none_iff (r.supply.reserve t.ids)).2 h
  rw [run_eq_iterate, iterate.eq_def, hn]

end Reducer

end UntypedLambda
