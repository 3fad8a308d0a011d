import UntypedLambda.Proofs.Reduction.Trace
import UntypedLambda.Proofs.Term.PrintedNumbers
import UntypedLambda.Session

/-!
# Numbers cannot be observed

A run on a term and a run on the same term with other numbers go on side by side, also
if each of them draws numbers of its own: there is one change of numbers under which
all contractions of the first run go over into those of the second, and so does what
they end with.  Since numbers do not show in print, nothing of this can be told from
what is printed.  The term may be any term, hygienic or not.

* `Step.Renumbers` — a step goes over into another one.
* `Term.step?_mapIds` — a term with other numbers makes the corresponding step.
* `Reducer.run_mapIds` — the two runs correspond, for watchers that treat corresponding
  contractions in the same way.
* `Reducer.run_shows_no_numbers` — no run and no printed form depends on how functions are
  numbered.
-/

namespace UntypedLambda

/-! ## One step -/

/-- The step `st` goes over into the step `st'`, and the numbers drawn afterwards match. -/
structure Step.Renumbers (ρ : Int → Int) (st st' : Step) : Prop where
  /-- The redex and the contractum go over into each other. -/
  contraction : st'.contraction = st.contraction.mapIds ρ
  /-- So do the whole terms. -/
  result : st'.result = st.result.mapIds ρ
  /-- So do the numbers that are drawn next. -/
  supply : st.supply.Matches ρ st'.supply

theorem Step.Renumbers.inside {ρ : Int → Int} {st st' : Step} (h : st.Renumbers ρ st')
    {wrap wrap' : Term → Term} (hwrap : ∀ t, (wrap t).mapIds ρ = wrap' (t.mapIds ρ)) :
    (st.inside wrap).Renumbers ρ (st'.inside wrap') where
  contraction := h.contraction
  result := by
    show wrap' st'.result = (wrap st.result).mapIds ρ
    rw [h.result, hwrap]
  supply := h.supply

namespace Term

variable {ρ : Int → Int} {s s' : Supply}

/-- A term that makes no step makes none with other numbers. -/
theorem step?_mapIds_eq_none {t : Term} (h : t.step? s = none) : (t.mapIds ρ).step? s' = none := by
  rw [step?_eq_none_iff] at h ⊢
  exact (isNormal_mapIds ρ t).2 h

/-- The first step of a term with other numbers corresponds to the first step of the term. -/
theorem step?_mapIds (hρ : Function.Injective ρ) (hs : s.Matches ρ s') {t : Term} {st : Step}
    (h : t.step? s = some st) : ∃ st', (t.mapIds ρ).step? s' = some st' ∧ st.Renumbers ρ st' := by
  induction t generalizing st with
  | var v => cases h
  | lam param body ih =>
      obtain ⟨st₁, hst₁, rfl⟩ := Option.map_eq_some_iff.1 h
      obtain ⟨st', hst', hrenumbers⟩ := ih hst₁
      refine ⟨st'.inside (.lam (param.mapId ρ)), ?_, hrenumbers.inside fun t => rfl⟩
      rw [mapIds, step?, hst']
      rfl
  | app fn arg ihf iha =>
      by_cases hlam : fn.isLam
      · obtain ⟨param, body, rfl⟩ : ∃ param body, fn = .lam param body := by
          cases fn <;> simp_all [isLam]
        cases h
        obtain ⟨hcontract, hsupply⟩ := contract_mapIds hρ hs param body arg
        refine ⟨_, rfl, ?_, hcontract, hsupply⟩
        simp only [Step.contract, Contraction.mapIds, mapIds, hcontract]
      · have hfn : fn.isLam = false := by simpa using hlam
        have hfn' : (fn.mapIds ρ).isLam = false := by rw [isLam_mapIds, hfn]
        rw [step?_app hfn] at h
        rw [mapIds, step?_app hfn']
        cases hstep : fn.step? s with
        | some st₁ =>
            rw [hstep] at h
            cases h
            obtain ⟨st', hst', hrenumbers⟩ := ihf hstep
            rw [hst']
            exact ⟨_, rfl, hrenumbers.inside fun t => rfl⟩
        | none =>
            rw [hstep] at h
            obtain ⟨st₁, hst₁, rfl⟩ := Option.map_eq_some_iff.1 h
            obtain ⟨st', hst', hrenumbers⟩ := iha hst₁
            rw [step?_mapIds_eq_none hstep, hst']
            exact ⟨_, rfl, hrenumbers.inside fun t => rfl⟩

end Term

/-! ## Whole runs -/

/-- The same ending with other terms and other reasons for stopping. -/
def Ending.translate {ε ε' : Type} (f : Term → Term) (g : ε → ε') : Ending ε → Ending ε'
  | .normal t => .normal (f t)
  | .stopped e => .stopped (g e)
  | .unfinished t => .unfinished (f t)

namespace Reducer

variable {σ σ' ε ε' : Type} {ρ : Int → Int}

/-- The watcher of the second run makes of a contraction what that of the first run makes of the
corresponding one. -/
def Agree (ρ : Int → Int) (f : σ → σ') (g : ε → ε') (watch : Watcher σ ε)
    (watch' : Watcher σ' ε') : Prop :=
  ∀ seen c, watch' (f seen) (c.mapIds ρ) = (f (watch seen c).1, (watch seen c).2.map g)

/-- What two runs have in common if the first goes over into the second. -/
structure Parallel (ρ : Int → Int) (f : σ → σ') (g : ε → ε') (r r' : Reducer) (run : Run σ ε)
    (run' : Run σ' ε') : Prop where
  /-- They end in the same way, with terms that go over into each other. -/
  ending : run'.ending = run.ending.translate (Term.mapIds ρ) g
  /-- What the watchers have seen corresponds. -/
  seen : run'.seen = f run.seen
  /-- They perform the same number of contractions. -/
  steps : run'.reducer.steps + r.steps = run.reducer.steps + r'.steps

theorem parallel_iterate (hρ : Function.Injective ρ) {f : σ → σ'} {g : ε → ε'}
    {watch : Watcher σ ε} {watch' : Watcher σ' ε'} (hw : Agree ρ f g watch watch') (fuel : Nat)
    (r r' : Reducer) (hs : r.supply.Matches ρ r'.supply) (seen : σ) (t : Term) :
    Parallel ρ f g r r' (iterate Term.step? watch fuel r seen t).toRun
      (iterate Term.step? watch' fuel r' (f seen) (t.mapIds ρ)).toRun := by
  fun_induction iterate Term.step? watch fuel r seen t generalizing r' with
  | case1 r seen t fuel hn =>
      rw [iterate.eq_def, Term.step?_mapIds_eq_none hn]
      exact ⟨rfl, rfl, Nat.add_comm ..⟩
  | case2 r seen t st hst =>
      obtain ⟨st', hst', -⟩ := Term.step?_mapIds hρ hs hst
      rw [iterate.eq_def, hst']
      exact ⟨rfl, rfl, Nat.add_comm ..⟩
  | case3 r seen t st fuel hst seen' e hwatch =>
      obtain ⟨st', hst', hrenumbers⟩ := Term.step?_mapIds hρ hs hst
      rw [iterate_succ watch' fuel (f seen) hst', hrenumbers.contraction, hw, hwatch]
      refine ⟨rfl, rfl, ?_⟩
      show r'.steps + 1 + r.steps = r.steps + 1 + r'.steps
      omega
  | case4 r seen t st fuel hst seen' hwatch ih =>
      obtain ⟨st', hst', hrenumbers⟩ := Term.step?_mapIds hρ hs hst
      have hrest := ih ⟨st'.supply, r'.steps + 1⟩ hrenumbers.supply
      rw [iterate_succ watch' fuel (f seen) hst', hrenumbers.contraction, hrenumbers.result, hw,
        hwatch]
      simp only [Option.map_none]
      have hsteps := hrest.steps
      simp only at hsteps
      exact ⟨hrest.ending, hrest.seen, by omega⟩

/-- **A run on a term with other numbers goes on as the run on the term**, if the numbers that are
drawn match. -/
theorem run_mapIds (hρ : Function.Injective ρ) {f : σ → σ'} {g : ε → ε'}
    {watch : Watcher σ ε} {watch' : Watcher σ' ε'} (hw : Agree ρ f g watch watch') (fuel : Nat)
    {r r' : Reducer} {t : Term}
    (hs : (r.supply.reserve t.ids).Matches ρ (r'.supply.reserve (t.mapIds ρ).ids)) (seen : σ) :
    Parallel ρ f g r r' (r.run watch fuel seen t) (r'.run watch' fuel (f seen) (t.mapIds ρ)) := by
  rw [run_eq_iterate, run_eq_iterate]
  have hparallel := parallel_iterate hρ hw fuel ⟨r.supply.reserve t.ids, r.steps⟩
    ⟨r'.supply.reserve (t.mapIds ρ).ids, r'.steps⟩ hs seen t
  exact ⟨hparallel.ending, hparallel.seen, hparallel.steps⟩

end Reducer

/-! ## What is printed -/

/-- What interrupts an action, with other numbers. -/
def Interruption.mapId (ρ : Int → Int) : Interruption → Interruption
  | .fault (.unprintable m) => .fault (.unprintable (m.mapId ρ))
  | i => i

theorem toOption_mapError {ε ε' α : Type} (f : ε → ε') (r : Except ε α) :
    (r.mapError f).toOption = r.toOption := by
  cases r <;> rfl

namespace Session

variable {ρ : Int → Int}

theorem contractionText_mapIds (hρ : Function.Injective ρ) (c : Contraction) :
    contractionText (c.mapIds ρ) = (contractionText c).mapError (Missing.mapId ρ) := by
  unfold contractionText
  rw [Contraction.redex_mapIds, Term.render_mapIds hρ]
  cases c.redex.render with
  | error m => rfl
  | ok redex =>
      have hcontractum : (c.mapIds ρ).contractum.render =
          c.contractum.render.mapError (Missing.mapId ρ) := Term.render_mapIds hρ c.contractum
      simp only [Except.mapError, hcontractum]
      cases c.contractum.render <;> rfl

/-- A session makes the same of a contraction with other numbers. -/
theorem agree_watch (hρ : Function.Injective ρ) (s : Session) :
    Reducer.Agree ρ id (Interruption.mapId ρ) s.watch s.watch := by
  intro p c
  have htext : s.traceText (c.mapIds ρ) = (s.traceText c).mapError (Missing.mapId ρ) := by
    unfold traceText
    rw [contractionText_mapIds hρ]
    split
    · cases contractionText c <;> rfl
    · rfl
  have hlimit : (s.overLimit (p.steps + 1)).map (Interruption.mapId ρ) =
      s.overLimit (p.steps + 1) := by
    unfold overLimit
    split
    · rfl
    · split <;> rfl
    · rfl
  unfold watch
  simp only [id_eq, htext]
  cases s.traceText c with
  | error m => rfl
  | ok text => exact congrArg (Prod.mk _) hlimit.symm

end Session

namespace Reducer

/-- Keeps every contraction, and stops at none. -/
def record : Watcher (List Contraction) Empty := fun cs c => (cs ++ [c], none)

theorem agree_record (ρ : Int → Int) :
    Agree ρ (List.map (Contraction.mapIds ρ)) id record record := by
  intro cs c
  simp [record]

/-- What a term that a run ended with is printed as. -/
def endText? {ε : Type} (ending : Ending ε) : Option (Option String) :=
  ending.term?.map fun u => u.render.toOption

theorem endText?_translate {ε ε' : Type} {ρ : Int → Int} (hρ : Function.Injective ρ)
    (g : ε → ε') (ending : Ending ε) :
    endText? (ending.translate (Term.mapIds ρ) g) = endText? ending := by
  cases ending <;>
    simp [endText?, Ending.translate, Ending.term?, Term.render_mapIds hρ, toOption_mapError]

/-- **Numbers cannot be observed.**  Let the numbers of a term be replaced in any way that keeps
them apart.  Then it is printed in the same way, or it cannot be printed in either.  Let it be
reduced by any two reducers, with its old numbers and with the new ones.  There is one change of
numbers that keeps all of them apart, agrees on the numbers of the term, and takes the
contractions of the first run, in order, to those of the second, as it does with the term that
they end with; both perform the same number of contractions, and what is printed for each of them
and for the result is the same.  So a session, whatever it allows and prints, sees and prints the
same of both runs. -/
theorem run_shows_no_numbers (t : Term) (ρ : Int → Int) (hρ : Set.InjOn ρ {i | i ∈ t.ids})
    (r r' : Reducer) :
    (t.mapIds ρ).render.toOption = t.render.toOption ∧
    ∃ ρ' : Int → Int, Function.Injective ρ' ∧ (∀ i ∈ t.ids, ρ' i = ρ i) ∧
      (∀ fuel, let run := r.run record fuel [] t
        let run' := r'.run record fuel [] (t.mapIds ρ)
        run'.reducer.steps + r.steps = run.reducer.steps + r'.steps ∧
        run'.seen = run.seen.map (Contraction.mapIds ρ') ∧
        run'.ending = run.ending.translate (Term.mapIds ρ') id ∧
        (run'.seen.map fun c => (Session.contractionText c).toOption) =
          (run.seen.map fun c => (Session.contractionText c).toOption) ∧
        endText? run'.ending = endText? run.ending) ∧
      ∀ (s : Session) (fuel : Nat) (p : Progress),
        (r'.run s.watch fuel p (t.mapIds ρ)).seen = (r.run s.watch fuel p t).seen ∧
        endText? (r'.run s.watch fuel p (t.mapIds ρ)).ending =
          endText? (r.run s.watch fuel p t).ending := by
  obtain ⟨ρ', hρ', hagree, hmatches⟩ := exists_matching hρ
    (fun i hi => r.supply.lt_next_reserve hi)
    (fun i hi => r'.supply.lt_next_reserve (List.mem_map_of_mem hi))
  have hsame : t.mapIds ρ = t.mapIds ρ' := Term.mapIds_congr fun i hi => (hagree i hi).symm
  rw [← Term.ids_mapIds] at hmatches
  rw [hsame] at hmatches ⊢
  refine ⟨by rw [Term.render_mapIds hρ', toOption_mapError], ρ', hρ', hagree, ?_, ?_⟩
  · intro fuel run run'
    have hparallel : Parallel ρ' _ id r r' run run' :=
      run_mapIds hρ' (agree_record ρ') fuel hmatches []
    refine ⟨hparallel.steps, hparallel.seen, hparallel.ending, ?_, ?_⟩
    · rw [hparallel.seen, List.map_map]
      refine List.map_congr_left fun c _ => ?_
      rw [Function.comp_apply, Session.contractionText_mapIds hρ', toOption_mapError]
    · rw [hparallel.ending, endText?_translate hρ']
  · intro s fuel p
    have hparallel : Parallel ρ' id _ r r' (r.run s.watch fuel p t)
        (r'.run s.watch fuel p (t.mapIds ρ')) :=
      run_mapIds hρ' (s.agree_watch hρ') fuel hmatches p
    refine ⟨hparallel.seen, ?_⟩
    rw [hparallel.ending, endText?_translate hρ']

/-- The theorem at `(λx.xx)(λy.yz)` where both functions have number `1`, so that the term is not
hygienic, and `z` is loose; the second reducer has been used before. -/
theorem run_shows_no_numbers_repeated :
    let t : Term := .app
      (.lam (.bound 1 "x") (.app (.var (.bound 1 "x")) (.var (.bound 1 "x"))))
      (.lam (.bound 1 "y") (.app (.var (.bound 1 "y")) (.var (.bound 0 "z"))))
    let ρ : Int → Int := fun i => 40 - i
    ¬t.Hygienic ∧ Set.InjOn ρ {i | i ∈ t.ids} ∧
      ∃ ρ' : Int → Int, Function.Injective ρ' ∧ (∀ i ∈ t.ids, ρ' i = ρ i) ∧
        (Reducer.run record 9 ⟨Supply.ofUsed [7, 90], 5⟩ [] (t.mapIds ρ)).seen =
          (fresh.run record 9 [] t).seen.map (Contraction.mapIds ρ') := by
  intro t ρ
  have ht : ¬t.Hygienic := by decide +zetaReduce
  have hρ : Set.InjOn ρ {i | i ∈ t.ids} := by
    intro i _ j _ hij
    simp only [ρ] at hij
    omega
  obtain ⟨-, ρ', hinjective, hagree, hruns, -⟩ :=
    run_shows_no_numbers t ρ hρ fresh ⟨Supply.ofUsed [7, 90], 5⟩
  exact ⟨ht, hρ, ρ', hinjective, hagree, (hruns 9).2.1⟩

end Reducer

end UntypedLambda
