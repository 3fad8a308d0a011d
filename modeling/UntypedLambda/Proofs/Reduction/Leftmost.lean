import UntypedLambda.Reduction

/-!
# Reduction one step at a time

`Reducer.normalize` descends into a term and never holds the whole of it.  This
file describes the same reduction as a sequence of steps on whole terms, which is
the form in which everything else about it is proved.

* `Term.step?_eq_none_iff` — a term without a leftmost-outermost step is normal.
* `Reducer.iterate` — repeats a step under the eyes of the watcher.
* `Reducer.run_eq_iterate` — a run performs the leftmost-outermost steps one after
  the other, and nothing else.

The proof follows the two phases of a run.  A phase works on a part of the term,
and what it does there is a step of the whole term as long as the place of that
part is the leftmost one with a redex in it (`iterate_wrap`).
-/

namespace UntypedLambda

namespace Term

/-- Contracts the redex in function position, if there is one there. -/
def headStep? : Term → Supply → Option Step
  | .app (.lam param body) arg, s => some (Step.contract param body arg s)
  | .app fn arg, s => (fn.headStep? s).map (Step.inside (.app · arg))
  | _, _ => none

/-! ## Terms without a step -/

theorem isLam_eq_false {t : Term} (h : ∀ param body, t ≠ .lam param body) : t.isLam = false := by
  cases t with
  | var v => rfl
  | app fn arg => rfl
  | lam param body => exact absurd rfl (h param body)

theorem step?_app {fn : Term} (h : fn.isLam = false) (arg : Term) (s : Supply) :
    (Term.app fn arg).step? s =
      match fn.step? s with
      | some st => some (st.inside (.app · arg))
      | none => (arg.step? s).map (Step.inside (.app fn)) := by
  cases fn with
  | var v => rfl
  | app f a => rfl
  | lam param body => cases h

theorem headStep?_app {fn : Term} (h : fn.isLam = false) (arg : Term) (s : Supply) :
    (Term.app fn arg).headStep? s = (fn.headStep? s).map (Step.inside (.app · arg)) := by
  cases fn with
  | var v => rfl
  | app f a => rfl
  | lam param body => cases h

/-- A term has a step exactly when it is not normal. -/
theorem step?_eq_none_iff (t : Term) (s : Supply) : t.step? s = none ↔ t.IsNormal := by
  fun_induction step? t s with
  | case1 => simp [IsNormal]
  | case2 param body s ih => simpa [IsNormal] using ih
  | case3 => simp [IsNormal, isLam]
  | case4 fn arg s hfn st h ih =>
      rw [h] at ih
      simp only [reduceCtorEq, false_iff] at ih ⊢
      exact fun hn => ih hn.2.1
  | case5 fn arg s hfn h ih₁ ih₂ =>
      have hn := ih₁.1 h
      simp only [Option.map_eq_none_iff, ih₂]
      exact ⟨fun ha => ⟨isLam_eq_false hfn, hn, ha⟩, fun hn => hn.2.2⟩

/-- A head step is the leftmost-outermost step. -/
theorem step?_of_headStep? {t : Term} {s : Supply} {st : Step} (h : t.headStep? s = some st) :
    t.step? s = some st := by
  fun_induction headStep? t s generalizing st with
  | case1 param body arg s => exact h
  | case2 fn arg s hfn ih =>
      obtain ⟨st', hst, rfl⟩ := Option.map_eq_some_iff.1 h
      rw [step?_app (isLam_eq_false hfn), ih hst]
  | case3 => cases h

/-- The head of the term is a variable, so the term never becomes a function. -/
def Neutral : Term → Prop
  | .var _ => True
  | .app fn _ => fn.Neutral
  | .lam _ _ => False

theorem Neutral.isLam {t : Term} (h : t.Neutral) : t.isLam = false := by
  cases t with
  | var v => rfl
  | app fn arg => rfl
  | lam param body => exact h.elim

/-- What has no head step is a function or neutral. -/
theorem neutral_of_headStep? {t : Term} {s : Supply} (hl : t.isLam = false)
    (h : t.headStep? s = none) : t.Neutral := by
  fun_induction headStep? t s with
  | case1 => cases h
  | case2 fn arg s hfn ih => exact ih (isLam_eq_false hfn) (Option.map_eq_none_iff.1 h)
  | case3 t s _ happ =>
      cases t with
      | var v => trivial
      | app fn arg => exact absurd rfl (happ fn arg)
      | lam param body => cases hl

/-- A neutral term stays neutral, whatever is contracted in it. -/
theorem Neutral.step? {t : Term} {s : Supply} {st : Step} (ht : t.Neutral)
    (h : t.step? s = some st) : st.result.Neutral := by
  fun_induction Term.step? t s generalizing st with
  | case1 => cases h
  | case2 => exact ht.elim
  | case3 => exact ht.elim
  | case4 fn arg s hfn st' hst ih =>
      cases h
      exact (ih ht hst : st'.result.Neutral)
  | case5 fn arg s hfn hnone ihf iha =>
      obtain ⟨st', hst, rfl⟩ := Option.map_eq_some_iff.1 h
      exact ht

end Term

namespace Reducer

variable {σ ε : Type}

/-! ## Repeating a step -/

/-- Performs steps until there is none, the watcher stops the run, or `fuel` of
them have been performed. -/
def iterate (next : Term → Supply → Option Step) (watch : Watcher σ ε) (fuel : Nat) (r : Reducer)
    (seen : σ) (t : Term) : Phase σ ε :=
  match next t r.supply, fuel with
  | none, fuel => ⟨.normal t, ⟨r, seen, fuel⟩⟩
  | some _, 0 => ⟨.unfinished t, ⟨r, seen, 0⟩⟩
  | some st, fuel + 1 =>
      match watch seen st.contraction with
      | (seen', some e) => ⟨.stopped e, ⟨⟨st.supply, r.steps + 1⟩, seen', fuel⟩⟩
      | (seen', none) => iterate next watch fuel ⟨st.supply, r.steps + 1⟩ seen' st.result

/-- Steps from where a run stands. -/
def iterateAt (next : Term → Supply → Option Step) (watch : Watcher σ ε) (st : Stage σ)
    (t : Term) : Phase σ ε :=
  iterate next watch st.fuel st.reducer st.seen t

theorem iterate_succ {next : Term → Supply → Option Step} (watch : Watcher σ ε) (fuel : Nat)
    {r : Reducer} (seen : σ) {t : Term} {st : Step} (h : next t r.supply = some st) :
    iterate next watch (fuel + 1) r seen t =
      match watch seen st.contraction with
      | (seen', some e) => ⟨.stopped e, ⟨⟨st.supply, r.steps + 1⟩, seen', fuel⟩⟩
      | (seen', none) => iterate next watch fuel ⟨st.supply, r.steps + 1⟩ seen' st.result := by
  conv => lhs; rw [iterate.eq_def, h]

@[simp] theorem Phase.inside_id (p : Phase σ ε) : p.inside id = p := by
  obtain ⟨ending, stage⟩ := p
  cases ending <;> rfl

/-- Goes on with what a phase ended with, unless it was cut short inside of a larger
term. -/
def Phase.andThen (p : Phase σ ε) (wrap : Term → Term) (next : Stage σ → Term → Phase σ ε) :
    Phase σ ε :=
  match p.ending with
  | .normal u => next p.stage u
  | _ => p.inside wrap

theorem Phase.andThen_of_normal {p : Phase σ ε} {u : Term} (h : p.ending = .normal u)
    (wrap : Term → Term) (next : Stage σ → Term → Phase σ ε) :
    p.andThen wrap next = next p.stage u := by
  rw [Phase.andThen, h]

theorem Phase.andThen_of_not_normal {p : Phase σ ε} (h : ∀ u, p.ending ≠ .normal u)
    (wrap : Term → Term) (next : Stage σ → Term → Phase σ ε) :
    p.andThen wrap next = p.inside wrap := by
  unfold Phase.andThen
  split
  · next u hu => exact absurd hu (h u)
  · rfl

/-- What comes after a phase matters only where the phase has ended. -/
theorem Phase.andThen_congr {p : Phase σ ε} {wrap : Term → Term}
    {next next' : Stage σ → Term → Phase σ ε}
    (h : ∀ u, p.ending = .normal u → next p.stage u = next' p.stage u) :
    p.andThen wrap next = p.andThen wrap next' := by
  unfold Phase.andThen
  split
  · next u hu => exact h u hu
  · rfl

/-- If the steps of a part are steps of the whole, then the whole is reduced by
reducing the part first. -/
theorem iterate_wrap {next next' : Term → Supply → Option Step} (wrap : Term → Term)
    (Inv : Term → Prop)
    (hstep : ∀ t s st, Inv t → next t s = some st →
      next' (wrap t) s = some (st.inside wrap) ∧ Inv st.result)
    (watch : Watcher σ ε) (st : Stage σ) {t : Term} (ht : Inv t) :
    iterateAt next' watch st (wrap t) =
      (iterateAt next watch st t).andThen wrap fun st' u => iterateAt next' watch st' (wrap u) := by
  obtain ⟨r, seen, fuel⟩ := st
  simp only [iterateAt]
  induction fuel generalizing r seen t with
  | zero =>
      cases hn : next t r.supply with
      | none => simp [iterate, hn, Phase.andThen]
      | some s =>
          have hs := (hstep t _ s ht hn).1
          simp [iterate, hn, hs, Phase.andThen, Phase.inside, Ending.inside]
  | succ fuel ih =>
      cases hn : next t r.supply with
      | none => simp [iterate, hn, Phase.andThen]
      | some s =>
          obtain ⟨hs, hinv⟩ := hstep t _ s ht hn
          rw [iterate_succ watch fuel seen hs, iterate_succ watch fuel seen hn]
          simp only [Step.inside]
          rcases hw : watch seen s.contraction with ⟨seen', _ | e⟩
          · exact ih hinv _ _
          · rfl

/-- Once there is no step any more, there is nothing left to do. -/
theorem iterateAt_of_none {next : Term → Supply → Option Step} (watch : Watcher σ ε)
    {st : Stage σ} {t : Term} (h : next t st.reducer.supply = none) :
    iterateAt next watch st t = ⟨.normal t, st⟩ := by
  obtain ⟨r, seen, fuel⟩ := st
  unfold iterateAt iterate
  rw [h]

/-- Steps that were not cut short end where there is no step. -/
theorem next_of_iterateAt {next : Term → Supply → Option Step} {watch : Watcher σ ε}
    {st : Stage σ} {t u : Term} (h : (iterateAt next watch st t).ending = .normal u) :
    next u (iterateAt next watch st t).stage.reducer.supply = none := by
  obtain ⟨r, seen, fuel⟩ := st
  simp only [iterateAt] at h ⊢
  fun_induction iterate next watch fuel r seen t with
  | case1 r seen t fuel hn =>
      cases h
      exact hn
  | case2 => cases h
  | case3 => cases h
  | case4 r seen t st fuel hn seen' hw ih => exact ih h

/-- What every step preserves holds where the steps end. -/
theorem inv_of_iterateAt {next : Term → Supply → Option Step} {Inv : Term → Prop}
    (hstep : ∀ t s st, Inv t → next t s = some st → Inv st.result) {watch : Watcher σ ε}
    {st : Stage σ} {t u : Term} (ht : Inv t)
    (h : (iterateAt next watch st t).ending = .normal u) : Inv u := by
  obtain ⟨r, seen, fuel⟩ := st
  simp only [iterateAt] at h
  fun_induction iterate next watch fuel r seen t with
  | case1 =>
      cases h
      exact ht
  | case2 => cases h
  | case3 => cases h
  | case4 r seen t st fuel hn seen' hw ih => exact ih (hstep _ _ _ ht hn) h

/-- If nothing is left to do in the whole once the part is done, then reducing the
part is reducing the whole. -/
theorem andThen_eq_inside {next : Term → Supply → Option Step} {watch : Watcher σ ε}
    {p : Phase σ ε} {wrap : Term → Term}
    (h : ∀ u, p.ending = .normal u → next (wrap u) p.stage.reducer.supply = none) :
    (p.andThen wrap fun st' u => iterateAt next watch st' (wrap u)) = p.inside wrap := by
  rcases hp : p.ending with u | e | u
  · simp only [Phase.andThen, hp]
    rw [iterateAt_of_none watch (h u hp)]
    simp [Phase.inside, Ending.inside, hp]
  · simp [Phase.andThen, hp]
  · simp [Phase.andThen, hp]

/-! ## The phases of a run -/

/-- The first step of an application of a function is its contraction. -/
theorem iterateAt_redex {next : Term → Supply → Option Step} (watch : Watcher σ ε) (st : Stage σ)
    {param : Var} {body arg : Term}
    (h : next (.app (.lam param body) arg) st.reducer.supply =
      some (Step.contract param body arg st.reducer.supply)) :
    iterateAt next watch st (.app (.lam param body) arg) =
      (apply watch st param body arg).andThen id (iterateAt next watch) := by
  obtain ⟨r, seen, fuel⟩ := st
  cases fuel with
  | zero => simp [iterateAt, iterate, h, apply, Phase.andThen, Phase.inside, Ending.inside]
  | succ fuel =>
      rw [iterateAt, iterate_succ watch fuel seen h]
      simp only [apply, Step.contract]
      rcases watch seen _ with ⟨seen', _ | e⟩ <;> rfl

/-- If the function part has become a function, the first phase contracts, and goes on
from there. -/
theorem head_app_of_lam (watch : Watcher σ ε) (st : Stage σ) {fn : Term} (arg : Term)
    {param : Var} {body : Term} (hf : (head watch st fn).1.ending = .normal (.lam param body)) :
    (head watch st (.app fn arg)).1 =
      (apply watch (head watch st fn).1.stage param body arg).andThen id
        fun st' u => (head watch st' u).1 := by
  rw [head]
  split
  · next param' body' hf' =>
      obtain ⟨rfl, rfl⟩ : param = param' ∧ body = body' := by
        rw [hf] at hf'
        cases hf'
        exact ⟨rfl, rfl⟩
      simp only
      split
      · next u ha => rw [Phase.andThen_of_normal ha]
      · next e ha => rw [Phase.andThen_of_not_normal (by simp [ha]), Phase.inside_id]
      · next u ha => rw [Phase.andThen_of_not_normal (by simp [ha]), Phase.inside_id]
  · next hnot => exact absurd hf (hnot param body)

/-- Otherwise the first phase ends with the function part. -/
theorem head_app_of_not_lam (watch : Watcher σ ε) (st : Stage σ) {fn : Term} (arg : Term)
    (hf : ∀ param body, (head watch st fn).1.ending ≠ .normal (.lam param body)) :
    (head watch st (.app fn arg)).1 = (head watch st fn).1.inside (.app · arg) := by
  rw [head]
  split
  · next param body hl => exact absurd hl (hf param body)
  · rfl

theorem head_of_not_app (watch : Watcher σ ε) (st : Stage σ) {t : Term}
    (h : ∀ fn arg, t ≠ .app fn arg) : (head watch st t).1 = ⟨.normal t, st⟩ := by
  rw [head]
  exact h

/-- A head step in function position is a head step of the application. -/
theorem headStep?_inside (arg t : Term) (s : Supply) (st : Step) (h : t.headStep? s = some st) :
    (Term.app t arg).headStep? s = some (st.inside (.app · arg)) := by
  have hl : t.isLam = false := by
    cases t with
    | var v => rfl
    | app fn arg => rfl
    | lam param body => cases h
  rw [Term.headStep?_app hl, h]
  rfl

/-- The first phase performs the head steps. -/
theorem head_eq_iterateAt (watch : Watcher σ ε) (st : Stage σ) (t : Term) :
    (head watch st t).1 = iterateAt Term.headStep? watch st t := by
  cases t with
  | var v => rw [iterateAt_of_none watch rfl, head_of_not_app watch st (by simp)]
  | lam param body => rw [iterateAt_of_none watch rfl, head_of_not_app watch st (by simp)]
  | app fn arg =>
      have hf := head_eq_iterateAt watch st fn
      rw [iterate_wrap (.app · arg) (fun _ => True)
        (fun t s st _ h => ⟨headStep?_inside arg t s st h, trivial⟩) watch st trivial, ← hf]
      rcases hp : (head watch st fn).1.ending with u | e | u
      · rw [Phase.andThen_of_normal hp]
        by_cases hu : u.isLam
        · -- the function part has become a function: contract, and go on from there
          obtain ⟨param, body, rfl⟩ : ∃ param body, u = .lam param body := by
            cases u <;> simp_all [Term.isLam]
          rw [head_app_of_lam watch st arg hp, iterateAt_redex watch _ rfl]
          refine Phase.andThen_congr ?_
          intro v ha
          have := apply_fuel_lt ha
          have := (head watch st fn).2.fuel_le
          exact head_eq_iterateAt watch _ v
        · -- the head is stuck, so there is no head step of the application either
          have hl : u.isLam = false := by simpa using hu
          have hn := next_of_iterateAt (hf ▸ hp)
          rw [← hf] at hn
          rw [iterateAt_of_none watch (by rw [Term.headStep?_app hl, hn]; rfl),
            head_app_of_not_lam watch st arg (by
              intro param body hlam
              rw [hp] at hlam
              cases hlam
              cases hl)]
          simp [Phase.inside, Ending.inside, hp]
      · rw [Phase.andThen_of_not_normal (by simp [hp]),
          head_app_of_not_lam watch st arg (by simp [hp])]
      · rw [Phase.andThen_of_not_normal (by simp [hp]),
          head_app_of_not_lam watch st arg (by simp [hp])]
termination_by (st.fuel, t)

/-- The leftmost-outermost steps begin with the head steps. -/
theorem iterateAt_step?_eq (watch : Watcher σ ε) (st : Stage σ) (t : Term) :
    iterateAt Term.step? watch st t =
      (head watch st t).1.andThen id (iterateAt Term.step? watch) := by
  rw [head_eq_iterateAt]
  exact iterate_wrap id (fun _ => True)
    (fun t s st _ h => ⟨Term.step?_of_headStep? h, trivial⟩) watch st trivial

/-- In the body of a function the steps are those of the function. -/
theorem iterateAt_lam (watch : Watcher σ ε) (st : Stage σ) (param : Var) (body : Term) :
    iterateAt Term.step? watch st (.lam param body) =
      (iterateAt Term.step? watch st body).inside (.lam param) := by
  rw [iterate_wrap (.lam param) (fun _ => True)
    (fun t s st _ (h : t.step? s = some st) => ⟨by simp [Term.step?, h], trivial⟩)
    watch st trivial]
  refine andThen_eq_inside ?_
  intro u hu
  simp [Term.step?, next_of_iterateAt hu]

/-- In an application whose head is stuck, the steps of the function part come
before those of the argument. -/
theorem iterateAt_app (watch : Watcher σ ε) (st : Stage σ) {fn arg : Term}
    (h : (Term.app fn arg).Neutral) :
    iterateAt Term.step? watch st (.app fn arg) =
      (iterateAt Term.step? watch st fn).andThen (.app · arg)
        fun st' fn' => (iterateAt Term.step? watch st' arg).inside (.app fn') := by
  have hfn : fn.Neutral := h
  rw [iterate_wrap (.app · arg) Term.Neutral
    (fun t s st ht h => ⟨by rw [Term.step?_app ht.isLam, h], ht.step? h⟩) watch st hfn]
  refine Phase.andThen_congr ?_
  intro fn' hf
  have hn := next_of_iterateAt hf
  have hl : fn'.isLam = false :=
    Term.Neutral.isLam (inv_of_iterateAt (fun t s st ht h => ht.step? h) hfn hf)
  have hnone : ∀ s, fn'.step? s = none := by
    intro s
    rw [Term.step?_eq_none_iff] at hn ⊢
    exact hn
  rw [iterate_wrap (.app fn') (fun _ => True) (fun t s st _ (h : t.step? s = some st) =>
    ⟨by rw [Term.step?_app hl, hnone, h]; rfl, trivial⟩) watch _ trivial]
  refine andThen_eq_inside ?_
  intro u hu
  rw [Term.step?_app hl, hnone, next_of_iterateAt hu]
  rfl

/-- The two phases together perform the leftmost-outermost steps. -/
theorem normalize_eq_iterateAt (watch : Watcher σ ε) (st : Stage σ) (t : Term) :
    (normalize watch st t).1 = iterateAt Term.step? watch st t := by
  rw [iterateAt_step?_eq, normalize]
  split
  · next param body hp =>
      rw [Phase.andThen_of_normal hp, iterateAt_lam,
        ← normalize_eq_iterateAt watch (head watch st t).1.stage body]
  · next fn arg hp =>
      have hn := next_of_iterateAt (head_eq_iterateAt watch st t ▸ hp)
      have hfn : (Term.app fn arg).Neutral := Term.neutral_of_headStep? rfl hn
      rw [Phase.andThen_of_normal hp, iterateAt_app watch _ hfn,
        ← normalize_eq_iterateAt watch (head watch st t).1.stage fn]
      simp only
      split
      · next fn' hf =>
          rw [Phase.andThen_of_normal hf, ← normalize_eq_iterateAt watch
            (normalize watch (head watch st t).1.stage fn).1.stage arg]
      · next hf => rw [Phase.andThen_of_not_normal hf]
  · next hlam happ =>
      symm
      refine (andThen_eq_inside fun u hu => ?_).trans (Phase.inside_id _)
      cases u with
      | var v => rfl
      | lam param body => exact absurd hu (hlam param body)
      | app fn arg => exact absurd hu (happ fn arg)
termination_by (st.fuel, t)
decreasing_by
  · exact (head watch st t).2.lex ‹_› (Nat.le_refl _) (Term.sizeOf_body_lt _ _)
  · exact (head watch st t).2.lex ‹_› (Nat.le_refl _) (Term.sizeOf_fn_lt _ _)
  · exact (head watch st t).2.lex ‹_› (normalize watch _ _).2 (Term.sizeOf_arg_lt _ _)

/-- **A run performs the leftmost-outermost steps** one after the other, until there
is none, the watcher stops it, or it has performed as many as it may. -/
theorem run_eq_iterate (watch : Watcher σ ε) (fuel : Nat) (r : Reducer) (seen : σ) (t : Term) :
    r.run watch fuel seen t =
      let p := iterate Term.step? watch fuel ⟨r.supply.reserve t.ids, r.steps⟩ seen t
      ⟨p.ending, p.stage.reducer, p.stage.seen⟩ := by
  rw [run, normalize_eq_iterateAt]
  rfl

end Reducer

end UntypedLambda
