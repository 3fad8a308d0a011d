import UntypedLambda.Proofs.Stack
import UntypedLambda.Session

/-!
# What a session holds

Whatever lines a session is given, and however many of them fail, its names stand for
values and so do its results.  This is what lets definitions be filled in as they are: see
`Environment.namelessIn_fillIn`.

* `Session.add_cases`, `Session.forall_results_add` — what a line can do to a session.
* `Session.Sound.add` — every line keeps what holds of a session.
* `Session.Reachable` — the states that a session can get into.
* `Session.reachable_holds_values` — all of them hold values only.
-/

namespace UntypedLambda

namespace Session

variable {s : Session}

/-- A line that fails leaves the definitions and results as they are; the outcome of any other
line is taken over. -/
theorem add_cases (s : Session) (fuel : Nat) (source : String) (number : Int)
    (stack : Stack := .unlimited) :
    ((∃ i, (s.add fuel source number stack).result = .error i) ∧
        (s.add fuel source number stack).state.environment = s.environment ∧
        (s.add fuel source number stack).state.results = s.results) ∨
      ∃ o, (s.add fuel source number stack).result = .ok o ∧
        (evaluate s.watch fuel s.environment s.strict ⟨0, ""⟩ source).2 = .ok o ∧
        (s.add fuel source number stack).state.environment = o.environment ∧
        (s.add fuel source number stack).state.results =
          if o.value?.isSome then s.results ++ [o] else s.results := by
  unfold add
  simp only
  split
  · next i hi => exact .inl ⟨⟨i, rfl⟩, rfl, rfl⟩
  · next o ho =>
      split
      · next err herr => exact .inl ⟨⟨.error err, rfl⟩, rfl, rfl⟩
      · next value hvalue =>
          exact .inr ⟨o, rfl, evaluate_of_evaluateWithin ho hvalue, rfl, rfl⟩

/-- All names stand for values, and all results are values. -/
structure Sound (s : Session) : Prop where
  /-- The names stand for values. -/
  environment : s.environment.Sound
  /-- The results are values. -/
  results : ∀ o ∈ s.results, ∃ v, o.value? = some v ∧ v.IsValue

theorem sound_new (reporter : Reporter) (strict : Bool) (maxSteps : Bound) (trace : Bool)
    (path : String) : (new reporter strict maxSteps trace path).Sound where
  environment := Environment.sound_empty
  results o ho := by cases ho

/-- If the results are terms of some kind, and the value of a line is too, then the results still
are when the line has been added. -/
theorem forall_results_add {P : Term → Prop} {fuel : Nat} {source : String}
    (h : ∀ o ∈ s.results, ∃ v, o.value? = some v ∧ P v)
    (hvalue : ∀ o, (evaluate s.watch fuel s.environment s.strict ⟨0, ""⟩ source).2 = .ok o →
      ∀ v, o.value? = some v → P v) (number : Int) (stack : Stack := .unlimited) :
    ∀ o ∈ (s.add fuel source number stack).state.results, ∃ v, o.value? = some v ∧ P v := by
  rcases s.add_cases fuel source number stack with ⟨-, -, hres⟩ | ⟨o, -, ho, -, hres⟩
  · rw [hres]
    exact h
  · rw [hres]
    intro o' ho'
    split at ho'
    · next hsome =>
        rcases List.mem_append.1 ho' with ho' | ho'
        · exact h o' ho'
        · obtain rfl := List.mem_singleton.1 ho'
          obtain ⟨v, hv⟩ := Option.isSome_iff_exists.1 hsome
          exact ⟨v, hv, hvalue o' ho v hv⟩
    · exact h o' ho'

/-- A line keeps what holds of a session, whether it fails or not. -/
theorem Sound.add (h : s.Sound) (fuel : Nat) (source : String) (number : Int)
    (stack : Stack := .unlimited) : (s.add fuel source number stack).state.Sound where
  environment := by
    rcases s.add_cases fuel source number stack with ⟨-, henv, -⟩ | ⟨o, -, ho, henv, -⟩
    · rw [henv]
      exact h.environment
    · rw [henv]
      exact (h.environment.evaluate ho).1
  results := forall_results_add h.results (fun o ho => (h.environment.evaluate ho).2) number stack

/-- The states that a session in state `s₀` can get into. -/
inductive Reachable (s₀ : Session) : Session → Prop
  /-- Nothing has happened yet. -/
  | refl : Reachable s₀ s₀
  /-- A line is added within a stack, which may fail. -/
  | add {s : Session} (fuel : Nat) (source : String) (number : Int) (h : Reachable s₀ s)
      (stack : Stack := .unlimited) : Reachable s₀ (s.add fuel source number stack).state
  /-- The latest result is taken out. -/
  | pop {s s' : Session} {o : Outcome} :
      Reachable s₀ s → s.pop? = some (o, s') → Reachable s₀ s'

theorem Sound.pop {s' : Session} {o : Outcome} (h : s.Sound) (hpop : s.pop? = some (o, s')) :
    s'.Sound := by
  obtain ⟨o', -, heq⟩ := Option.map_eq_some_iff.1 hpop
  cases heq
  exact ⟨h.environment, fun o ho => h.results o (List.dropLast_subset _ ho)⟩

theorem Reachable.sound {s₀ : Session} (h : Reachable s₀ s) (h₀ : s₀.Sound) : s.Sound := by
  induction h with
  | refl => exact h₀
  | add fuel source number _ stack ih => exact ih.add fuel source number stack
  | pop _ hpop ih => exact ih.pop hpop

/-- **A session holds values only.**  Whatever its settings, and whatever lines have been added
to it, within any stacks, with or without success: every name that is defined stands for a value
that is recorded under this name, and every result is a value.  A value is a hygienic term in which every
variable with a number stands in the function with that number, no redex is left, and all names
are single characters. -/
theorem reachable_holds_values (reporter : Reporter) (strict : Bool) (maxSteps : Bound)
    (trace : Bool) (path : String) (s : Session)
    (h : Reachable (new reporter strict maxSteps trace path) s) :
    (∀ x d, s.environment.get? x = some d → d.name = x ∧ IsVariableName x ∧ d.term.IsValue) ∧
      ∀ o ∈ s.results, ∃ v, o.value? = some v ∧ v.IsValue := by
  have hsound := h.sound (sound_new reporter strict maxSteps trace path)
  refine ⟨?_, hsound.results⟩
  intro x d hx
  have hdefines := hsound.environment x d hx
  exact ⟨hdefines.name, hdefines.plain, hdefines.value⟩

/-- The theorem at a session that has been given the definition `w := λx.xy` and then a line
that fails. -/
theorem reachable_holds_values_after_failure :
    let s₀ := new default false (.number 5) false inputPath
    let s₁ := (s₀.add 0 "w := λx.xy" 1).state
    let s₂ := (s₁.add 0 "w)" 2).state
    Reachable s₀ s₂ ∧ (∃ i, (s₁.add 0 "w)" 2).result = .error i) ∧
      (∃ d, s₂.environment.get? "w" = some d ∧ d.name = "w" ∧ d.term.IsValue) ∧
      ∃ o v, s₂.results = [o] ∧ o.value? = some v ∧ v.IsValue := by
  intro s₀ s₁ s₂
  let value : Term := .lam (.bound 1 "x") (.app (.var (.bound 1 "x")) (.var (.free "y")))
  have hparse : Line.parse "w := λx.xy" =
      .ok (.definition "w" (.lam "x" (.app (.var "x") (.var "y")))) := by rfl
  have hresolve : Environment.resolve s₀.environment s₀.strict
      (.lam "x" (.app (.var "x") (.var "y"))) = .ok value := by rfl
  have hnormal : value.IsNormal := ⟨rfl, trivial, trivial⟩
  have heval := evaluate_eq_run s₀.watch 0 ⟨0, ""⟩ hparse rfl hresolve
  rw [Reducer.run_of_isNormal _ _ _ _ hnormal] at heval
  have hs₁ : s₁.environment.get? "w" = some ⟨"w", value⟩ ∧ ∃ o, s₁.results = [o] := by
    simp only [s₁, add, evaluateWithin_unlimited, heval]
    exact ⟨rfl, _, rfl⟩
  have hfails : ∃ i, (s₁.add 0 "w)" 2).result = .error i := ⟨_, rfl⟩
  have hs₂ : s₂.environment = s₁.environment ∧ s₂.results = s₁.results := by
    rcases s₁.add_cases 0 "w)" 2 with ⟨-, hsame⟩ | ⟨o, ho, -⟩
    · exact hsame
    · obtain ⟨i, hi⟩ := hfails
      rw [hi] at ho
      cases ho
  have hreachable : Reachable s₀ s₂ := .add 0 "w)" 2 (.add 0 "w := λx.xy" 1 .refl)
  obtain ⟨henv, hres⟩ :=
    reachable_holds_values default false (.number 5) false inputPath s₂ hreachable
  obtain ⟨hget, o, ho⟩ := hs₁
  rw [← hs₂.1] at hget
  rw [← hs₂.2] at ho
  obtain ⟨v, hv, hvalue⟩ := hres o (by simp [ho])
  exact ⟨hreachable, hfails, ⟨_, hget, rfl, (henv "w" _ hget).2.2⟩, o, v, ho, hv, hvalue⟩

end Session

end UntypedLambda
