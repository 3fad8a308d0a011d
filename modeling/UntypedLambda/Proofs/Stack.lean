import UntypedLambda.Proofs.Evaluation.Task

/-!
# Evaluating within a stack

A limit on the calls that may be open at a time makes no difference to a line as long as there
is room for all of them, and otherwise the line is refused.  How much room a line needs is a
matter of the evaluation without a limit, which takes one turn for every contraction, and one
more to find that there is none left.

* `Term.reduceCalls` — the calls that the first turns of a reduction need room for.
* `Reducer.iterateWithin_of_le`, `Reducer.iterateWithin_of_lt` — a run that has the room is the
  one without a limit, and any other stops on the way.
* `evaluateCalls` — the calls that a line needs room for.
* `evaluateWithin_of_holds`, `evaluateWithin_of_overflows` — the same for lines.
* `evaluateWithin_mono` — how many contractions are allowed makes no difference to a line that
  is not cut short.
* `evaluateWithin_map`, `evaluateWithin_strip_of_ok` — neither does what else the watcher
  remembers, nor do the blanks around a line.
* `Outcome.printCalls` — the calls that printing an evaluated line needs room for.
-/

namespace UntypedLambda

namespace Term

/-- The calls that are open at the deepest point of the first `k` turns of reducing a term, or of
all of them if there are fewer. -/
def reduceCalls (shown : Contraction → Nat) : Nat → Term → Supply → Nat
  | 0, _, _ => 0
  | k + 1, t, s =>
      max (t.stepCalls shown s)
        (match t.step? s with
        | none => 0
        | some st => reduceCalls shown k st.result st.supply)

theorem reduceCalls_succ {shown : Contraction → Nat} {t : Term} {s : Supply} {st : Step}
    (h : t.step? s = some st) (k : Nat) :
    t.reduceCalls shown (k + 1) s =
      max (t.stepCalls shown s) (st.result.reduceCalls shown k st.supply) := by
  rw [reduceCalls, h]

/-- If showing contractions takes more calls, then so does a reduction. -/
theorem reduceCalls_mono {shown shown' : Contraction → Nat} (h : ∀ c, shown c ≤ shown' c)
    (k : Nat) (t : Term) (s : Supply) : t.reduceCalls shown k s ≤ t.reduceCalls shown' k s := by
  have hstep : ∀ (t : Term) (s : Supply), t.stepCalls shown s ≤ t.stepCalls shown' s := by
    intro t s
    unfold stepCalls
    cases t.step? s with
    | none => exact Nat.le_refl _
    | some st => exact max_le_max (Nat.le_refl _) (Nat.add_le_add_left (h st.contraction) _)
  induction k generalizing t s with
  | zero => exact Nat.le_refl _
  | succ k ih =>
      refine max_le_max (hstep t s) ?_
      cases t.step? s with
      | none => exact Nat.le_refl _
      | some st => exact ih st.result st.supply

end Term

/-! ## Runs -/

namespace Run

variable {σ ε : Type}

/-- The number of turns that a run took.  In the last turn of a run that was not stopped, nothing
was contracted. -/
def turns (run : Run σ ε) : Nat :=
  match run.ending with
  | .stopped _ => run.reducer.steps
  | _ => run.reducer.steps + 1

theorem turns_congr {τ : Type} {run : Run σ ε} {run' : Run τ ε} (hend : run.ending = run'.ending)
    (hsteps : run.reducer.steps = run'.reducer.steps) : run.turns = run'.turns := by
  unfold turns
  rw [hend, hsteps]

end Run

namespace Reducer

variable {σ : Type} {watch : Watcher σ Interruption} {room : Nat} {shown : Contraction → Nat}
  {fuel : Nat} {r : Reducer} {seen : σ} {t : Term} {st : Step}

/-! ### One turn -/

theorem iterateWithin_of_full (h : room < t.stepCalls shown r.supply) :
    r.iterateWithin room shown watch fuel seen t = ⟨.stopped .overflow, r, seen⟩ := by
  rw [iterateWithin.eq_def, if_pos h]

theorem iterateWithin_of_none (h : t.stepCalls shown r.supply ≤ room)
    (hn : t.step? r.supply = none) :
    r.iterateWithin room shown watch fuel seen t = ⟨.normal t, r, seen⟩ := by
  rw [iterateWithin.eq_def, if_neg (Nat.not_lt.2 h), hn]

theorem iterateWithin_zero (h : t.stepCalls shown r.supply ≤ room)
    (hn : t.step? r.supply = some st) :
    r.iterateWithin room shown watch 0 seen t = ⟨.unfinished t, r, seen⟩ := by
  rw [iterateWithin.eq_def, if_neg (Nat.not_lt.2 h), hn]

theorem iterateWithin_succ (h : t.stepCalls shown r.supply ≤ room)
    (hn : t.step? r.supply = some st) :
    r.iterateWithin room shown watch (fuel + 1) seen t =
      match watch seen st.contraction with
      | (seen', some e) => ⟨.stopped e, ⟨st.supply, r.steps + 1⟩, seen'⟩
      | (seen', none) =>
          iterateWithin room shown watch fuel ⟨st.supply, r.steps + 1⟩ seen' st.result := by
  rw [iterateWithin.eq_def, if_neg (Nat.not_lt.2 h)]
  cases hw : watch seen st.contraction with
  | mk seen' stop? => cases stop? <;> simp only [hn, hw]

/-- If nothing may be contracted, nothing is shown. -/
theorem iterate_zero (watch : Watcher σ Interruption) (r : Reducer) (seen : σ) (t : Term) :
    (iterate Term.step? watch 0 r seen t).toRun.reducer = r ∧
      (iterate Term.step? watch 0 r seen t).toRun.seen = seen := by
  rw [iterate.eq_def]
  cases t.step? r.supply <;> exact ⟨rfl, rfl⟩

/-! ### All turns -/

/-- Every run takes a turn. -/
theorem lt_turns_iterate (watch : Watcher σ Interruption) (fuel : Nat) (r : Reducer) (seen : σ)
    (t : Term) : r.steps < (iterate Term.step? watch fuel r seen t).toRun.turns := by
  fun_induction iterate Term.step? watch fuel r seen t with
  | case1 r seen t fuel hn => exact Nat.lt_succ_self r.steps
  | case2 r seen t st hn => exact Nat.lt_succ_self r.steps
  | case3 r seen t st fuel hn seen' e hw => exact Nat.lt_succ_self r.steps
  | case4 r seen t st fuel hn seen' hw ih => exact Nat.lt_of_succ_lt ih

/-- A run that has room for all of its turns is the run without a limit. -/
theorem iterateWithin_of_le {k : Nat}
    (hk : (iterate Term.step? watch fuel r seen t).toRun.turns = r.steps + k)
    (h : t.reduceCalls shown k r.supply ≤ room) :
    r.iterateWithin room shown watch fuel seen t =
      (iterate Term.step? watch fuel r seen t).toRun := by
  fun_induction iterate Term.step? watch fuel r seen t generalizing k with
  | case1 r seen t fuel hn =>
      obtain rfl : k = 1 := (Nat.add_left_cancel hk).symm
      exact iterateWithin_of_none (le_of_max_le_left h) hn
  | case2 r seen t st hn =>
      obtain rfl : k = 1 := (Nat.add_left_cancel hk).symm
      exact iterateWithin_zero (le_of_max_le_left h) hn
  | case3 r seen t st fuel hn seen' e hw =>
      obtain rfl : k = 1 := (Nat.add_left_cancel hk).symm
      rw [iterateWithin_succ (le_of_max_le_left h) hn, hw]
      rfl
  | case4 r seen t st fuel hn seen' hw ih =>
      have hlt : r.steps + 1 < _ := lt_turns_iterate watch fuel ⟨st.supply, _⟩ seen' st.result
      obtain ⟨k, rfl⟩ : ∃ j, k = j + 1 := ⟨k - 1, by omega⟩
      have hnext : r.steps + (k + 1) = r.steps + 1 + k := by omega
      rw [Term.reduceCalls_succ hn] at h
      rw [iterateWithin_succ (le_of_max_le_left h) hn, hw]
      exact ih (hk.trans hnext) (le_of_max_le_right h)

/-- A run that does not have room for all of its turns stops, and until then it is the run without
a limit. -/
theorem iterateWithin_of_lt {k : Nat}
    (hk : (iterate Term.step? watch fuel r seen t).toRun.turns = r.steps + k)
    (h : room < t.reduceCalls shown k r.supply) :
    ∃ j ≤ fuel, r.iterateWithin room shown watch fuel seen t =
      ⟨.stopped .overflow, (iterate Term.step? watch j r seen t).toRun.reducer,
        (iterate Term.step? watch j r seen t).toRun.seen⟩ := by
  -- if there is no room for the first turn, the run stops before anything is contracted
  have hfull : ∀ (fuel : Nat) (r : Reducer) (seen : σ) (t : Term),
      room < t.stepCalls shown r.supply →
      ∃ j ≤ fuel, r.iterateWithin room shown watch fuel seen t =
        ⟨.stopped .overflow, (iterate Term.step? watch j r seen t).toRun.reducer,
          (iterate Term.step? watch j r seen t).toRun.seen⟩ := by
    intro fuel r seen t hlt
    obtain ⟨hr, hseen⟩ := iterate_zero watch r seen t
    refine ⟨0, Nat.zero_le fuel, ?_⟩
    rw [iterateWithin_of_full hlt, hr, hseen]
  fun_induction iterate Term.step? watch fuel r seen t generalizing k with
  | case1 r seen t fuel hn =>
      obtain rfl : k = 1 := (Nat.add_left_cancel hk).symm
      refine hfull fuel r seen t ?_
      simpa [Term.reduceCalls, hn] using h
  | case2 r seen t st hn =>
      obtain rfl : k = 1 := (Nat.add_left_cancel hk).symm
      refine hfull 0 r seen t ?_
      simpa [Term.reduceCalls, hn] using h
  | case3 r seen t st fuel hn seen' e hw =>
      obtain rfl : k = 1 := (Nat.add_left_cancel hk).symm
      refine hfull (fuel + 1) r seen t ?_
      simpa [Term.reduceCalls, hn] using h
  | case4 r seen t st fuel hn seen' hw ih =>
      have hlt : r.steps + 1 < _ := lt_turns_iterate watch fuel ⟨st.supply, _⟩ seen' st.result
      obtain ⟨k, rfl⟩ : ∃ j, k = j + 1 := ⟨k - 1, by omega⟩
      have hnext : r.steps + (k + 1) = r.steps + 1 + k := by omega
      rw [Term.reduceCalls_succ hn] at h
      rcases Nat.lt_or_ge room (t.stepCalls shown r.supply) with hstep | hstep
      · exact hfull (fuel + 1) r seen t hstep
      · obtain ⟨j, hj, heq⟩ := ih (hk.trans hnext) ((lt_max_iff.1 h).resolve_left (by omega))
        refine ⟨j + 1, Nat.succ_le_succ hj, ?_⟩
        rw [iterateWithin_succ hstep hn, iterate_succ watch j seen hn, hw]
        exact heq

/-- A run that ended with a normal form has taken all turns that there are. -/
theorem reduceCalls_of_normal {v : Term} {k k' : Nat}
    (h : (iterate Term.step? watch fuel r seen t).ending = .normal v)
    (hk : (iterate Term.step? watch fuel r seen t).toRun.turns = r.steps + k) (hle : k ≤ k') :
    t.reduceCalls shown k' r.supply = t.reduceCalls shown k r.supply := by
  fun_induction iterate Term.step? watch fuel r seen t generalizing k k' with
  | case1 r seen t fuel hn =>
      obtain rfl : k = 1 := (Nat.add_left_cancel hk).symm
      obtain ⟨k', rfl⟩ := Nat.exists_eq_add_of_le' hle
      simp only [Term.reduceCalls, hn]
  | case2 => cases h
  | case3 => cases h
  | case4 r seen t st fuel hn seen' hw ih =>
      have hlt : r.steps + 1 < _ := lt_turns_iterate watch fuel ⟨st.supply, _⟩ seen' st.result
      obtain ⟨k, rfl⟩ : ∃ j, k = j + 1 := ⟨k - 1, by omega⟩
      obtain ⟨k', rfl⟩ : ∃ j, k' = j + 1 := ⟨k' - 1, by omega⟩
      have hnext : r.steps + (k + 1) = r.steps + 1 + k := by omega
      rw [Term.reduceCalls_succ hn, Term.reduceCalls_succ hn,
        ih h (hk.trans hnext) (Nat.le_of_succ_le_succ hle)]

/-- A run that was not cut short is the same if more contractions are allowed. -/
theorem iterateWithin_mono {fuel' : Nat} (hle : fuel ≤ fuel')
    (h : ∀ u, (r.iterateWithin room shown watch fuel seen t).ending ≠ .unfinished u) :
    r.iterateWithin room shown watch fuel' seen t =
      r.iterateWithin room shown watch fuel seen t := by
  induction fuel generalizing fuel' r seen t with
  | zero =>
      rcases Nat.lt_or_ge room (t.stepCalls shown r.supply) with hstep | hstep
      · rw [iterateWithin_of_full hstep, iterateWithin_of_full hstep]
      · cases hn : t.step? r.supply with
        | none => rw [iterateWithin_of_none hstep hn, iterateWithin_of_none hstep hn]
        | some st =>
            rw [iterateWithin_zero hstep hn] at h
            exact absurd rfl (h t)
  | succ fuel ih =>
      obtain ⟨fuel', rfl⟩ : ∃ j, fuel' = j + 1 := ⟨fuel' - 1, by omega⟩
      rcases Nat.lt_or_ge room (t.stepCalls shown r.supply) with hstep | hstep
      · rw [iterateWithin_of_full hstep, iterateWithin_of_full hstep]
      · cases hn : t.step? r.supply with
        | none => rw [iterateWithin_of_none hstep hn, iterateWithin_of_none hstep hn]
        | some st =>
            rw [iterateWithin_succ hstep hn] at h ⊢
            rw [iterateWithin_succ hstep hn]
            cases hw : watch seen st.contraction with
            | mk seen' stop? =>
                cases stop? with
                | some e => rfl
                | none =>
                    simp only [hw] at h
                    exact ih (Nat.le_of_succ_le_succ hle) h

/-- The run of a fresh reducer, as steps from the term whose numbers were reserved. -/
theorem fresh_run_eq (watch : Watcher σ Interruption) (fuel : Nat) (seen : σ) (t : Term) :
    fresh.run watch fuel seen t =
      (iterate Term.step? watch fuel ⟨Supply.empty.reserve t.ids, 0⟩ seen t).toRun :=
  run_eq_iterate watch fuel fresh seen t

end Reducer

/-! ## Room for calls -/

namespace Stack

variable {stack : Stack} {calls calls' : Nat}

theorem holds_eq_true_iff :
    stack.holds calls = true ↔ ∀ room, stack.room? = some room → calls ≤ room := by
  unfold holds
  cases stack.room? <;> simp

theorem holds_eq_false_iff :
    stack.holds calls = false ↔ ∃ room, stack.room? = some room ∧ room < calls := by
  unfold holds
  cases stack.room? <;> simp

/-- A stack that holds some calls also holds fewer. -/
theorem holds_of_le (hle : calls ≤ calls') (h : stack.holds calls' = true) :
    stack.holds calls = true := by
  rw [holds_eq_true_iff] at h ⊢
  exact fun room hroom => hle.trans (h room hroom)

end Stack

/-! ## Reading -/

namespace Expr

/-- Where the machine is after a token, if it goes on. -/
def Move.next? : Move → Option (Place × List Frame)
  | .go place frames => some (place, frames)
  | .stop _ _ => none

/-- How the machine goes on depends on the symbol of a token only. -/
theorem next?_move {t t' : Token} (h : t.symbol = t'.symbol) (r r' : Reading) (place : Place)
    (frames : List Frame) : (move r t place frames).next? = (move r' t' place frames).next? := by
  obtain ⟨symbol, span⟩ := t
  obtain ⟨_, span'⟩ := t'
  obtain rfl := h
  rcases place with _ | head | ⟨before, _ | ⟨p, ps⟩⟩
  · cases symbol <;> rfl
  · cases symbol with
    | closeParen =>
        -- the one case that depends on what is open
        simp only [move]
        cases unwind head frames <;> rfl
    | lambda | dot | openParen | assign | «variable» c => rfl
  · cases symbol <;> rfl
  · cases symbol <;> rfl

/-- Reading a token adds to what is open already. -/
theorem readCalls_cons (r : Reading) (t : Token) (rest : List Token) (place : Place)
    (frames : List Frame) :
    readCalls r (t :: rest) place frames =
      max (place.calls + Frame.total frames)
        (((move r t place frames).next?.map fun p => readCalls r rest p.1 p.2).getD 0) := by
  rw [readCalls]
  cases move r t place frames with
  | go place' frames' => rfl
  | stop result taken => exact (Nat.max_zero _).symm

/-- The calls of reading an expression depend on its symbols only. -/
theorem readCalls_congr {r r' : Reading} {toks toks' : List Token}
    (h : toks.map Token.symbol = toks'.map Token.symbol) (place : Place) (frames : List Frame) :
    readCalls r toks place frames = readCalls r' toks' place frames := by
  induction toks generalizing toks' place frames with
  | nil =>
      obtain rfl : toks' = [] := List.map_eq_nil_iff.1 h.symm
      rfl
  | cons t toks ih =>
      obtain ⟨t', toks', rfl, ht, htoks⟩ := List.map_eq_cons_iff.1 h.symm
      have hrest : (fun p : Place × List Frame => readCalls r toks p.1 p.2) =
          fun p => readCalls r' toks' p.1 p.2 := funext fun p => ih htoks.symm p.1 p.2
      rw [readCalls_cons, readCalls_cons, next?_move ht.symm r r', hrest]

end Expr

/-- The calls of reading a line do not depend on the blanks around it. -/
theorem Line.readCalls_strip (source : String) :
    Line.readCalls (strip source) = Line.readCalls source := by
  have h := map_symbol_tokenize_strip source
  simp only [Line.readCalls, Cursor.ofSource]
  generalize tokenize (strip source) = toks at h ⊢
  rcases htoks' : tokenize source with _ | ⟨⟨a, span'⟩, rest'⟩ <;> rw [htoks'] at h
  · obtain rfl : toks = [] := List.map_eq_nil_iff.1 h
    rfl
  · obtain ⟨⟨a, span⟩, rest, rfl, rfl, hrest⟩ := List.map_eq_cons_iff.1 h
    cases a with
    | «variable» x =>
        rcases rest' with _ | ⟨⟨b, _⟩, rest'⟩
        · obtain rfl : rest = [] := List.map_eq_nil_iff.1 hrest
          exact Expr.readCalls_congr rfl _ _
        · obtain ⟨⟨b, _⟩, rest, rfl, rfl, hrest'⟩ := List.map_eq_cons_iff.1 hrest
          cases b with
          | assign => exact Expr.readCalls_congr hrest' _ _
          | _ => exact Expr.readCalls_congr hrest _ _
    | _ => exact Expr.readCalls_congr h _ _

/-! ## Evaluating -/

section Evaluating

variable {σ : Type} {stack : Stack} {shown : Contraction → Nat} {watch : Watcher σ Interruption}
  {fuel : Nat} {env : Environment} {strict : Bool} {seen : σ} {source : String}

/-- The calls that are open at the deepest point of evaluating a line without a limit. -/
def evaluateCalls (shown : Contraction → Nat) (watch : Watcher σ Interruption) (fuel : Nat)
    (env : Environment) (strict : Bool) (seen : σ) (source : String) : Nat :=
  max (env.taskCalls strict source)
    (match env.task strict source with
    | .reduce _ t =>
        t.reduceCalls shown (Reducer.fresh.run watch fuel seen t).turns
          (Supply.empty.reserve t.ids)
    | _ => 0)

/-- If there is nothing to contract, there is one turn, which finds that out. -/
theorem evaluateCalls_of_isNormal {line : Line Expr} {t : Term}
    (htask : env.task strict source = .reduce line t) (ht : t.IsNormal) :
    evaluateCalls shown watch fuel env strict seen source =
      max (env.taskCalls strict source) t.search.calls := by
  have hnone := (t.step?_eq_none_iff (Supply.empty.reserve t.ids)).2 ht
  simp [evaluateCalls, htask, Reducer.run_of_isNormal _ _ _ _ ht, Run.turns, Reducer.fresh,
    Term.reduceCalls, Term.stepCalls, hnone]

/-- A line that has room for its calls is evaluated as without a limit. -/
theorem evaluateWithin_of_holds
    (h : stack.holds (evaluateCalls shown watch fuel env strict seen source) = true) :
    evaluateWithin stack shown watch fuel env strict seen source =
      evaluate watch fuel env strict seen source := by
  rw [Stack.holds_eq_true_iff] at h
  unfold evaluateWithin
  cases hroom : stack.room? with
  | none => rfl
  | some room =>
      have hle := h room hroom
      unfold evaluateCalls at hle
      simp only [if_neg (Nat.not_lt.2 (le_of_max_le_left hle))]
      rw [evaluate_eq_task]
      cases htask : env.task strict source with
      | refuse e => rfl
      | skip => rfl
      | reduce line t =>
          simp only [htask, Reducer.fresh_run_eq] at hle ⊢
          rw [Reducer.iterateWithin_of_le (Nat.zero_add _).symm (le_of_max_le_right hle)]
          refine Prod.ext rfl ?_
          cases (Reducer.iterate Term.step? watch fuel _ seen t).toRun.ending <;> rfl

/-- A line that does not have room for its calls is nested too deeply, and until then it is
evaluated as without a limit. -/
theorem evaluateWithin_of_overflows
    (h : stack.holds (evaluateCalls shown watch fuel env strict seen source) = false) :
    ∃ j ≤ fuel, evaluateWithin stack shown watch fuel env strict seen source =
      ((evaluate watch j env strict seen source).1, .ok ⟨source, env, .error .tooDeep⟩) := by
  obtain ⟨room, hroom, hlt⟩ := Stack.holds_eq_false_iff.1 h
  unfold evaluateCalls at hlt
  unfold evaluateWithin
  simp only [hroom]
  by_cases htask : room < env.taskCalls strict source
  · -- nothing has been contracted yet
    rw [if_pos htask]
    refine ⟨0, Nat.zero_le fuel, ?_⟩
    rw [evaluate_eq_task]
    cases env.task strict source with
    | refuse e => rfl
    | skip => rfl
    | reduce line t =>
        simp only [Reducer.fresh_run_eq]
        exact Prod.ext (Reducer.iterate_zero watch _ seen t).2.symm rfl
  · rw [if_neg htask]
    have hlt := (lt_max_iff.1 hlt).resolve_left htask
    cases htask : env.task strict source with
    | refuse e => simp [htask] at hlt
    | skip => simp [htask] at hlt
    | reduce line t =>
        simp only [htask, Reducer.fresh_run_eq] at hlt
        obtain ⟨j, hj, heq⟩ := Reducer.iterateWithin_of_lt
          (r := ⟨Supply.empty.reserve t.ids, 0⟩) (Nat.zero_add _).symm hlt
        refine ⟨j, hj, ?_⟩
        rw [evaluate_eq_task, htask]
        simp only [heq, Reducer.fresh_run_eq]
        rfl

/-- A line is evaluated as without a limit, or it is nested too deeply. -/
theorem evaluateWithin_cases (stack : Stack) (shown : Contraction → Nat)
    (watch : Watcher σ Interruption) (fuel : Nat) (env : Environment) (strict : Bool) (seen : σ)
    (source : String) :
    evaluateWithin stack shown watch fuel env strict seen source =
        evaluate watch fuel env strict seen source ∨
      (evaluateWithin stack shown watch fuel env strict seen source).2 =
        .ok ⟨source, env, .error .tooDeep⟩ := by
  cases h : stack.holds (evaluateCalls shown watch fuel env strict seen source) with
  | true => exact .inl (evaluateWithin_of_holds h)
  | false =>
      obtain ⟨j, -, heq⟩ := evaluateWithin_of_overflows h
      rw [heq]
      exact .inr rfl

/-- A line that was evaluated has the same outcome without a limit. -/
theorem evaluate_of_evaluateWithin {o : Outcome} {value : Line Term}
    (h : (evaluateWithin stack shown watch fuel env strict seen source).2 = .ok o)
    (ho : o.result = .ok value) : (evaluate watch fuel env strict seen source).2 = .ok o := by
  rcases evaluateWithin_cases stack shown watch fuel env strict seen source with heq | heq
  · rwa [heq] at h
  · rw [heq] at h
    cases h
    cases ho

/-- A line that is dealt with, or refused, stays so if more contractions are allowed. -/
theorem evaluateWithin_mono {fuel' : Nat} (hle : fuel ≤ fuel')
    (h : (evaluateWithin stack shown watch fuel env strict seen source).2 ≠ .error .unfinished) :
    evaluateWithin stack shown watch fuel' env strict seen source =
      evaluateWithin stack shown watch fuel env strict seen source := by
  unfold evaluateWithin at h ⊢
  cases hroom : stack.room? with
  | none =>
      simp only [hroom] at h
      exact evaluate_mono hle h
  | some room =>
      by_cases hfull : room < env.taskCalls strict source
      · simp only [hfull, if_true]
      · simp only [hroom, hfull, if_false] at h ⊢
        cases htask : env.task strict source with
        | refuse e => rfl
        | skip => rfl
        | reduce line t =>
            simp only [htask] at h ⊢
            rw [Reducer.iterateWithin_mono hle]
            intro u hu
            rw [hu] at h
            exact h rfl

/-- What becomes of a line within a stack does not depend on what else the watcher remembers. -/
theorem evaluateWithin_map {τ : Type} {watch' : Watcher τ Interruption} (f : σ → τ)
    (hmap : ∀ seen c, watch' (f seen) c = (f (watch seen c).1, (watch seen c).2)) (stack : Stack)
    (shown : Contraction → Nat) (fuel : Nat) (env : Environment) (strict : Bool) (seen : σ)
    (source : String) :
    ∃ seen', evaluateWithin stack shown watch' fuel env strict (f seen) source =
      (f seen', (evaluateWithin stack shown watch fuel env strict seen source).2) := by
  have hcalls : evaluateCalls shown watch' fuel env strict (f seen) source =
      evaluateCalls shown watch fuel env strict seen source := by
    unfold evaluateCalls
    cases env.task strict source with
    | refuse e => rfl
    | skip => rfl
    | reduce line t =>
        simp only [Reducer.run_map f hmap]
        rfl
  cases h : stack.holds (evaluateCalls shown watch fuel env strict seen source) with
  | true =>
      have h' : stack.holds (evaluateCalls shown watch' fuel env strict (f seen) source) = true :=
        hcalls.symm ▸ h
      rw [evaluateWithin_of_holds h, evaluateWithin_of_holds h']
      exact ⟨_, evaluate_map f hmap fuel env strict seen source⟩
  | false =>
      have h' : stack.holds (evaluateCalls shown watch' fuel env strict (f seen) source) = false :=
        hcalls.symm ▸ h
      obtain ⟨i, -, heq⟩ := evaluateWithin_of_overflows h
      obtain ⟨j, -, heq'⟩ := evaluateWithin_of_overflows h'
      rw [heq, heq', evaluate_map f hmap]
      exact ⟨_, rfl⟩

/-- A line that was evaluated within a stack is evaluated in the same way without the blanks
around it. -/
theorem evaluateWithin_strip_of_ok {o : Outcome} {value : Line Term}
    (h : (evaluateWithin stack shown watch fuel env strict seen source).2 = .ok o)
    (ho : o.result = .ok value) :
    (evaluateWithin stack shown watch fuel env strict seen (strip source)).2 =
      .ok { o with source := strip source } := by
  obtain ⟨line, hparse⟩ := exists_parse_of_evaluate (evaluate_of_evaluateWithin h ho) ho
  cases hholds : stack.holds (evaluateCalls shown watch fuel env strict seen source) with
  | true =>
      have hstrip : evaluateCalls shown watch fuel env strict seen (strip source) =
          evaluateCalls shown watch fuel env strict seen source := by
        have hparse' := Line.parse_strip hparse
        simp only [evaluateCalls, Environment.taskCalls, Environment.task, hparse, hparse',
          Line.readCalls_strip]
      rw [evaluateWithin_of_holds hholds] at h
      rw [← hstrip] at hholds
      rw [evaluateWithin_of_holds hholds]
      exact evaluate_strip_of_ok h ho
  | false =>
      obtain ⟨j, -, heq⟩ := evaluateWithin_of_overflows hholds
      rw [heq] at h
      cases h
      cases ho

end Evaluating

/-! ## Printing -/

/-- The calls that are open at the deepest point of printing the line of an outcome. -/
def Outcome.printCalls (o : Outcome) : Nat := (o.value?.map Term.printCalls).getD 0

theorem Outcome.printCalls_of_line? {o : Outcome} {line : Line Term} (h : o.line? = some line) :
    o.printCalls = line.printCalls := by
  rw [printCalls, value?, h]
  rfl

namespace Line

variable {stack : Stack} {line : Line Term}

theorem renderWithin_of_holds (h : stack.holds line.printCalls = true) :
    line.renderWithin stack = line.renderWithin .unlimited := by
  simp [renderWithin, h]

theorem renderWithin_of_overflows (h : stack.holds line.printCalls = false) :
    line.renderWithin stack = .error .overflow := by
  simp [renderWithin, h]

end Line

end UntypedLambda
