import UntypedLambda.Term.Copy

/-!
# Normal order reduction

A redex is the application of a function to an argument; contracting it replaces
the parameter by copies of the argument, which is not evaluated first.  A term is
reduced in two alternating phases.  `Reducer.head` contracts whatever is in
function position until the term is a function, a variable, or an application
whose head is stuck; `Reducer.normalize` then goes on with the body of the
function, or with the two parts of the application.  This contracts the
leftmost-outermost redex first, so a normal form is found whenever there is one.

* `Term.contract` — one contraction.
* `Reducer.apply` — one contraction, shown to a watcher that may stop the run.
* `Reducer.run` — a whole run.  Since a term need not have a normal form, a run
  is given the number of contractions it may perform, and one that used them up
  is told apart from one that reached a normal form.
* `Term.IsNormal` — no redex anywhere.
* `Term.step?` — the same reduction one step at a time: contracts the
  leftmost-outermost redex.
-/

namespace UntypedLambda

/-- A redex and what it was contracted to. -/
structure Contraction where
  /-- The function of the redex. -/
  fn : Term
  /-- The argument of the redex. -/
  arg : Term
  /-- What the redex was replaced by. -/
  contractum : Term
  deriving DecidableEq, Repr, Inhabited

/-- The redex of a contraction. -/
def Contraction.redex (c : Contraction) : Term := .app c.fn c.arg

namespace Term

/-- Contracts the application of a function to an argument.  A function without
a number binds nothing, so its body is the result. -/
def contract (param : Var) (body arg : Term) (s : Supply) : Term × Supply :=
  match param with
  | .bound id _ => body.substitute id arg s
  | .free _ => (body, s)

theorem sizeOf_body_lt (param : Var) (body : Term) : sizeOf body < sizeOf (lam param body) := by
  rw [lam.sizeOf_spec]
  omega

theorem sizeOf_fn_lt (fn arg : Term) : sizeOf fn < sizeOf (app fn arg) := by
  rw [app.sizeOf_spec]
  omega

theorem sizeOf_arg_lt (fn arg : Term) : sizeOf arg < sizeOf (app fn arg) := by
  rw [app.sizeOf_spec]
  omega

/-- Is the term a function? -/
def isLam : Term → Bool
  | .lam _ _ => true
  | _ => false

/-- No application of a function stands anywhere in the term. -/
def IsNormal : Term → Prop
  | .var _ => True
  | .app fn arg => fn.isLam = false ∧ fn.IsNormal ∧ arg.IsNormal
  | .lam _ body => body.IsNormal

end Term

/-- Sees every contraction, and may stop the run with an `ε`.  What it has seen
so far is a `σ`, which is kept when it stops the run. -/
abbrev Watcher (σ ε : Type) := σ → Contraction → σ × Option ε

/-- Reduces terms one after the other: numbers and the count of contractions
carry over. -/
structure Reducer where
  /-- Where fresh numbers come from. -/
  supply : Supply
  /-- The number of contractions performed so far. -/
  steps : Nat
  deriving DecidableEq, Repr, Inhabited

/-- How a run, or a part of it, ended. -/
inductive Ending (ε : Type) where
  /-- The term was reduced as far as it goes. -/
  | normal (t : Term)
  /-- The watcher stopped the run. -/
  | stopped (e : ε)
  /-- The allowed number of contractions was used up at the term given. -/
  | unfinished (t : Term)
  deriving DecidableEq, Repr

/-- The same ending for a larger term. -/
def Ending.inside {ε : Type} (wrap : Term → Term) : Ending ε → Ending ε
  | .normal t => .normal (wrap t)
  | .stopped e => .stopped e
  | .unfinished t => .unfinished (wrap t)

/-- A run that has ended. -/
structure Run (σ ε : Type) where
  /-- How it ended. -/
  ending : Ending ε
  /-- The reducer afterwards. -/
  reducer : Reducer
  /-- What the watcher has seen. -/
  seen : σ
  deriving DecidableEq, Repr

namespace Reducer

variable {σ ε : Type}

/-- A reducer that has not reduced anything yet. -/
def fresh : Reducer := ⟨Supply.empty, 0⟩

/-- Where a run stands between two contractions. -/
structure Stage (σ : Type) where
  /-- The reducer so far. -/
  reducer : Reducer
  /-- What the watcher has seen so far. -/
  seen : σ
  /-- The number of contractions that may still be performed. -/
  fuel : Nat

/-- A part of a run that has ended. -/
structure Phase (σ ε : Type) where
  /-- How it ended. -/
  ending : Ending ε
  /-- Where the run stands afterwards. -/
  stage : Stage σ

/-- The same part of a run inside of a larger term. -/
def Phase.inside (wrap : Term → Term) (p : Phase σ ε) : Phase σ ε :=
  ⟨p.ending.inside wrap, p.stage⟩

/-- What makes phases end: a phase that began with term `t` has used up a
contraction, or it has left the term as it was. -/
def Phase.Advances (st : Stage σ) (t : Term) (p : Phase σ ε) : Prop :=
  p.stage.fuel < st.fuel ∨ p.stage.fuel = st.fuel ∧ ∀ u, p.ending = .normal u → u = t

theorem Phase.Advances.fuel_le {st : Stage σ} {t : Term} {p : Phase σ ε} (h : p.Advances st t) :
    p.stage.fuel ≤ st.fuel := by
  rcases h with h | h
  · exact Nat.le_of_lt h
  · exact Nat.le_of_eq h.1

theorem Phase.advances_of_not_normal {st : Stage σ} {t : Term} {p : Phase σ ε}
    (hle : p.stage.fuel ≤ st.fuel) (hn : ∀ u, p.ending ≠ .normal u) : p.Advances st t := by
  rcases Nat.lt_or_eq_of_le hle with h | h
  · exact .inl h
  · exact .inr ⟨h, fun u hu => absurd hu (hn u)⟩

theorem Phase.Advances.inside {st : Stage σ} {t : Term} {p : Phase σ ε} (h : p.Advances st t)
    (wrap : Term → Term) : (p.inside wrap).Advances st (wrap t) := by
  rcases h with h | ⟨h, ht⟩
  · exact .inl h
  · refine .inr ⟨h, fun u hu => ?_⟩
    cases hp : p.ending <;> simp only [Phase.inside, Ending.inside, hp] at hu <;> cases hu
    rw [ht _ hp]

/-- What a phase ended with is smaller to go on with: a contraction less is
allowed, or it is the term that the phase began with. -/
theorem Phase.Advances.lex {st : Stage σ} {t u b : Term} {p : Phase σ ε} {n : Nat}
    (h : p.Advances st t) (hu : p.ending = .normal u) (hn : n ≤ p.stage.fuel)
    (hb : sizeOf b < sizeOf u) :
    Prod.Lex (· < ·) (fun a₁ a₂ => sizeOf a₁ < sizeOf a₂) (n, b) (st.fuel, t) := by
  rcases h with h | ⟨h, ht⟩
  · exact .left _ _ (Nat.lt_of_le_of_lt hn h)
  · rw [ht u hu] at hb
    rcases Nat.lt_or_eq_of_le (h ▸ hn) with hlt | rfl
    · exact .left _ _ hlt
    · exact .right _ hb

/-- Contracts the application of a function to an argument, unless no contraction
is allowed any more, and shows it to the watcher. -/
def apply (watch : Watcher σ ε) (st : Stage σ) (param : Var) (body arg : Term) : Phase σ ε :=
  match st.fuel with
  | 0 => ⟨.unfinished (.app (.lam param body) arg), st⟩
  | fuel + 1 =>
      let drawn := Term.contract param body arg st.reducer.supply
      let r : Reducer := ⟨drawn.2, st.reducer.steps + 1⟩
      match watch st.seen ⟨.lam param body, arg, drawn.1⟩ with
      | (seen, some e) => ⟨.stopped e, ⟨r, seen, fuel⟩⟩
      | (seen, none) => ⟨.normal drawn.1, ⟨r, seen, fuel⟩⟩

theorem apply_fuel_le (watch : Watcher σ ε) (st : Stage σ) (param : Var) (body arg : Term) :
    (apply watch st param body arg).stage.fuel ≤ st.fuel := by
  simp only [apply]
  split
  · exact Nat.le_refl _
  · next fuel h =>
      rw [h]
      split <;> exact Nat.le_succ fuel

/-- Going on after a contraction uses up one that was allowed. -/
theorem apply_fuel_lt {watch : Watcher σ ε} {st : Stage σ} {param : Var} {body arg t : Term}
    (h : (apply watch st param body arg).ending = .normal t) :
    (apply watch st param body arg).stage.fuel < st.fuel := by
  revert h
  simp only [apply]
  split
  · intro h
    cases h
  · next fuel hf =>
      rw [hf]
      split <;> exact fun _ => Nat.lt_succ_self fuel

/-- Contracts what is in function position until the term is a variable, a
function, or an application whose head is stuck. -/
def head (watch : Watcher σ ε) (st : Stage σ) (t : Term) : { p : Phase σ ε // p.Advances st t } :=
  match t with
  | .app fn arg =>
      let f := head watch st fn
      match f.1.ending with
      | .normal (.lam param body) =>
          let a := apply watch f.1.stage param body arg
          have hle := Nat.le_trans (apply_fuel_le watch f.1.stage param body arg) f.2.fuel_le
          match ha : a.ending with
          | .normal u =>
              have hlt := Nat.lt_of_lt_of_le (apply_fuel_lt ha) f.2.fuel_le
              let p := head watch a.stage u
              ⟨p.1, .inl (Nat.lt_of_le_of_lt p.2.fuel_le hlt)⟩
          | .stopped _ => ⟨a, Phase.advances_of_not_normal hle (by simp [ha])⟩
          | .unfinished _ => ⟨a, Phase.advances_of_not_normal hle (by simp [ha])⟩
      | _ => ⟨f.1.inside (.app · arg), f.2.inside (.app · arg)⟩
  | t => ⟨⟨.normal t, st⟩, .inr ⟨rfl, fun _ h => by cases h; rfl⟩⟩
termination_by (st.fuel, t)

/-- Reduces a term: what is in function position comes first, then the body of
the function it has become, or the two parts of the application. -/
def normalize (watch : Watcher σ ε) (st : Stage σ) (t : Term) :
    { p : Phase σ ε // p.stage.fuel ≤ st.fuel } :=
  let h := head watch st t
  match _hh : h.1.ending with
  | .normal (.lam param body) =>
      let b := normalize watch h.1.stage body
      ⟨b.1.inside (.lam param), Nat.le_trans b.2 h.2.fuel_le⟩
  | .normal (.app fn arg) =>
      let f := normalize watch h.1.stage fn
      match f.1.ending with
      | .normal fn' =>
          let a := normalize watch f.1.stage arg
          ⟨a.1.inside (.app fn'), Nat.le_trans a.2 (Nat.le_trans f.2 h.2.fuel_le)⟩
      | _ => ⟨f.1.inside (.app · arg), Nat.le_trans f.2 h.2.fuel_le⟩
  | _ => ⟨h.1, h.2.fuel_le⟩
termination_by (st.fuel, t)
decreasing_by
  · exact h.2.lex _hh (Nat.le_refl _) (Term.sizeOf_body_lt param body)
  · exact h.2.lex _hh (Nat.le_refl _) (Term.sizeOf_fn_lt fn arg)
  · exact h.2.lex _hh f.2 (Term.sizeOf_arg_lt fn arg)

/-- Reduces a term, whose numbers are reserved first. -/
def run (watch : Watcher σ ε) (fuel : Nat) (r : Reducer) (seen : σ) (t : Term) : Run σ ε :=
  let p := normalize watch ⟨⟨r.supply.reserve t.ids, r.steps⟩, seen, fuel⟩ t
  ⟨p.1.ending, p.1.stage.reducer, p.1.stage.seen⟩

end Reducer

/-! ## One step at a time -/

/-- One step of reduction. -/
structure Step where
  /-- The contraction that was performed. -/
  contraction : Contraction
  /-- The whole term afterwards. -/
  result : Term
  /-- The supply afterwards. -/
  supply : Supply
  deriving DecidableEq, Repr, Inhabited

namespace Step

/-- The same step inside of a larger term. -/
def inside (wrap : Term → Term) (s : Step) : Step :=
  ⟨s.contraction, wrap s.result, s.supply⟩

/-- The step that contracts the application of a function to an argument. -/
def contract (param : Var) (body arg : Term) (s : Supply) : Step :=
  let r := Term.contract param body arg s
  ⟨⟨.lam param body, arg, r.1⟩, r.1, r.2⟩

end Step

namespace Term

/-- Contracts the leftmost-outermost redex. -/
def step? : Term → Supply → Option Step
  | .var _, _ => none
  | .lam param body, s => (body.step? s).map (Step.inside (.lam param))
  | .app (.lam param body) arg, s => some (Step.contract param body arg s)
  | .app fn arg, s =>
      match fn.step? s with
      | some st => some (st.inside (.app · arg))
      | none => (arg.step? s).map (Step.inside (.app fn))

end Term

end UntypedLambda
