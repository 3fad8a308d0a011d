import Mathlib.Data.List.Nodup
import UntypedLambda.Proofs.Reduction.Hygiene
import UntypedLambda.Proofs.Term.Binding

/-!
# One pass over several terms

A binder is used for one term after the other.  What it has handed out stays in use, what a
term brings along is reserved before anything is handed out, and every function that is
entered is left again.  So the functions that have no number yet get numbers that stand
nowhere else, whatever was bound before.

* `Scopes.Live.leave_enter`, `Term.bindIn_scopes` — a walk ends with the table of open functions
  that it began with.
* `Term.unnumbered` — the places of the functions that have no number.
* `Term.map_numberAt?_bindIn`, `Term.paramAt?_bindIn_of_bound` — these get the next numbers in
  order, and all others keep theirs.
* `Binder.bindAll` — several terms, one after the other.
* `Binder.bind_in_one_pass` — what a call does after any others.
-/

namespace UntypedLambda

/-! ## The table of open functions -/

namespace Scopes

/-- Every name in the table has an open function. -/
def Live (sc : Scopes) : Prop := ∀ x, sc.get? x ≠ some []

/-- The function with this number is open. -/
def Opens (sc : Scopes) (i : Int) : Prop := ∃ x, i ∈ (sc.get? x).getD []

theorem live_empty : Live Table.empty := by
  intro x h
  cases h

variable {sc : Scopes}

theorem Live.enter (h : sc.Live) (x : String) (i : Int) : (sc.enter x i).Live := by
  intro y hy
  rw [Scopes.enter, Table.get?_put] at hy
  by_cases hxy : x = y
  · rw [if_pos hxy] at hy
    cases hy
  · rw [if_neg hxy] at hy
    exact h y hy

/-- A function that is entered and left leaves nothing behind. -/
theorem Live.leave_enter (h : sc.Live) (x : String) (i : Int) :
    ((sc.enter x i).leave x).2 = sc := by
  have hget : (sc.enter x i).get? x = some (i :: (sc.get? x).getD []) := by
    rw [Scopes.enter, Table.get?_put, if_pos rfl]
  rw [Scopes.leave, hget]
  cases hx : sc.get? x with
  | none =>
      simp only [Scopes.enter, hx, Option.getD_none, Option.getD_some]
      exact Table.erase_put hx [i]
  | some outer =>
      cases outer with
      | nil => exact absurd hx (h x)
      | cons j outer =>
          simp only [Scopes.enter, hx, Option.getD_some]
          rw [Table.put_put]
          exact Table.put_of_get? hx

theorem opens_of_innermost? {x : String} {i : Int} (h : sc.innermost? x = some i) : sc.Opens i :=
  ⟨x, List.mem_of_mem_head? h⟩

theorem opens_enter {x : String} {i j : Int} (h : (sc.enter x i).Opens j) : j = i ∨ sc.Opens j := by
  obtain ⟨y, hy⟩ := h
  rw [Scopes.enter, Table.get?_put] at hy
  by_cases hxy : x = y
  · rw [if_pos hxy] at hy
    exact (List.mem_cons.1 hy).imp_right fun hj => ⟨x, hj⟩
  · rw [if_neg hxy] at hy
    exact .inr ⟨y, hy⟩

end Scopes

namespace Binder

/-- Opening a function adds it to the table, under the number that it is given. -/
theorem enter_scopes (b : Binder) (x : String) (id? : Option Int) :
    (b.enter x id?).2.scopes = b.scopes.enter x (b.enter x id?).1 := by
  cases id? <;> rfl

theorem live_enter {b : Binder} (h : b.scopes.Live) (x : String) (id? : Option Int) :
    (b.enter x id?).2.scopes.Live := by
  rw [enter_scopes]
  exact h.enter x _

end Binder

namespace Term

/-- A walk through a term ends with the table that it began with. -/
theorem bindIn_scopes (t : Term) {b : Binder} (h : b.scopes.Live) :
    (t.bindIn b).2.scopes = b.scopes := by
  induction t generalizing b with
  | var v =>
      cases v with
      | bound i x => rfl
      | free x =>
          rw [bindIn]
          split <;> rfl
  | app fn arg ihf iha =>
      have hf := ihf h
      show (arg.bindIn (fn.bindIn b).2).2.scopes = _
      rw [iha (hf ▸ h), hf]
  | lam param body ih =>
      show ((body.bindIn (b.enter param.name param.id?).2).2.scopes.leave param.name).2 = _
      rw [ih (Binder.live_enter h _ _), Binder.enter_scopes, h.leave_enter]

/-- Names stay as they are written. -/
@[simp] theorem unbind_bindIn (t : Term) (b : Binder) : (t.bindIn b).1.unbind = t.unbind := by
  induction t generalizing b with
  | var v =>
      cases v with
      | bound i x => rfl
      | free x =>
          rw [bindIn]
          split <;> rfl
  | app fn arg ihf iha =>
      show Term.app (fn.bindIn b).1.unbind (arg.bindIn (fn.bindIn b).2).1.unbind = _
      rw [ihf, iha, unbind]
  | lam param body ih =>
      show Term.lam (.free param.name) (body.bindIn (b.enter param.name param.id?).2).1.unbind = _
      rw [ih, unbind, Var.unbind]

/-! ## Which functions get a number -/

/-- The number of the function that stands at a path. -/
def numberAt? (t : Term) (p : Path) : Option Int := (t.paramAt? p).bind Var.id?

/-- The places of the functions that have no number, each function before its body. -/
def unnumbered : Term → List Path
  | .var _ => []
  | .app fn arg => fn.unnumbered.map (.fn :: ·) ++ arg.unnumbered.map (.arg :: ·)
  | .lam param body =>
      (if param.id? = none then [[]] else []) ++ body.unnumbered.map (.body :: ·)

theorem mem_unnumbered_of_paramAt? {t : Term} {p : Path} {x : String}
    (h : t.paramAt? p = some (.free x)) : p ∈ t.unnumbered := by
  obtain ⟨r, hr⟩ := paramAt?_eq_some_iff.1 h
  clear h
  fun_induction at? t p with
  | case1 t =>
      cases hr
      exact List.mem_cons_self ..
  | case2 fn arg p ih => exact List.mem_append_left _ (List.mem_map_of_mem (ih hr))
  | case3 fn arg p ih => exact List.mem_append_right _ (List.mem_map_of_mem (ih hr))
  | case4 param body p ih => exact List.mem_append_right _ (List.mem_map_of_mem (ih hr))
  | case5 => cases hr

/-- Nothing is drawn but one number for each function that has none. -/
@[simp] theorem bindIn_supply (t : Term) (b : Binder) :
    (t.bindIn b).2.supply = b.supply.draw t.unnumbered.length := by
  induction t generalizing b with
  | var v =>
      cases v with
      | bound i x => rfl
      | free x =>
          rw [bindIn]
          split <;> rfl
  | app fn arg ihf iha =>
      show (arg.bindIn (fn.bindIn b).2).2.supply = _
      rw [iha, ihf, unnumbered, List.length_append, List.length_map, List.length_map,
        Supply.draw_add]
  | lam param body ih =>
      show (body.bindIn (b.enter param.name param.id?).2).2.supply = _
      rw [ih]
      cases param with
      | bound i x => simp [Binder.enter, unnumbered, Var.id?]
      | free x => simp [Binder.enter, unnumbered, Var.id?, Supply.draw]

/-- **The functions without a number get the next ones in order.** -/
theorem map_numberAt?_bindIn (t : Term) (b : Binder) :
    t.unnumbered.map (t.bindIn b).1.numberAt? =
      (b.supply.numbers t.unnumbered.length).map some := by
  induction t generalizing b with
  | var v => rfl
  | app fn arg ihf iha =>
      have hf := ihf b
      have ha := iha (fn.bindIn b).2
      rw [bindIn_supply] at ha
      simp only [unnumbered, List.map_append, List.map_map, List.length_append, List.length_map,
        Supply.numbers_add]
      show fn.unnumbered.map (fn.bindIn b).1.numberAt? ++
        arg.unnumbered.map (arg.bindIn (fn.bindIn b).2).1.numberAt? = _
      rw [hf, ha]
  | lam param body ih =>
      have hb := ih (b.enter param.name param.id?).2
      cases param with
      | bound i x =>
          simp only [unnumbered, Var.id?, reduceCtorEq, if_false, List.nil_append, List.map_map,
            List.length_map]
          exact hb
      | free x =>
          simp only [unnumbered, Var.id?, if_true, List.singleton_append, List.map_cons,
            List.map_map, List.length_cons, List.length_map, Supply.numbers]
          exact congrArg (some b.supply.next :: ·) hb

/-- The part at a place is bound by itself, in the state that the binder has come to there. -/
theorem exists_at?_bindIn {t r : Term} {p : Path} (h : t.at? p = some r) (b : Binder) :
    ∃ b', (t.bindIn b).1.at? p = some (r.bindIn b').1 := by
  fun_induction at? t p generalizing b with
  | case1 t =>
      cases h
      exact ⟨b, by rw [at?]⟩
  | case2 fn arg p ih => exact ih h b
  | case3 fn arg p ih => exact ih h _
  | case4 param body p ih => exact ih h _
  | case5 => cases h

/-- A function that has a number keeps it. -/
theorem paramAt?_bindIn_of_bound {t : Term} {p : Path} {i : Int} {x : String}
    (h : t.paramAt? p = some (.bound i x)) (b : Binder) :
    (t.bindIn b).1.paramAt? p = some (.bound i x) := by
  obtain ⟨body, hbody⟩ := paramAt?_eq_some_iff.1 h
  obtain ⟨b', hb'⟩ := exists_at?_bindIn hbody b
  exact paramAt?_eq_some_iff.2 ⟨_, hb'⟩

theorem mem_ids_of_paramAt? {t : Term} {p : Path} {i : Int} {x : String}
    (h : t.paramAt? p = some (.bound i x)) : i ∈ t.ids := by
  obtain ⟨body, hbody⟩ := paramAt?_eq_some_iff.1 h
  exact mem_ids_of_at? hbody (List.mem_cons_self ..)

theorem paramAt?_unbind (t : Term) (p : Path) :
    t.unbind.paramAt? p = (t.paramAt? p).map Var.unbind := by
  unfold paramAt?
  fun_induction at? t p with
  | case1 t => cases t <;> rfl
  | case2 fn arg p ih => exact ih
  | case3 fn arg p ih => exact ih
  | case4 param body p ih => exact ih
  | case5 t turn p hfn harg hbody => cases t <;> cases turn <;> simp_all [unbind, at?]

/-- Functions stand at the same places as before, under the same names. -/
theorem map_unbind_paramAt?_bindIn (t : Term) (b : Binder) (p : Path) :
    ((t.bindIn b).1.paramAt? p).map Var.unbind = (t.paramAt? p).map Var.unbind := by
  rw [← paramAt?_unbind, unbind_bindIn, paramAt?_unbind]

/-- A function that has no number gets one of those drawn, and keeps its name. -/
theorem exists_paramAt?_bindIn {t : Term} {p : Path} {x : String}
    (h : t.paramAt? p = some (.free x)) (b : Binder) :
    ∃ i ∈ b.supply.numbers t.unnumbered.length, (t.bindIn b).1.paramAt? p = some (.bound i x) := by
  have hnumber : (t.bindIn b).1.numberAt? p ∈ t.unnumbered.map (t.bindIn b).1.numberAt? :=
    List.mem_map_of_mem (mem_unnumbered_of_paramAt? h)
  rw [map_numberAt?_bindIn] at hnumber
  obtain ⟨i, hi, hp⟩ := List.mem_map.1 hnumber
  obtain ⟨v, hv, hid⟩ := Option.bind_eq_some_iff.1 hp.symm
  have hname := map_unbind_paramAt?_bindIn t b p
  rw [hv, h] at hname
  cases v with
  | free y => cases hid
  | bound j y =>
      cases hid
      cases hname
      exact ⟨i, hi, hv⟩

/-- No two functions without a number get the same one. -/
theorem numberAt?_bindIn_inj {t : Term} {b : Binder} {p q : Path} (hp : p ∈ t.unnumbered)
    (hq : q ∈ t.unnumbered) (h : (t.bindIn b).1.numberAt? p = (t.bindIn b).1.numberAt? q) :
    p = q := by
  have hnodup : (t.unnumbered.map (t.bindIn b).1.numberAt?).Nodup := by
    rw [map_numberAt?_bindIn]
    exact (Supply.nodup_numbers _ _).map fun _ _ => Option.some.inj
  exact List.inj_on_of_nodup_map hnodup hp hq h

/-- A number that the term did not have belongs to one function only. -/
theorem eq_of_numberAt?_bindIn {t : Term} {b : Binder} {p q : Path} {i : Int} (hi : i ∉ t.ids)
    (hp : (t.bindIn b).1.numberAt? p = some i) (hq : (t.bindIn b).1.numberAt? q = some i) :
    p = q := by
  -- a function that had a number would have kept it
  have hunnumbered : ∀ r, (t.bindIn b).1.numberAt? r = some i → r ∈ t.unnumbered := by
    intro r hr
    obtain ⟨v, hv, hid⟩ := Option.bind_eq_some_iff.1 hr
    have hplace := map_unbind_paramAt?_bindIn t b r
    cases hparam : t.paramAt? r with
    | none =>
        rw [hv, hparam] at hplace
        cases hplace
    | some w =>
        cases w with
        | free x => exact mem_unnumbered_of_paramAt? hparam
        | bound j x =>
            cases hv.symm.trans (paramAt?_bindIn_of_bound hparam b)
            cases hid
            exact absurd (mem_ids_of_paramAt? hparam) hi
  exact numberAt?_bindIn_inj (hunnumbered p hp) (hunnumbered q hq) (hp.trans hq.symm)

/-- Every number in what comes out was there, or was drawn, or belongs to a function that is open
around the term. -/
theorem mem_ids_bindIn {t : Term} {b : Binder} (hb : b.scopes.Live) {i : Int}
    (h : i ∈ (t.bindIn b).1.ids) :
    i ∈ t.ids ∨ i ∈ b.supply.numbers t.unnumbered.length ∨ b.scopes.Opens i := by
  induction t generalizing b with
  | var v =>
      cases v with
      | bound j x => exact .inl h
      | free x =>
          rw [bindIn] at h
          split at h
          · next j hj =>
              obtain rfl : i = j := by simpa [ids, Var.id?] using h
              exact .inr (.inr (Scopes.opens_of_innermost? hj))
          · cases h
  | app fn arg ihf iha =>
      simp only [ids, unnumbered, List.length_append, List.length_map, Supply.numbers_add,
        List.mem_append]
      rcases List.mem_append.1 h with h | h
      · rcases ihf hb h with h | h | h
        · exact .inl (.inl h)
        · exact .inr (.inl (.inl h))
        · exact .inr (.inr h)
      · have hscopes := bindIn_scopes fn hb
        have ha := iha (hscopes ▸ hb) h
        rw [bindIn_supply, hscopes] at ha
        rcases ha with h | h | h
        · exact .inl (.inr h)
        · exact .inr (.inl (.inr h))
        · exact .inr (.inr h)
  | lam param body ih =>
      have hbody : i ∈ (body.bindIn (b.enter param.name param.id?).2).1.ids → i ∈ body.ids ∨
          i ∈ (b.enter param.name param.id?).2.supply.numbers body.unnumbered.length ∨
          i = (b.enter param.name param.id?).1 ∨ b.scopes.Opens i := by
        intro hi
        have hcases := ih (Binder.live_enter hb _ _) hi
        rw [Binder.enter_scopes] at hcases
        exact hcases.imp_right fun h => h.imp_right Scopes.opens_enter
      have hcases := (List.mem_cons.1 h).imp_right hbody
      -- the function of the term itself has its own number, or the first one that is drawn
      cases param with
      | bound j x =>
          simp only [Binder.enter, Var.id?] at hcases
          simp only [ids, unnumbered, Var.id?, Option.toList_some, List.singleton_append,
            List.mem_cons, reduceCtorEq, if_false, List.nil_append, List.length_map]
          grind
      | free x =>
          simp only [Binder.enter, Var.id?, Supply.fresh_fst] at hcases
          simp only [ids, unnumbered, Var.id?, Option.toList_none, List.nil_append,
            if_true, List.singleton_append, List.length_cons, List.length_map, Supply.numbers,
            List.mem_cons]
          grind

end Term

/-! ## Several terms -/

namespace Binder

/-- Resolves the names of several terms, one after the other. -/
def bindAll (b : Binder) : List Term → List Term × Binder
  | [] => ([], b)
  | t :: ts =>
      let bound := b.bind t
      let rest := bound.2.bindAll ts
      (bound.1 :: rest.1, rest.2)

/-- All numbers that a binder had in use, was given in terms, and has put into the results are in
use afterwards. -/
structure Keeps (b : Binder) (ts results : List Term) (b' : Binder) : Prop where
  /-- No number in use is handed out again. -/
  bounded : b'.supply.Bounded
  /-- What was in use stays in use. -/
  started : ∀ i ∈ b.supply.used, i ∈ b'.supply.used
  /-- What a term brings along is in use. -/
  given : ∀ t ∈ ts, ∀ i ∈ t.ids, i ∈ b'.supply.used
  /-- What stands in a result is in use. -/
  made : ∀ t ∈ results, ∀ i ∈ t.ids, i ∈ b'.supply.used

variable {b : Binder}

theorem bind_supply (b : Binder) (t : Term) :
    (b.bind t).2.supply = (b.supply.reserve t.ids).draw t.unnumbered.length :=
  t.bindIn_supply _

/-- When a term has been bound, nothing is open. -/
theorem bind_scopes (b : Binder) (t : Term) : (b.bind t).2.scopes = Table.empty :=
  t.bindIn_scopes Scopes.live_empty

/-- The numbers in a result were in the term or drawn for it. -/
theorem mem_ids_bind {t : Term} {i : Int} (h : i ∈ (b.bind t).1.ids) :
    i ∈ t.ids ∨ i ∈ (b.supply.reserve t.ids).numbers t.unnumbered.length := by
  rcases Term.mem_ids_bindIn Scopes.live_empty h with h | h | ⟨x, hx⟩
  · exact .inl h
  · exact .inr h
  · cases hx

/-- What one call keeps. -/
theorem keeps_bind (hb : b.supply.Bounded) (t : Term) :
    Keeps b [t] [(b.bind t).1] (b.bind t).2 := by
  have hused : ∀ i, i ∈ (b.bind t).2.supply.used ↔ (i ∈ t.ids ∨ i ∈ b.supply.used) ∨
      i ∈ (b.supply.reserve t.ids).numbers t.unnumbered.length := by
    intro i
    rw [bind_supply, Supply.mem_used_draw, Supply.mem_used_reserve]
  refine ⟨?_, ?_, ?_, ?_⟩
  · rw [bind_supply]
    exact (hb.reserve t.ids).draw _
  · intro i hi
    exact (hused i).2 (.inl (.inr hi))
  · intro u hu i hi
    rw [List.mem_singleton.1 hu] at hi
    exact (hused i).2 (.inl (.inl hi))
  · intro u hu i hi
    rw [List.mem_singleton.1 hu] at hi
    apply (hused i).2
    exact (mem_ids_bind hi).imp_left .inl

/-- Calls one after the other keep what each of them keeps. -/
theorem Keeps.cons {t t' : Term} {ts results : List Term} {b₁ b' : Binder}
    (h : Keeps b [t] [t'] b₁) (h' : Keeps b₁ ts results b') :
    Keeps b (t :: ts) (t' :: results) b' where
  bounded := h'.bounded
  started i hi := h'.started i (h.started i hi)
  given := by
    intro u hu i hi
    rcases List.mem_cons.1 hu with rfl | hu
    · exact h'.started i (h.given u (List.mem_singleton_self u) i hi)
    · exact h'.given u hu i hi
  made := by
    intro u hu i hi
    rcases List.mem_cons.1 hu with rfl | hu
    · exact h'.started i (h.made u (List.mem_singleton_self u) i hi)
    · exact h'.made u hu i hi

/-- What a whole pass keeps. -/
theorem keeps_bindAll (hb : b.supply.Bounded) (ts : List Term) :
    Keeps b ts (b.bindAll ts).1 (b.bindAll ts).2 := by
  induction ts generalizing b with
  | nil => exact ⟨hb, fun i hi => hi, nofun, nofun⟩
  | cons t ts ih =>
      have hfirst := keeps_bind hb t
      exact hfirst.cons (ih hfirst.bounded)

/-- A function that has no number gets one that is new, and that no other function of the result
has. -/
theorem exists_paramAt?_bind (hb : b.supply.Bounded) {t : Term} {p : Path} {x : String}
    (h : t.paramAt? p = some (.free x)) :
    ∃ i, (b.bind t).1.paramAt? p = some (.bound i x) ∧ i ∉ t.ids ∧ i ∉ b.supply.used ∧
      ∀ q, (b.bind t).1.numberAt? q = some i → q = p := by
  obtain ⟨i, hi, hp⟩ := Term.exists_paramAt?_bindIn h ⟨b.supply.reserve t.ids, Table.empty⟩
  have hnew := (hb.reserve t.ids).notMem_used hi
  rw [Supply.mem_used_reserve, not_or] at hnew
  refine ⟨i, hp, hnew.1, hnew.2, ?_⟩
  intro q hq
  apply Term.eq_of_numberAt?_bindIn hnew.1 hq
  exact congrArg (Option.bind · Var.id?) hp

/-- **A binder is one pass.**  Whatever numbers a binder started with and whatever it has bound
before, a call keeps the names of its term, and the numbers of the functions that have one.  A
function that has none gets a number that stands neither in the term nor in any term given or
returned before, was not in use at the start and has not been handed out since, and belongs to no
other function of the result.  Afterwards nothing is open.  So what comes of a raw expression shares
no number with any earlier result. -/
theorem bind_in_one_pass (b : Binder) (hb : b.supply.Bounded) (before : List Term) (t : Term) :
    let pass := b.bindAll before
    let bound := pass.2.bind t
    bound.1.unbind = t.unbind ∧
    (∀ p i x, t.paramAt? p = some (.bound i x) → bound.1.paramAt? p = some (.bound i x)) ∧
    (∀ p x, t.paramAt? p = some (.free x) → ∃ i, bound.1.paramAt? p = some (.bound i x) ∧
      i ∉ t.ids ∧ i ∉ b.supply.used ∧ (∀ u ∈ before, i ∉ u.ids) ∧ (∀ u ∈ pass.1, i ∉ u.ids) ∧
      i ∉ pass.2.supply.used ∧ ∀ q, bound.1.numberAt? q = some i → q = p) ∧
    bound.2.scopes = Table.empty ∧
    ∀ e, t = Term.ofExpr e → ∀ i ∈ bound.1.ids, ∀ u ∈ pass.1, i ∉ u.ids := by
  intro pass bound
  have hkeeps := keeps_bindAll hb before
  refine ⟨Term.unbind_bindIn t _, fun p i x h => Term.paramAt?_bindIn_of_bound h _, ?_,
    bind_scopes pass.2 t, ?_⟩
  · intro p x h
    obtain ⟨i, hp, hterm, hnew, honly⟩ := exists_paramAt?_bind hkeeps.bounded h
    refine ⟨i, hp, hterm, ?_, ?_, ?_, hnew, honly⟩
    · exact mt (hkeeps.started i) hnew
    · intro u hu
      exact mt (hkeeps.given u hu i) hnew
    · intro u hu
      exact mt (hkeeps.made u hu i) hnew
  · rintro e rfl i hi u hu hm
    have hdrawn := mem_ids_bind hi
    rw [Term.ids_ofExpr] at hdrawn
    have hnew := hkeeps.bounded.notMem_used (hdrawn.resolve_left List.not_mem_nil)
    exact hnew (hkeeps.made u hu i hm)

/-- The theorem for a term in which one of two functions named `x` has a number, after a raw
expression and a term with numbers of its own. -/
theorem bind_in_one_pass_partly_numbered :
    let b := ofSupply (Supply.ofUsed [7])
    let before : List Term := [.ofExpr (.lam "x" (.var "x")),
      .app (.lam (.bound 3 "y") (.var (.free "y"))) (.lam (.free "z") (.var (.bound 20 "w")))]
    let t : Term := .lam (.bound 2 "x")
      (.lam (.free "x") (.app (.var (.free "x")) (.var (.bound 30 "v"))))
    let pass := b.bindAll before
    let bound := pass.2.bind t
    b.supply.Bounded ∧ t.paramAt? [.body] = some (.free "x") ∧
    bound.1.paramAt? [] = some (.bound 2 "x") ∧
    (∃ i, bound.1.paramAt? [.body] = some (.bound i "x") ∧ i ∉ t.ids ∧ i ∉ b.supply.used ∧
      (∀ u ∈ before, i ∉ u.ids) ∧ ∀ u ∈ pass.1, i ∉ u.ids) ∧
    bound.2.scopes = Table.empty := by
  intro b before t pass bound
  have hb : b.supply.Bounded := Supply.bounded_empty.reserve [7]
  obtain ⟨-, hkept, hfresh, hscopes, -⟩ := bind_in_one_pass b hb before t
  obtain ⟨i, hp, hterm, hstart, hgiven, hmade, -⟩ := hfresh [.body] "x" rfl
  exact ⟨hb, rfl, hkept [] 2 "x" rfl, ⟨i, hp, hterm, hstart, hgiven, hmade⟩, hscopes⟩

end Binder

end UntypedLambda
