import UntypedLambda.Proofs.Reduction.Hygiene
import UntypedLambda.Proofs.Term.Meaning

/-!
# Substitution, place by place

Substitution leaves a term as it is except at the places of the variable that is replaced, and
puts a copy of the argument there, each time one with numbers of its own.  In a hygienic redex
this is all that is needed: nothing is captured, although no name and no function on the way is
looked at.

* `Term.exists_at?_substitute` — what is substituted at a place does not depend on the places
  around it, except for the numbers that are drawn.
* `Term.FreshCopy` — a copy with numbers that were not in use.
* `Term.substitute_avoids_capture` — the contraction of a hygienic redex, by substitution.
-/

namespace UntypedLambda

namespace Term

/-- The number of functions in a term. -/
def functions : Term → Nat
  | .var _ => 0
  | .app fn arg => fn.functions + arg.functions
  | .lam _ body => body.functions + 1

/-- If every function has a number, there are as many numbers as functions. -/
theorem Numbered.length_binders {t : Term} (h : t.Numbered) : t.binders.length = t.functions := by
  induction t with
  | var v => rfl
  | app fn arg ihf iha => rw [binders, List.length_append, ihf h.1, iha h.2, functions]
  | lam param body ih =>
      obtain ⟨i, hi⟩ := Option.isSome_iff_exists.1 h.1
      rw [binders, hi, Option.toList_some, List.singleton_append, List.length_cons, ih h.2,
        functions]

/-! ## Copies -/

/-- A copy is written like the original. -/
@[simp] theorem unbind_refresh (t : Term) (renames : List (Int × Int)) (s : Supply) :
    (t.refresh renames s).1.unbind = t.unbind := by
  fun_induction refresh renames t s with
  | case1 renames v s => cases v <;> rfl
  | case2 renames fn arg s fn' arg' ihf iha =>
      show Term.app fn'.1.unbind arg'.1.unbind = _
      rw [ihf, iha, unbind]
  | case3 renames id name body s drawn body' ih => exact congrArg (Term.lam (.free name)) ih
  | case4 renames name body s body' ih => exact congrArg (Term.lam (.free name)) ih

/-- `u` is a copy of `t`, and its functions have numbers that are not in use. -/
structure FreshCopy (t u : Term) (s : Supply) : Prop where
  /-- The copy is written like the original. -/
  written : u.unbind = t.unbind
  /-- The copy means what the original means, inside of any functions. -/
  meaning : ∀ scope, u.namelessIn scope = t.namelessIn scope
  /-- No function of the copy has a number in use. -/
  fresh : ∀ i ∈ u.binders, i ∉ s.used

/-- A copy that is made after other numbers have been drawn. -/
theorem freshCopy_refresh {t : Term} {s : Supply} (hs : s.Bounded)
    (ht : ∀ i ∈ t.looseIds, i ∈ s.used) (n : Nat) :
    FreshCopy t (t.refresh [] (s.draw n)).1 s where
  written := unbind_refresh t [] _
  meaning := by
    apply namelessIn_refresh
    intro i hi
    have hlt := hs i (ht i hi)
    rw [Supply.draw_next]
    omega
  fresh i hi hm := by
    have hlt := hs i hm
    rw [binders_refresh, Supply.mem_numbers, Supply.draw_next] at hi
    omega

/-! ## Places -/

/-- What becomes of the part at a place is its own substitution, after some numbers have been
drawn for the parts to its left. -/
theorem exists_at?_substitute {t r : Term} {p : Path} (h : t.at? p = some r) (id : Int)
    (arg : Term) (s : Supply) :
    ∃ n, (t.substitute id arg s).1.at? p = some (r.substitute id arg (s.draw n)).1 := by
  fun_induction at? t p generalizing s with
  | case1 t =>
      cases h
      exact ⟨0, by simp [at?, Supply.draw]⟩
  | case2 fn arg' p ih => exact ih h s
  | case3 fn arg' p ih =>
      obtain ⟨n, hn⟩ := ih h (fn.substitute id arg s).2
      rw [substitute_supply, ← Supply.draw_add] at hn
      exact ⟨_, by rw [← hn, ← substitute_supply]; rfl⟩
  | case4 param body p ih => exact ih h s
  | case5 => cases h

/-- Every function stays where it is, with its parameter. -/
theorem paramAt?_substitute {t : Term} {p : Path} {param : Var} (h : t.paramAt? p = some param)
    (id : Int) (arg : Term) (s : Supply) :
    (t.substitute id arg s).1.paramAt? p = some param := by
  obtain ⟨body, hbody⟩ := paramAt?_eq_some_iff.1 h
  obtain ⟨n, hn⟩ := exists_at?_substitute hbody id arg s
  exact paramAt?_eq_some_iff.2 ⟨_, hn⟩

/-- Any other variable stays where it is. -/
theorem at?_substitute_of_ne {t : Term} {p : Path} {v : Var} {id : Int}
    (h : t.at? p = some (.var v)) (hv : v.id? ≠ some id) (arg : Term) (s : Supply) :
    (t.substitute id arg s).1.at? p = some (.var v) := by
  obtain ⟨n, hn⟩ := exists_at?_substitute h id arg s
  rw [hn]
  cases v with
  | free x => rfl
  | bound i x =>
      have hne : i ≠ id := fun heq => hv (congrArg some heq)
      rw [substitute, if_neg hne]

/-- A variable that is replaced makes room for a copy. -/
theorem exists_at?_substitute_var {t arg : Term} {p : Path} {id : Int} {x : String} {s : Supply}
    (h : t.at? p = some (.var (.bound id x))) (hs : s.Bounded)
    (harg : ∀ i ∈ arg.looseIds, i ∈ s.used) :
    ∃ u, (t.substitute id arg s).1.at? p = some u ∧ FreshCopy arg u s := by
  obtain ⟨n, hn⟩ := exists_at?_substitute h id arg s
  rw [substitute, if_pos rfl] at hn
  exact ⟨_, hn, freshCopy_refresh hs harg n⟩

/-! ## Hygienic redexes -/

/-- The number of the variable that is replaced does not stand in the result. -/
theorem notMem_ids_substitute {id : Int} {name : String} {body arg : Term} {s : Supply}
    (h : (app (lam (.bound id name) body) arg).Hygienic)
    (hk : (app (lam (.bound id name) body) arg).Known s) :
    id ∉ (body.substitute id arg s).1.ids := by
  have hbinder : id ∈ (app (lam (.bound id name) body) arg).binders := List.mem_cons_self ..
  have hlt := (hk id ((mem_ids_iff _ id).2 (.inl hbinder))).2
  have harg : ∀ i ∈ arg.looseIds, i < s.next := by
    intro i hi
    exact (hk i (List.mem_append_right _ ((mem_ids_iff arg i).2 (.inr hi)))).2
  intro hi
  rcases (mem_ids_iff _ id).1 hi with hi | hi
  · rcases mem_binders_substitute hi with hi | hi
    · exact (hygienic_lam_iff.1 h.fn).2.2 id (by simp [Var.id?]) hi
    · have hle := ((Supply.mem_numbers _ s id).1 hi).1
      omega
  · rcases mem_looseIds_substitute harg hi with ⟨-, hne⟩ | hi
    · exact hne rfl
    · exact h.inside id (List.mem_append_right _ hi) hbinder

/-- **Substitution captures nothing.**  Let the numbers of a hygienic redex be in use.  Replacing
the parameter in its body by the argument gives a hygienic term, in which the number of the
parameter is gone, and which means the body with the argument for its outermost variable, inside
of any functions.  Every function of the body keeps its parameter, and every other variable its
place; where the parameter stood, there is a copy of the argument whose functions have numbers
that were not in use.  For each of these copies one number is drawn for each function of the
argument. -/
theorem substitute_avoids_capture (id : Int) (name : String) (body arg : Term) (s : Supply)
    (h : (app (lam (.bound id name) body) arg).Hygienic) (hs : s.Bounded)
    (hused : ∀ i ∈ (app (lam (.bound id name) body) arg).ids, i ∈ s.used) :
    let result := body.substitute id arg s
    result.1.Hygienic ∧ id ∉ result.1.ids ∧
    (∀ scope, result.1.namelessIn scope =
      Nameless.subst (body.namelessIn (some id :: scope)) 0 (arg.namelessIn scope)) ∧
    (∀ p param, body.paramAt? p = some param → result.1.paramAt? p = some param) ∧
    (∀ p v, body.at? p = some (.var v) → v.id? ≠ some id → result.1.at? p = some (.var v)) ∧
    (∀ p x, body.at? p = some (.var (.bound id x)) →
      ∃ copy, result.1.at? p = some copy ∧ FreshCopy arg copy s) ∧
    result.2 = s.draw (body.occurrences id * arg.functions) := by
  intro result
  have hk : (app (lam (.bound id name) body) arg).Known s := by
    intro i hi
    exact ⟨hused i hi, hs i (hused i hi)⟩
  have harg : ∀ i ∈ arg.looseIds, i ∈ s.used := by
    intro i hi
    exact hused i (List.mem_append_right _ ((mem_ids_iff arg i).2 (.inr hi)))
  refine ⟨(evolves_contract h hk).hygienic, notMem_ids_substitute h hk, ?_, ?_, ?_, ?_, ?_⟩
  · exact namelessIn_contract h fun i hi => hs i (harg i hi)
  · intro p param hp
    exact paramAt?_substitute hp id arg s
  · intro p v hp hv
    exact at?_substitute_of_ne hp hv arg s
  · intro p x hp
    exact exists_at?_substitute_var hp hs harg
  · rw [← Numbered.length_binders h.numbered.2]
    exact substitute_supply body id arg s

/-- The theorem at `(λx.λy.x(xz))(λw.wz)`, where `z` is loose: two copies of the argument are
made. -/
theorem substitute_avoids_capture_loose :
    let x : Term := .var (.bound 1 "x")
    let z : Term := .var (.bound 9 "z")
    let body : Term := .lam (.bound 2 "y") (.app x (.app x z))
    let arg : Term := .lam (.bound 3 "w") (.app (.var (.bound 3 "w")) z)
    let s := Supply.ofUsed [1, 2, 3, 9]
    let result := body.substitute 1 arg s
    (app (lam (.bound 1 "x") body) arg).Hygienic ∧ s.Bounded ∧
    result.1.Hygienic ∧ 1 ∉ result.1.ids ∧
    result.1.nameless = .lam (.app (.lam (.app (.index 0) (.loose 9)))
      (.app (.lam (.app (.index 0) (.loose 9))) (.loose 9))) ∧
    (∃ copy, result.1.at? [.body, .arg, .fn] = some copy ∧ FreshCopy arg copy s) ∧
    result.2 = s.draw 2 := by
  intro x z body arg s result
  have h : (app (lam (.bound 1 "x") body) arg).Hygienic := by decide +zetaReduce
  have hs : s.Bounded := Supply.bounded_empty.reserve [1, 2, 3, 9]
  obtain ⟨hclean, hgone, hmeaning, -, -, hcopies, hdrawn⟩ :=
    substitute_avoids_capture 1 "x" body arg s h hs (by decide +zetaReduce)
  exact ⟨h, hs, hclean, hgone, hmeaning [], hcopies [.body, .arg, .fn] "x" rfl, hdrawn⟩

end Term

end UntypedLambda
