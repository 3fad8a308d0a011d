import UntypedLambda.Proofs.Nameless.Shifting
import UntypedLambda.Proofs.Term.Copying
import UntypedLambda.Reduction

/-!
# What copies and contractions mean

The meaning of a term is its nameless form.  A copy means what the original
means, whatever numbers its functions got.  Substitution by numbers means
substitution of the nameless form, as long as no function of the term has the
number of a variable that is loose in the argument: since the descent does not
look at names, this is all that stands between it and capture.

* `namelessIn_refresh` — a copy means the same.
* `namelessIn_substitute` — substitution means substitution.
* `namelessIn_contract` — contracting a hygienic redex means contracting it.
-/

namespace UntypedLambda

namespace Term

open Nameless

/-! ## Variables in a scope -/

@[simp] theorem namelessVar_cons_self (i : Int) (scope : List (Option Int)) (name : String) :
    namelessVar (some i :: scope) (.bound i name) = .index 0 := by
  simp [namelessVar, List.idxOf?_cons]

/-- A function that does not bind a variable puts it one function further in. -/
theorem namelessVar_cons {d : Option Int} {i : Int} (h : d ≠ some i) (scope : List (Option Int))
    (name : String) :
    namelessVar (d :: scope) (.bound i name) = (namelessVar scope (.bound i name)).shift 0 := by
  simp only [namelessVar, List.idxOf?_cons, beq_false_of_ne h]
  cases scope.idxOf? (some i) with
  | none => rfl
  | some j => rfl

/-- Making room for a function that does not bind the variable. -/
theorem namelessVar_append_cons (inner scope : List (Option Int)) {d : Option Int} {v : Var}
    (h : ∀ i, v.id? = some i → d = some i → some i ∈ inner) :
    namelessVar (inner ++ d :: scope) v = (namelessVar (inner ++ scope) v).shift inner.length := by
  cases v with
  | free name => rfl
  | bound i name =>
      induction inner with
      | nil => exact namelessVar_cons (fun hd => by simpa using h i rfl hd) scope name
      | cons c inner ih =>
          by_cases hc : c = some i
          · subst hc
            simp [shift]
          · have hinner : ∀ j, (Var.bound i name).id? = some j → d = some j → some j ∈ inner := by
              intro j hj hd
              obtain rfl : i = j := by simpa [Var.id?] using hj
              exact (List.mem_cons.1 (h i rfl hd)).resolve_left (Ne.symm hc)
            rw [List.cons_append, List.cons_append, namelessVar_cons hc, namelessVar_cons hc,
              ih hinner, List.length_cons, shift_shift _ (Nat.zero_le _)]

/-- A variable is found behind functions that do not bind it. -/
theorem namelessVar_append_self {inner : List (Option Int)} {i : Int} (h : some i ∉ inner)
    (scope : List (Option Int)) (name : String) :
    namelessVar (inner ++ some i :: scope) (.bound i name) = .index inner.length := by
  induction inner with
  | nil => exact namelessVar_cons_self i scope name
  | cons c inner ih =>
      have hc : c ≠ some i := fun hc => h (by simp [hc])
      rw [List.cons_append, namelessVar_cons hc, ih fun hm => h (List.mem_cons_of_mem _ hm)]
      rfl

/-! ## Terms in a scope -/

/-- Making room for a function that binds nothing in the term. -/
theorem namelessIn_append_cons (t : Term) (inner scope : List (Option Int)) {d : Option Int}
    (h : ∀ i ∈ t.looseIds, d = some i → some i ∈ inner) :
    t.namelessIn (inner ++ d :: scope) = (t.namelessIn (inner ++ scope)).shift inner.length := by
  induction t generalizing inner with
  | var v => exact namelessVar_append_cons inner scope fun i hi => h i (by simp [looseIds, hi])
  | app fn arg ihf iha =>
      simp only [namelessIn, shift]
      rw [ihf inner fun i hi => h i (List.mem_append_left _ hi),
        iha inner fun i hi => h i (List.mem_append_right _ hi)]
  | lam param body ih =>
      have hinner : ∀ i ∈ body.looseIds, d = some i → some i ∈ param.id? :: inner := by
        intro i hi hd
        by_cases hp : param.id? = some i
        · simp [hp]
        · exact List.mem_cons_of_mem _ (h i (mem_looseIds_lam.2 ⟨hi, hp⟩) hd)
      simp only [namelessIn, shift]
      exact congrArg Nameless.lam (ih (param.id? :: inner) hinner)

/-- Inside of one more function that binds nothing in the term. -/
theorem namelessIn_cons {t : Term} {d : Option Int} (scope : List (Option Int))
    (h : ∀ i ∈ t.looseIds, d ≠ some i) : t.namelessIn (d :: scope) = (t.namelessIn scope).shift 0 :=
  namelessIn_append_cons t [] scope fun i hi hd => absurd hd (h i hi)

/-! ## Copies -/

/-- A renumbered copy means in one scope what the original means in another, if
the loose variables do. -/
theorem namelessIn_refresh_of_lt {t : Term} {renames : List (Int × Int)} {s : Supply}
    {scope scope' : List (Option Int)} (hlt : ∀ i ∈ t.looseIds, renumber renames i < s.next)
    (h : ∀ i ∈ t.looseIds, ∀ name, namelessVar scope' (.bound (renumber renames i) name) =
      namelessVar scope (.bound i name)) :
    (t.refresh renames s).1.namelessIn scope' = t.namelessIn scope := by
  induction t generalizing renames s scope scope' with
  | var v =>
      cases v with
      | free name => rfl
      | bound i name => exact h i (by simp [looseIds, Var.id?]) name
  | app fn arg ihf iha =>
      have hf := ihf (fun i hi => hlt i (List.mem_append_left _ hi))
        fun i hi => h i (List.mem_append_left _ hi)
      have hlt' : ∀ i ∈ arg.looseIds, renumber renames i < (fn.refresh renames s).2.next := by
        intro i hi
        exact Int.lt_of_lt_of_le (hlt i (List.mem_append_right _ hi)) (next_le_refresh fn renames s)
      have ha := iha hlt' fun i hi => h i (List.mem_append_right _ hi)
      simp only [refresh, namelessIn, hf, ha]
  | lam param body ih =>
      cases param with
      | free name =>
          simp only [looseIds_lam_free] at hlt h
          refine congrArg Nameless.lam (ih hlt fun i hi x => ?_)
          rw [namelessVar_cons (by simp [Var.id?]), namelessVar_cons (by simp [Var.id?]), h i hi]
      | bound id name =>
          have hloose : ∀ i ∈ body.looseIds, i ≠ id →
              i ∈ (lam (.bound id name) body).looseIds := by
            intro i hi hne
            exact mem_looseIds_lam.2 ⟨hi, by simpa [Var.id?] using Ne.symm hne⟩
          refine congrArg Nameless.lam (ih ?_ ?_)
          · intro i hi
            rw [renumber_cons]
            split
            · exact Int.lt_succ _
            · next hne =>
                have := hlt i (hloose i hi hne)
                rw [Supply.fresh_next]
                omega
          · intro i hi x
            rw [renumber_cons]
            by_cases hne : i = id
            · subst hne
              simp [Var.id?]
            · -- the fresh number is not the one that the loose variable is renumbered to
              have hlt' := hlt i (hloose i hi hne)
              have hn : some s.next ≠ some (renumber renames i) := by
                simpa using Ne.symm (Int.ne_of_lt hlt')
              rw [if_neg hne]
              show namelessVar (some s.next :: scope') _ = namelessVar (some id :: scope) _
              rw [namelessVar_cons hn, namelessVar_cons (by simpa using Ne.symm hne),
                h i (hloose i hi hne)]

/-- A copy means what the original means. -/
theorem namelessIn_refresh {t : Term} {s : Supply} (h : ∀ i ∈ t.looseIds, i < s.next)
    (scope : List (Option Int)) : (t.refresh [] s).1.namelessIn scope = t.namelessIn scope :=
  namelessIn_refresh_of_lt (by simpa using h) (by simp)

/-! ## Substitution -/

/-- Substitution by numbers means substitution of the nameless form.  `inner` are
the functions of the term that have been entered; none of them, and none that are
still to come, may bind the variable that is replaced or one that is loose in the
argument. -/
theorem namelessIn_substitute {t : Term} {id : Int} {arg : Term} {s : Supply}
    (inner scope : List (Option Int)) (hlt : ∀ i ∈ arg.looseIds, i < s.next)
    (hid : some id ∉ inner) (hidt : id ∉ t.binders) (harg : ∀ i ∈ arg.looseIds, i ∉ t.binders) :
    (t.substitute id arg s).1.namelessIn (inner ++ scope) =
      (t.namelessIn (inner ++ some id :: scope)).subst inner.length
        (arg.namelessIn (inner ++ scope)) := by
  fun_induction substitute t id arg s generalizing inner with
  | case1 s name =>
      rw [namelessIn_refresh hlt, namelessIn, namelessVar_append_self hid, subst_index_self]
  | case2 s i name hne =>
      rw [namelessIn, namelessIn, namelessVar_append_cons inner scope, subst_shift]
      intro j hj hd
      obtain rfl : i = j := by simpa [Var.id?] using hj
      exact absurd (Option.some.inj hd).symm hne
  | case3 s name => rfl
  | case4 s fn body fn' body' ihf ihb =>
      simp only [binders, List.mem_append, not_or] at hidt harg
      have hf := ihf inner hlt hid hidt.1 fun i hi => (harg i hi).1
      have hlt' : ∀ i ∈ arg.looseIds, i < (fn.substitute id arg s).2.next := by
        intro i hi
        exact Int.lt_of_lt_of_le (hlt i hi) (next_le_substitute fn id arg s)
      have hb := ihb inner hlt' hid hidt.2 fun i hi => (harg i hi).2
      show Nameless.app _ _ = Nameless.app _ _
      rw [hf, hb]
  | case5 s param body body' ih =>
      simp only [binders, List.mem_append, not_or, Option.mem_toList] at hidt harg
      have hb := ih (param.id? :: inner) hlt (by simp [hid, Ne.symm hidt.1]) hidt.2
        fun i hi => (harg i hi).2
      have harg' := namelessIn_cons (inner ++ scope) fun i hi => (harg i hi).1
      rw [← List.cons_append] at harg'
      rw [harg'] at hb
      exact congrArg Nameless.lam hb

/-- Contracting a hygienic redex means contracting it. -/
theorem namelessIn_contract {param : Var} {body arg : Term} {s : Supply}
    (h : (app (lam param body) arg).Hygienic) (hlt : ∀ i ∈ arg.looseIds, i < s.next)
    (scope : List (Option Int)) :
    (contract param body arg s).1.namelessIn scope =
      Nameless.contract (body.namelessIn (param.id? :: scope)) (arg.namelessIn scope) := by
  cases param with
  | free name => exact absurd h.numbered.1.1 (by simp [Var.id?])
  | bound id name =>
      have hnodup := (List.nodup_append.1 h.nodup).1
      refine namelessIn_substitute [] scope hlt (by simp) ?_ ?_
      · exact (List.nodup_cons.1 hnodup).1
      · intro i hi hb
        exact h.inside i (List.mem_append_right _ hi)
          (List.mem_append_left _ (List.mem_append_right _ hb))

end Term

end UntypedLambda
