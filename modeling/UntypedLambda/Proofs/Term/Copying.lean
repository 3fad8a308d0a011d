import UntypedLambda.Proofs.Supply
import UntypedLambda.Term.Copy
import UntypedLambda.Term.Hygiene

/-!
# Copies and substitution: functions, variables and numbers

What copying and substituting do to the numbers of a term: which functions the
result has, which of its variables are loose, and how many numbers were drawn; and
where the names in the result come from.

* `binders_refresh`, `looseIds_refresh` — a copy has fresh functions, and the
  loose variables of the original.
* `mem_binders_substitute`, `mem_looseIds_substitute` — every function of the
  result of a substitution is one of the original or fresh, and every loose
  variable was loose in the original or in the argument.
* `names_refresh`, `mem_names_substitute` — no name is new.
-/

namespace UntypedLambda

@[simp] theorem renumber_nil (i : Int) : renumber [] i = i := rfl

theorem renumber_cons (old new : Int) (renames : List (Int × Int)) (i : Int) :
    renumber ((old, new) :: renames) i = if i = old then new else renumber renames i := by
  unfold renumber
  rw [List.lookup_cons]
  by_cases h : i = old
  · simp [h]
  · rw [if_neg h, beq_false_of_ne h]

/-- Under a function that is renumbered from `old` to `new`, what is loose outside
of it is renumbered as outside. -/
theorem filter_map_renumber {old new : Int} {renames : List (Int × Int)} {ids : List Int}
    (h : ∀ i ∈ ids, i ≠ old → renumber renames i ≠ new) :
    ((ids.map (renumber ((old, new) :: renames))).filter fun i => decide (some new ≠ some i)) =
      (ids.filter fun i => decide (some old ≠ some i)).map (renumber renames) := by
  induction ids with
  | nil => rfl
  | cons i ids ih =>
      have ih := ih fun j hj => h j (List.mem_cons_of_mem _ hj)
      rw [List.map_cons, renumber_cons]
      by_cases hi : i = old
      · rw [if_pos hi, List.filter_cons_of_neg (by simp), ih,
          List.filter_cons_of_neg (by simp [hi])]
      · have hne := h i (List.mem_cons_self ..) hi
        rw [if_neg hi, List.filter_cons_of_pos (by simpa using Ne.symm hne), ih,
          List.filter_cons_of_pos (by simpa using Ne.symm hi), List.map_cons]

namespace Term

@[simp] theorem mem_looseIds_lam {param : Var} {body : Term} {i : Int} :
    i ∈ (lam param body).looseIds ↔ i ∈ body.looseIds ∧ param.id? ≠ some i := by
  simp [looseIds]

@[simp] theorem looseIds_lam_free (name : String) (body : Term) :
    (lam (.free name) body).looseIds = body.looseIds := by
  simp [looseIds, Var.id?]

/-! ## Copies -/

/-- A copy draws one number for each function. -/
@[simp] theorem refresh_supply (t : Term) (renames : List (Int × Int)) (s : Supply) :
    (t.refresh renames s).2 = s.draw t.binders.length := by
  fun_induction refresh renames t s with
  | case1 renames v s => rfl
  | case2 renames fn arg s fn' arg' ihf iha =>
      show arg'.2 = _
      rw [iha, ihf, binders, List.length_append, Supply.draw_add]
  | case3 renames id name body s drawn body' ih =>
      show body'.2 = _
      rw [ih]
      rfl
  | case4 renames name body s body' ih => exact ih

theorem next_le_refresh (t : Term) (renames : List (Int × Int)) (s : Supply) :
    s.next ≤ (t.refresh renames s).2.next := by
  rw [refresh_supply, Supply.draw_next]
  omega

/-- The functions of a copy have the numbers drawn for them, from left to right. -/
@[simp] theorem binders_refresh (t : Term) (renames : List (Int × Int)) (s : Supply) :
    (t.refresh renames s).1.binders = s.numbers t.binders.length := by
  fun_induction refresh renames t s with
  | case1 renames v s => rfl
  | case2 renames fn arg s fn' arg' ihf iha =>
      show fn'.1.binders ++ arg'.1.binders = _
      rw [ihf, iha, refresh_supply, binders, List.length_append, Supply.numbers_add]
  | case3 renames id name body s drawn body' ih =>
      show drawn.1 :: body'.1.binders = _
      rw [ih]
      rfl
  | case4 renames name body s body' ih => exact ih

theorem numbered_refresh {t : Term} (h : t.Numbered) (renames : List (Int × Int)) (s : Supply) :
    (t.refresh renames s).1.Numbered := by
  fun_induction refresh renames t s with
  | case1 renames v s => trivial
  | case2 renames fn arg s fn' arg' ihf iha => exact ⟨ihf h.1, iha h.2⟩
  | case3 renames id name body s drawn body' ih => exact ⟨rfl, ih h.2⟩
  | case4 renames name body s body' ih => exact absurd h.1 (by simp [Var.id?])

/-- A copy has the free names of the original. -/
@[simp] theorem freeNames_refresh (t : Term) (renames : List (Int × Int)) (s : Supply) :
    (t.refresh renames s).1.freeNames = t.freeNames := by
  fun_induction refresh renames t s with
  | case1 renames v s => cases v <;> rfl
  | case2 renames fn arg s fn' arg' ihf iha =>
      show fn'.1.freeNames ++ arg'.1.freeNames = _
      rw [ihf, iha, freeNames]
  | case3 renames id name body s drawn body' ih => exact ih
  | case4 renames name body s body' ih => exact ih

/-- A copy is written with the names of the original. -/
@[simp] theorem names_refresh (t : Term) (renames : List (Int × Int)) (s : Supply) :
    (t.refresh renames s).1.names = t.names := by
  fun_induction refresh renames t s with
  | case1 renames v s => cases v <;> rfl
  | case2 renames fn arg s fn' arg' ihf iha =>
      show fn'.1.names ++ arg'.1.names = _
      rw [ihf, iha, names]
  | case3 renames id name body s drawn body' ih => exact congrArg (name :: ·) ih
  | case4 renames name body s body' ih => exact congrArg (name :: ·) ih

/-- The loose variables of a copy are those of the original, renumbered.  The
numbers they get must not be among those drawn for the functions. -/
theorem looseIds_refresh_of_lt {t : Term} {renames : List (Int × Int)} {s : Supply}
    (h : ∀ i ∈ t.looseIds, renumber renames i < s.next) :
    (t.refresh renames s).1.looseIds = t.looseIds.map (renumber renames) := by
  fun_induction refresh renames t s with
  | case1 renames v s => cases v <;> rfl
  | case2 renames fn arg s fn' arg' ihf iha =>
      show fn'.1.looseIds ++ arg'.1.looseIds = _
      have hlt : ∀ i ∈ arg.looseIds, renumber renames i < fn'.2.next := by
        intro i hi
        exact Int.lt_of_lt_of_le (h i (List.mem_append_right _ hi)) (next_le_refresh fn renames s)
      rw [ihf fun i hi => h i (List.mem_append_left _ hi), iha hlt, looseIds, List.map_append]
  | case3 renames id name body s drawn body' ih =>
      have hlt : ∀ i ∈ body.looseIds, i ≠ id → renumber renames i < s.next := by
        intro i hi hne
        exact h i (by simp [Var.id?, hi, Ne.symm hne])
      have hb : ∀ i ∈ body.looseIds,
          renumber ((id, drawn.1) :: renames) i < drawn.2.next := by
        intro i hi
        rw [renumber_cons, Supply.fresh_next]
        split
        · exact Int.lt_succ _
        · next hne =>
            have := hlt i hi hne
            omega
      show (body'.1.looseIds.filter fun i => decide (some drawn.1 ≠ some i)) = _
      rw [ih hb]
      refine filter_map_renumber ?_
      intro i hi hne heq
      exact absurd (hlt i hi hne) (by simp [heq, drawn])
  | case4 renames name body s body' ih =>
      simp only [looseIds_lam_free] at h ⊢
      exact ih h

/-- A copy has the loose variables of the original. -/
theorem looseIds_refresh {t : Term} {s : Supply} (h : ∀ i ∈ t.looseIds, i < s.next) :
    (t.refresh [] s).1.looseIds = t.looseIds := by
  rw [looseIds_refresh_of_lt (by simpa using h)]
  exact List.map_id _

/-! ## Substitution -/

/-- How often a variable with number `id` stands in a term. -/
def occurrences (id : Int) : Term → Nat
  | .var v => if v.id? = some id then 1 else 0
  | .app fn arg => fn.occurrences id + arg.occurrences id
  | .lam _ body => body.occurrences id

/-- Each occurrence that is replaced draws one number for each function of the
argument. -/
@[simp] theorem substitute_supply (t : Term) (id : Int) (arg : Term) (s : Supply) :
    (t.substitute id arg s).2 = s.draw (t.occurrences id * arg.binders.length) := by
  fun_induction substitute t id arg s with
  | case1 s name => simp [occurrences, Var.id?]
  | case2 s i name h => simp [occurrences, Var.id?, h, Supply.draw]
  | case3 s name => simp [occurrences, Var.id?, Supply.draw]
  | case4 s fn body fn' body' ihf ihb =>
      show body'.2 = _
      rw [ihb, ihf, occurrences, Nat.add_mul, Supply.draw_add]
  | case5 s param body body' ih => exact ih

theorem next_le_substitute (t : Term) (id : Int) (arg : Term) (s : Supply) :
    s.next ≤ (t.substitute id arg s).2.next := by
  rw [substitute_supply, Supply.draw_next]
  omega

theorem numbered_substitute {t arg : Term} (ht : t.Numbered) (ha : arg.Numbered) (id : Int)
    (s : Supply) : (t.substitute id arg s).1.Numbered := by
  fun_induction substitute t id arg s with
  | case1 s name => exact numbered_refresh ha [] s
  | case2 s i name h => trivial
  | case3 s name => trivial
  | case4 s fn body fn' body' ihf ihb => exact ⟨ihf ht.1, ihb ht.2⟩
  | case5 s param body body' ih => exact ⟨ht.1, ih ht.2⟩

/-- A function of the result is one of the term, or was drawn. -/
theorem mem_binders_substitute {t : Term} {id : Int} {arg : Term} {s : Supply} {i : Int}
    (h : i ∈ (t.substitute id arg s).1.binders) :
    i ∈ t.binders ∨ i ∈ s.numbers (t.occurrences id * arg.binders.length) := by
  fun_induction substitute t id arg s with
  | case1 s name =>
      rw [binders_refresh] at h
      exact .inr (by simpa [occurrences, Var.id?] using h)
  | case2 s i name h' => cases h
  | case3 s name => cases h
  | case4 s fn body fn' body' ihf ihb =>
      rw [occurrences, Nat.add_mul, Supply.numbers_add, binders, List.mem_append, List.mem_append]
      rcases List.mem_append.1 h with hf | hb
      · exact (ihf hf).imp .inl .inl
      · have := ihb hb
        rw [substitute_supply] at this
        exact this.imp .inr .inr
  | case5 s param body body' ih =>
      rw [binders, List.mem_append, or_assoc]
      rcases List.mem_append.1 h with hp | hb
      · exact .inl hp
      · exact .inr (ih hb)

/-- If no two functions of the term share a number, and all have been handed out,
then no two functions of the result share a number. -/
theorem nodup_binders_substitute {t : Term} {s : Supply} (id : Int) (arg : Term)
    (h : t.binders.Nodup) (hlt : ∀ i ∈ t.binders, i < s.next) :
    (t.substitute id arg s).1.binders.Nodup := by
  fun_induction substitute t id arg s with
  | case1 s name =>
      rw [binders_refresh]
      exact Supply.nodup_numbers _ _
  | case2 s i name h' => exact List.nodup_nil
  | case3 s name => exact List.nodup_nil
  | case4 s fn body fn' body' ihf ihb =>
      obtain ⟨hf, hb, -⟩ := List.nodup_append.1 h
      have hfn := ihf hf fun i hi => hlt i (List.mem_append_left _ hi)
      have hbody := ihb hb fun i hi => Int.lt_of_lt_of_le (hlt i (List.mem_append_right _ hi))
        (next_le_substitute fn id arg s)
      exact Supply.nodup_append_of_drawn h hlt (substitute_supply fn id arg s) hfn
        (fun i => mem_binders_substitute) hbody fun i => mem_binders_substitute
  | case5 s param body body' ih =>
      obtain ⟨hp, hb, -⟩ := List.nodup_append.1 h
      have hbody := ih hb fun i hi => hlt i (List.mem_append_right _ hi)
      exact Supply.nodup_append_of_drawn (m := 0) h hlt rfl hp (fun i => .inl) hbody
        fun i => mem_binders_substitute

/-- A loose variable of the result was loose in the term, and is not the one that
was replaced, or it was loose in the argument. -/
theorem mem_looseIds_substitute {t : Term} {id : Int} {arg : Term} {s : Supply} {i : Int}
    (hlt : ∀ j ∈ arg.looseIds, j < s.next) (h : i ∈ (t.substitute id arg s).1.looseIds) :
    i ∈ t.looseIds ∧ i ≠ id ∨ i ∈ arg.looseIds := by
  fun_induction substitute t id arg s with
  | case1 s name =>
      rw [looseIds_refresh hlt] at h
      exact .inr h
  | case2 s j name hne =>
      obtain rfl : i = j := by simpa [looseIds, Var.id?] using h
      exact .inl ⟨h, hne⟩
  | case3 s name => cases h
  | case4 s fn body fn' body' ihf ihb =>
      rw [looseIds, List.mem_append, or_and_right]
      rcases List.mem_append.1 h with hf | hb
      · exact (ihf hlt hf).imp_left .inl
      · refine (ihb ?_ hb).imp_left .inr
        intro j hj
        exact Int.lt_of_lt_of_le (hlt j hj) (next_le_substitute fn id arg s)
  | case5 s param body body' ih =>
      obtain ⟨hb, hp⟩ := mem_looseIds_lam.1 h
      rw [mem_looseIds_lam, and_right_comm]
      exact (ih hlt hb).imp_left fun h => ⟨h, hp⟩

/-- A free name of the result was free in the term or in the argument. -/
theorem mem_freeNames_substitute {t : Term} {id : Int} {arg : Term} {s : Supply} {x : String}
    (h : x ∈ (t.substitute id arg s).1.freeNames) : x ∈ t.freeNames ∨ x ∈ arg.freeNames := by
  fun_induction substitute t id arg s with
  | case1 s name =>
      rw [freeNames_refresh] at h
      exact .inr h
  | case2 s j name hne => cases h
  | case3 s name => exact .inl h
  | case4 s fn body fn' body' ihf ihb =>
      rw [freeNames, List.mem_append]
      rcases List.mem_append.1 h with hf | hb
      · exact (ihf hf).imp_left .inl
      · exact (ihb hb).imp_left .inr
  | case5 s param body body' ih => exact ih h

/-- A name in the result is one of the term or of the argument. -/
theorem mem_names_substitute {t : Term} {id : Int} {arg : Term} {s : Supply} {x : String}
    (h : x ∈ (t.substitute id arg s).1.names) : x ∈ t.names ∨ x ∈ arg.names := by
  fun_induction substitute t id arg s with
  | case1 s name =>
      rw [names_refresh] at h
      exact .inr h
  | case2 s j name hne => exact .inl h
  | case3 s name => exact .inl h
  | case4 s fn body fn' body' ihf ihb =>
      rw [names, List.mem_append]
      rcases List.mem_append.1 h with hf | hb
      · exact (ihf hf).imp_left .inl
      · exact (ihb hb).imp_left .inr
  | case5 s param body body' ih =>
      rw [names, List.mem_cons, or_assoc]
      exact (List.mem_cons.1 h).imp_right ih

end Term

end UntypedLambda
