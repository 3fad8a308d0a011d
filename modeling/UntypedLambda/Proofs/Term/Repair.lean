import UntypedLambda.Proofs.Term.Substitution

/-!
# Copies of terms that are not hygienic

Copying does not rely on different functions having different numbers.  In a term where a number
is used again, a variable is taken to belong to the innermost function with its number; a copy
keeps this, and gives every function a number of its own.  So whatever the numbers of a term are
like, its copy is hygienic.

* `Term.exists_at?_refresh` — the part at a place is copied by itself, except for the numbers of
  the functions around it.
* `Term.hygienic_refresh` — every copy is hygienic.
* `Term.exists_referent_refresh` — a variable of the copy belongs to the function that it belongs
  to in the original.
* `Term.refresh_repairs` — what copying does to a term with any numbers.
-/

namespace UntypedLambda

namespace Term

/-- The part at a place is copied with the numbers given to the functions around it, after some
numbers have been drawn for the parts to its left. -/
theorem exists_at?_refresh {t r : Term} {p : Path} (h : t.at? p = some r)
    (renames : List (Int × Int)) (s : Supply) :
    ∃ renames' n, (t.refresh renames s).1.at? p = some (r.refresh renames' (s.draw n)).1 := by
  fun_induction at? t p generalizing renames s with
  | case1 t =>
      cases h
      exact ⟨renames, 0, by simp [at?, Supply.draw]⟩
  | case2 fn arg p ih => exact ih h renames s
  | case3 fn arg p ih =>
      obtain ⟨renames', n, hn⟩ := ih h renames (fn.refresh renames s).2
      rw [refresh_supply, ← Supply.draw_add] at hn
      exact ⟨renames', _, by rw [← hn, ← refresh_supply]; rfl⟩
  | case4 param body p ih =>
      cases param with
      | free name => exact ih h renames s
      | bound id name =>
          obtain ⟨renames', n, hn⟩ := ih h ((id, s.fresh.1) :: renames) s.fresh.2
          exact ⟨renames', n + 1, hn⟩
  | case5 => cases h

/-- A copy is hygienic, whether the term is or not. -/
theorem hygienic_refresh {t : Term} {s : Supply} (ht : t.Numbered)
    (h : ∀ i ∈ t.looseIds, i < s.next) : (t.refresh [] s).1.Hygienic where
  numbered := numbered_refresh ht [] s
  nodup := by
    rw [binders_refresh]
    exact Supply.nodup_numbers _ s
  inside i hi hb := by
    rw [looseIds_refresh h] at hi
    rw [binders_refresh, Supply.mem_numbers] at hb
    have hlt := h i hi
    omega

/-! ## Variables and their functions -/

/-- Two variables that mean the same, each one among the functions around it: the second belongs to
the function at the place of the first one's innermost function, and if the first has none they
have the same number. -/
theorem referent_of_namelessVar {scope scope' : List (Option Int)} {i j : Int} {x : String}
    (h : namelessVar scope' (.bound j x) = namelessVar scope (.bound i x)) :
    (some i ∉ scope → j = i) ∧ ∀ k, scope.idxOf? (some i) = some k → scope'[k]? = some (some j) := by
  simp only [namelessVar] at h
  constructor
  · intro hi
    rw [List.idxOf?_eq_none_iff.2 hi] at h
    split at h
    · cases h
    · exact Nameless.loose.inj h
  · intro k hk
    rw [hk] at h
    split at h
    · next k' hk' =>
        obtain rfl := Nameless.index.inj h
        obtain ⟨hlt, hget, -⟩ := List.idxOf?_eq_some_iff.1 hk'
        rw [List.getElem?_eq_getElem hlt, hget]
    · cases h

/-- In a copy, a variable stands where it stood.  It belongs to the function that stands where the
innermost function with its number stood, and keeps its number if there was none. -/
theorem exists_referent_refresh {t : Term} {s : Supply} (h : ∀ i ∈ t.looseIds, i < s.next)
    {p : Path} {i : Int} {x : String} (hp : t.at? p = some (.var (.bound i x))) :
    ∃ j, (t.refresh [] s).1.at? p = some (.var (.bound j x)) ∧
      (some i ∉ t.scopeAt p [] → j = i) ∧
      ∀ k, (t.scopeAt p []).idxOf? (some i) = some k →
        ((t.refresh [] s).1.scopeAt p [])[k]? = some (some j) := by
  obtain ⟨renames, n, hcopy⟩ := exists_at?_refresh hp [] s
  have hmeaning : (t.refresh [] s).1.nameless = t.nameless := namelessIn_refresh h []
  have hplace := congrArg (·.at? p) hmeaning
  simp only [nameless, at?_namelessIn hcopy, at?_namelessIn hp, Option.some.injEq] at hplace
  exact ⟨renumber renames i, hcopy, referent_of_namelessVar hplace⟩

/-! ## Whole terms -/

/-- **Copying repairs a term.**  Let every function of a term have a number, which others may have
as well, and let the numbers in the term be in use.  A copy is written like the term and means the
same, inside of any functions: each variable belongs to the function that stands where the
innermost function with its number stood, and keeps its number if there was none.  The functions
of the copy have the next numbers in order, from left to right, each one before its body; these
are all different and were not in use, and nothing else has been drawn.  So the copy is
hygienic. -/
theorem refresh_repairs (t : Term) (s : Supply) (ht : t.Numbered) (hs : s.Bounded)
    (hused : ∀ i ∈ t.ids, i ∈ s.used) :
    let copy := t.refresh [] s
    copy.1.unbind = t.unbind ∧
    (∀ scope, copy.1.namelessIn scope = t.namelessIn scope) ∧
    (∀ p i x, t.at? p = some (.var (.bound i x)) →
      ∃ j, copy.1.at? p = some (.var (.bound j x)) ∧
        (some i ∉ t.scopeAt p [] → j = i) ∧
        ∀ k, (t.scopeAt p []).idxOf? (some i) = some k →
          (copy.1.scopeAt p [])[k]? = some (some j)) ∧
    copy.1.binders = ((List.range t.functions).map fun k : Nat => s.next + k) ∧
    copy.1.binders.Nodup ∧ (∀ i ∈ copy.1.binders, i ∉ s.used) ∧
    copy.1.Hygienic ∧ copy.2 = s.draw t.functions := by
  intro copy
  have hlt : ∀ i ∈ t.looseIds, i < s.next := by
    intro i hi
    exact hs i (hused i ((mem_ids_iff t i).2 (.inr hi)))
  have hbinders : copy.1.binders = s.numbers t.functions := by
    rw [binders_refresh, ht.length_binders]
  refine ⟨unbind_refresh t [] s, namelessIn_refresh hlt, ?_, ?_, ?_, ?_, ?_, ?_⟩
  · intro p i x hp
    exact exists_referent_refresh hlt hp
  · rw [hbinders, Supply.numbers_eq_map_range]
  · rw [hbinders]
    exact Supply.nodup_numbers _ s
  · intro i hi
    rw [hbinders] at hi
    exact hs.notMem_used hi
  · exact hygienic_refresh ht hlt
  · rw [refresh_supply, ht.length_binders]

/-- The theorem at `λx.(λx.xz)x`, where both functions have number 1 and `z` is loose: in the copy
they have numbers 6 and 7, and each `x` belongs to the nearest one. -/
theorem refresh_repairs_repeated :
    let x : Term := .var (.bound 1 "x")
    let z : Term := .var (.bound 5 "z")
    let t : Term := .lam (.bound 1 "x") (.app (.lam (.bound 1 "x") (.app x z)) x)
    let s := Supply.ofUsed [1, 5]
    let copy := t.refresh [] s
    t.Numbered ∧ ¬t.Hygienic ∧ s.Bounded ∧ (∀ i ∈ t.ids, i ∈ s.used) ∧
    copy.1.binders = [6, 7] ∧ copy.1.Hygienic ∧
    copy.1.nameless = .lam (.app (.lam (.app (.index 0) (.loose 5))) (.index 0)) ∧
    (∃ j, copy.1.at? [.body, .arg] = some (.var (.bound j "x")) ∧
      (copy.1.scopeAt [.body, .arg] [])[0]? = some (some j)) := by
  intro x z t s copy
  have ht : t.Numbered := by decide +zetaReduce
  have hs : s.Bounded := Supply.bounded_empty.reserve [1, 5]
  have hused : ∀ i ∈ t.ids, i ∈ s.used := by decide +zetaReduce
  obtain ⟨-, hmeaning, hvars, hbinders, -, -, hclean, -⟩ := refresh_repairs t s ht hs hused
  obtain ⟨j, hj, -, hfunction⟩ := hvars [.body, .arg] 1 "x" rfl
  exact ⟨ht, by decide +zetaReduce, hs, hused, hbinders, hclean, hmeaning [], j, hj,
    hfunction 0 rfl⟩

end Term

end UntypedLambda
