import UntypedLambda.Proofs.Names
import UntypedLambda.Term.Hygiene
import UntypedLambda.Term.Printer

/-!
# Terms that can be printed

The printer fails if it is to give up a name that nobody has any more.  This file shows that it
never does for a term in which no function stands inside of another one with the same number,
however its loose variables are spread over it.  Hygienic terms are of this kind, also those
that are parts of a larger one.

* `Names.Consistent` — what the tables of names have in common at all times.
* `Term.Unnested` — no function stands inside of another one with the same number.
* `Term.exists_nameIn` — naming such a term succeeds, in any functions around it.
* `Term.Hygienic.exists_render`, `Line.exists_render` — every hygienic term can be printed, and
  every line with one.
-/

namespace UntypedLambda

namespace Names

/-- Every number that is shown has the name it is shown under. -/
def Consistent (n : Names) : Prop :=
  ∀ i x, n.shown.get? i = some x → n.claims.get? x = some (some i)

/-- The number is shown under some name. -/
def Shows (n : Names) (i : Int) : Prop := ∃ x, n.shown.get? i = some x

theorem consistent_ofFree (free : List String) : (ofFree free).Consistent := by
  intro i x h
  cases h

variable {n : Names}

/-- Nobody else has the name that a number gets. -/
theorem claims_choose (n : Names) (i : Int) (x : String) :
    n.claims.get? (n.choose i x) = none ∨ n.claims.get? (n.choose i x) = some (some i) := by
  unfold choose
  split
  · next hnone => exact .inl hnone
  · next owner howner =>
      split
      · next hown =>
          rw [howner, hown]
          exact .inr rfl
      · have hnot := freeName_notMem n.claims.keys
        rw [Table.mem_keys_iff] at hnot
        rcases hget : n.claims.get? (freeName n.claims.keys) with _ | v
        · exact .inl rfl
        · exact absurd ⟨v, hget⟩ hnot

/-- The name of somebody else is not the one that a number gets. -/
theorem choose_ne {x : String} {owner : Option Int} (h : n.claims.get? x = some owner) {i : Int}
    (hne : owner ≠ some i) (name : String) : n.choose i name ≠ x := by
  rintro rfl
  rcases n.claims_choose i name with hnone | hown
  · rw [hnone] at h
    cases h
  · rw [hown] at h
    exact hne (Option.some.inj h).symm

/-- A number that claims a name is shown, and so are those that were shown before. -/
theorem Consistent.claim (h : n.Consistent) (i : Int) (x : String) :
    (n.claim i x).2.Consistent ∧ ∀ j, j = i ∨ n.Shows j → (n.claim i x).2.Shows j := by
  simp only [Names.claim, Consistent, Shows, Table.get?_put]
  constructor
  · intro j y hj
    split at hj
    · next hij =>
        cases hj
        rw [if_pos rfl, hij]
    · next hij =>
        have hy := h j y hj
        have hne : some j ≠ some i := by simpa using Ne.symm hij
        rw [if_neg (choose_ne hy hne x)]
        exact hy
  · intro j hj
    by_cases hij : i = j
    · exact ⟨_, if_pos hij⟩
    · rw [if_neg hij]
      exact hj.resolve_left (Ne.symm hij)

theorem Consistent.lookup (h : n.Consistent) (i : Int) (x : String) :
    (n.lookup i x).2.Consistent ∧ ∀ j, n.Shows j → (n.lookup i x).2.Shows j := by
  unfold Names.lookup
  split
  · exact ⟨h, fun j hj => hj⟩
  · obtain ⟨hclaim, hshows⟩ := h.claim i x
    exact ⟨hclaim, fun j hj => hshows j (.inr hj)⟩

/-- A number that is shown gives up both of its entries. -/
theorem Consistent.release_of_shown (h : n.Consistent) {id : Int} {x : String}
    (hx : n.shown.get? id = some x) :
    n.release id = (.ok (), ⟨n.claims.erase x, n.shown.erase id⟩) := by
  simp [Names.release, hx, Table.contains, h id x hx]

/-- A number that is shown can give up its name, and the others keep theirs. -/
theorem Consistent.release (h : n.Consistent) {i : Int} (hi : n.Shows i) :
    ∃ n', n.release i = (.ok (), n') ∧ n'.Consistent ∧ ∀ j, j ≠ i → n.Shows j → n'.Shows j := by
  obtain ⟨x, hx⟩ := hi
  have howner := h i x hx
  refine ⟨⟨n.claims.erase x, n.shown.erase i⟩, ?_, ?_, ?_⟩
  · exact h.release_of_shown hx
  · intro j y hj
    rw [Table.get?_erase] at hj ⊢
    split at hj
    · cases hj
    · next hij =>
        have hy := h j y hj
        rw [if_neg]
        · exact hy
        · rintro rfl
          rw [howner] at hy
          cases hy
          exact hij rfl
  · rintro j hij ⟨y, hy⟩
    exact ⟨y, by rw [Table.get?_erase, if_neg (Ne.symm hij), hy]⟩

/-- Numbers that are shown can give up their names one after the other. -/
theorem Consistent.releaseAll (h : n.Consistent) {ids outer : List Int}
    (hnodup : (ids ++ outer).Nodup) (hshows : ∀ i ∈ ids ++ outer, n.Shows i) :
    ∃ n', n.releaseAll ids = .ok n' ∧ n'.Consistent ∧ ∀ i ∈ outer, n'.Shows i := by
  induction ids generalizing n with
  | nil => exact ⟨n, rfl, h, hshows⟩
  | cons i ids ih =>
      obtain ⟨hi, hnodup⟩ := List.nodup_cons.1 hnodup
      obtain ⟨n₁, hrelease, h₁, hkeep⟩ := h.release (hshows i (List.mem_cons_self ..))
      have hshows₁ : ∀ j ∈ ids ++ outer, n₁.Shows j := by
        intro j hj
        refine hkeep j ?_ (hshows j (List.mem_cons_of_mem _ hj))
        rintro rfl
        exact hi hj
      obtain ⟨n', hrest, h', houter⟩ := ih h₁ hnodup hshows₁
      refine ⟨n', ?_, h', houter⟩
      rw [Names.releaseAll, hrelease]
      exact hrest

end Names

namespace Term

/-- No function stands inside of another one with the same number, or with one of the numbers
given. -/
def Unnested (around : List Int) : Term → Prop
  | .var _ => True
  | .app fn arg => fn.Unnested around ∧ arg.Unnested around
  | .lam param body =>
      (∀ i ∈ param.id?.toList, i ∉ around) ∧ body.Unnested (param.id?.toList ++ around)

/-- The numbers of the functions that parameters belong to. -/
def paramIds (params : List Param) : List Int := params.filterMap (·.2)

/-- Leaving functions that are shown succeeds. -/
theorem exists_closeParams {params : List Param} {outer : List Int} {n : Names} (body : Expr)
    (hn : n.Consistent) (hnodup : (paramIds params ++ outer).Nodup)
    (hshows : ∀ i ∈ paramIds params ++ outer, n.Shows i) :
    ∃ e n', closeParams params body n = .ok (e, n') ∧ n'.Consistent ∧ ∀ i ∈ outer, n'.Shows i := by
  have hperm : (paramIds params ++ outer).Perm (params.reverse.filterMap (·.2) ++ outer) := by
    rw [List.filterMap_reverse]
    exact ((List.reverse_perm _).symm).append_right outer
  obtain ⟨n', hrelease, hn', houter⟩ := hn.releaseAll (hperm.nodup_iff.1 hnodup)
    fun i hi => hshows i (hperm.mem_iff.2 hi)
  exact ⟨_, n', by rw [closeParams, hrelease], hn', houter⟩

/-- **Naming succeeds** in functions that are shown, if no function stands inside of another one
with the same number.  The functions further out are still shown afterwards. -/
theorem exists_nameIn {t : Term} (params : List Param) (outer : List Int) {n : Names}
    (ht : t.Unnested (paramIds params ++ outer)) (hn : n.Consistent)
    (hnodup : (paramIds params ++ outer).Nodup)
    (hshows : ∀ i ∈ paramIds params ++ outer, n.Shows i) :
    ∃ e n', t.nameIn params n = .ok (e, n') ∧ n'.Consistent ∧ ∀ i ∈ outer, n'.Shows i := by
  induction t generalizing params outer n with
  | var v =>
      cases v with
      | free x => exact exists_closeParams (.var x) hn hnodup hshows
      | bound i x =>
          obtain ⟨hlookup, hkeep⟩ := hn.lookup i x
          exact exists_closeParams (.var (n.lookup i x).1) hlookup hnodup
            fun j hj => hkeep j (hshows j hj)
  | app fn arg ihf iha =>
      obtain ⟨fn', n₁, hfn, hn₁, hshows₁⟩ :=
        ihf [] (paramIds params ++ outer) ht.1 hn hnodup hshows
      obtain ⟨arg', n₂, harg, hn₂, hshows₂⟩ :=
        iha [] (paramIds params ++ outer) ht.2 hn₁ hnodup hshows₁
      rw [nameIn, hfn]
      simp only
      rw [harg]
      exact exists_closeParams (.app fn' arg') hn₂ hnodup hshows₂
  | lam param body ih =>
      cases param with
      | free x => exact ih ((x, none) :: params) outer ht.2 hn hnodup hshows
      | bound i x =>
          obtain ⟨hclaim, hkeep⟩ := hn.claim i x
          refine ih (((n.claim i x).1, some i) :: params) outer ht.2 hclaim ?_ ?_
          · exact List.nodup_cons.2 ⟨ht.1 i (by simp [Var.id?]), hnodup⟩
          · intro j hj
            exact hkeep j ((List.mem_cons.1 hj).imp_right (hshows j))

/-- A term whose functions all have different numbers has none of them nested. -/
theorem unnested_of_nodup {t : Term} {around : List Int} (h : t.binders.Nodup)
    (hd : ∀ i ∈ t.binders, i ∉ around) : t.Unnested around := by
  induction t generalizing around with
  | var v => trivial
  | app fn arg ihf iha =>
      obtain ⟨hfn, harg, -⟩ := List.nodup_append.1 h
      exact ⟨ihf hfn fun i hi => hd i (List.mem_append_left _ hi),
        iha harg fun i hi => hd i (List.mem_append_right _ hi)⟩
  | lam param body ih =>
      obtain ⟨-, hbody, hdisjoint⟩ := List.nodup_append.1 h
      refine ⟨fun i hi => hd i (List.mem_append_left _ hi), ih hbody ?_⟩
      intro i hi hm
      rcases List.mem_append.1 hm with hm | hm
      · exact hdisjoint i hm i hi rfl
      · exact hd i (List.mem_append_right _ hi) hm

theorem Unnested.exists_render {t : Term} (h : t.Unnested []) : ∃ text, t.render = .ok text := by
  obtain ⟨e, n', hname, -, -⟩ := exists_nameIn [] [] h
    (Names.consistent_ofFree t.freeNames) List.nodup_nil fun i hi => by cases hi
  exact ⟨e.compact, by rw [render, named, hname]; rfl⟩

/-- Every hygienic term can be printed, whether its variables are loose or not. -/
theorem Hygienic.exists_render {t : Term} (h : t.Hygienic) : ∃ text, t.render = .ok text :=
  (unnested_of_nodup h.nodup fun _ _ hm => by cases hm).exists_render

end Term

/-- A line with a hygienic term can be printed. -/
theorem Line.exists_render {line : Line Term} (h : ∀ v, line.term? = some v → v.Hygienic) :
    ∃ text, line.render = .ok text := by
  cases line with
  | empty => exact ⟨"", rfl⟩
  | expression t =>
      obtain ⟨text, htext⟩ := (h t rfl).exists_render
      refine ⟨text, ?_⟩
      rw [Line.render, htext]
      rfl
  | definition name t =>
      obtain ⟨text, htext⟩ := (h t rfl).exists_render
      refine ⟨name ++ " := " ++ text, ?_⟩
      rw [Line.render, htext]
      rfl

end UntypedLambda
