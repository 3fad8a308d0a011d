import UntypedLambda.Names
import UntypedLambda.Proofs.Context
import UntypedLambda.Proofs.DisplayName

/-!
# The tables of names

While a term is printed, two tables say who is shown under which name.  This file
describes them by the free names of the term and by the functions around the current
place.

* `showName` — the name that a function gets.
* `Names.Holds` — the tables list exactly the free names and the functions.
* `Names.Holds.claim`, `Names.Holds.releaseAll` — entering a function adds it to them,
  and leaving functions takes them out again.
-/

namespace UntypedLambda

/-- The name that is shown for a preferred one, if those given are taken. -/
def showName (taken : List String) (x : String) : String :=
  if x ∈ taken then freeName taken else x

theorem showName_notMem (taken : List String) (x : String) : showName taken x ∉ taken := by
  unfold showName
  split
  · exact freeName_notMem taken
  · next h => exact h

theorem showName_of_notMem {taken : List String} {x : String} (h : x ∉ taken) :
    showName taken x = x :=
  if_neg h

/-- The functions of the context have different numbers and different names, and none
of them has a name that is free. -/
structure Context.Proper (free : List String) (ctx : Context) : Prop where
  /-- No two functions share a number. -/
  ids : ctx.ids.Nodup
  /-- No two functions share a name. -/
  names : ctx.names.Nodup
  /-- No function has a free name. -/
  notFree : ∀ x ∈ ctx.names, x ∉ free

theorem Context.proper_nil (free : List String) : Context.Proper free [] :=
  ⟨List.nodup_nil, List.nodup_nil, fun _ h => by cases h⟩

theorem Context.Proper.enter {free : List String} {ctx : Context} (h : ctx.Proper free) {i : Int}
    {x : String} (hi : i ∉ ctx.ids) (hx : x ∉ free ++ ctx.names) :
    Context.Proper free ((i, x) :: ctx) := by
  rw [List.mem_append, not_or] at hx
  refine ⟨List.nodup_cons.2 ⟨hi, h.ids⟩, List.nodup_cons.2 ⟨hx.2, h.names⟩, fun y hy => ?_⟩
  rcases List.mem_cons.1 hy with rfl | hy
  · exact hx.1
  · exact h.notFree y hy

/-! ## Taking and giving up names -/

theorem Table.mem_keys_iff {α β : Type} [DecidableEq α] (t : Table α β) (k : α) :
    k ∈ t.keys ↔ ∃ v, t.get? k = some v := by
  obtain ⟨es⟩ := t
  simp only [keys, get?]
  induction es with
  | nil => simp [find]
  | cons e es ih =>
      by_cases h : e.1 = k
      · simp [find, h]
      · rw [find, if_neg h, ← ih, List.map_cons, List.mem_cons]
        exact or_iff_right (Ne.symm h)

namespace Names

/-- The tables list the free names and the functions of the context. -/
structure Holds (n : Names) (free : List String) (ctx : Context) : Prop where
  /-- The free names are taken by no function. -/
  free : ∀ x, n.claims.get? x = some none ↔ x ∈ free
  /-- The other names are taken by the functions. -/
  owner : ∀ x i, n.claims.get? x = some (some i) ↔ (i, x) ∈ ctx
  /-- Each function has its name. -/
  shown : ∀ i x, n.shown.get? i = some x ↔ (i, x) ∈ ctx

theorem holds_ofFree (free : List String) : (ofFree free).Holds free [] := by
  have hfree : ∀ (xs : List String) (t : Table String (Option Int)) (x : String),
      ((xs.map fun y => (y, none)).foldl (fun t e => t.put e.1 e.2) t).get? x =
        if x ∈ xs then some none else t.get? x := by
    intro xs
    induction xs with
    | nil => simp
    | cons y xs ih =>
        intro t x
        rw [List.map_cons, List.foldl_cons, ih, Table.get?_put]
        by_cases hx : x ∈ xs
        · simp [hx]
        · by_cases hyx : y = x
          · simp [hyx]
          · simp [hx, hyx, Ne.symm hyx]
  refine ⟨fun x => ?_, fun x i => ?_, fun i x => ?_⟩
  · rw [ofFree, Table.ofList, hfree]
    simp
  · rw [ofFree, Table.ofList, hfree]
    simp
  · simp [ofFree]

variable {n : Names} {free : List String} {ctx : Context}

theorem Holds.mem_keys_iff (h : n.Holds free ctx) (x : String) :
    x ∈ n.claims.keys ↔ x ∈ free ++ ctx.names := by
  rw [Table.mem_keys_iff, List.mem_append]
  constructor
  · rintro ⟨_ | i, hv⟩
    · exact .inl ((h.free x).1 hv)
    · exact .inr (Context.mem_names ((h.owner x i).1 hv))
  · rintro (hx | hx)
    · exact ⟨none, (h.free x).2 hx⟩
    · obtain ⟨⟨i, y⟩, hmem, rfl⟩ := List.mem_map.1 hx
      exact ⟨some i, (h.owner y i).2 hmem⟩

/-- A function that is entered gets its own name, or the first one that nobody has. -/
theorem Holds.choose (h : n.Holds free ctx) {i : Int} (hi : i ∉ ctx.ids) (x : String) :
    n.choose i x = showName (free ++ ctx.names) x := by
  have hkeys := h.mem_keys_iff x
  rw [Table.mem_keys_iff] at hkeys
  unfold Names.choose showName
  split
  · next hnone =>
      rw [if_neg]
      intro hx
      obtain ⟨v, hv⟩ := hkeys.2 hx
      rw [hnone] at hv
      cases hv
  · next owner howner =>
      have hne : owner ≠ some i := by
        rintro rfl
        exact hi (Context.mem_ids ((h.owner x i).1 howner))
      rw [if_neg hne, if_pos (hkeys.1 ⟨owner, howner⟩)]
      exact freeName_congr h.mem_keys_iff

theorem Holds.claim (h : n.Holds free ctx) {i : Int} (hi : i ∉ ctx.ids) (x : String) :
    (n.claim i x).1 = showName (free ++ ctx.names) x ∧
      (n.claim i x).2.Holds free ((i, showName (free ++ ctx.names) x) :: ctx) := by
  have hd := showName_notMem (free ++ ctx.names) x
  rw [List.mem_append, not_or] at hd
  simp only [Names.claim, h.choose hi]
  refine ⟨trivial, ?_, ?_, ?_⟩
  · intro y
    rw [Table.get?_put]
    split
    · next hy => simp [← hy, hd.1]
    · exact h.free y
  · intro y j
    rw [Table.get?_put]
    split
    · next hy =>
        have hnot : (j, y) ∉ ctx := by
          intro hm
          exact hd.2 (hy ▸ Context.mem_names hm)
        simp [hnot, hy, eq_comm]
    · next hy =>
        rw [h.owner, List.mem_cons]
        simp [Ne.symm hy]
  · intro j y
    rw [Table.get?_put]
    split
    · next hj =>
        have hnot : (j, y) ∉ ctx := by
          intro hm
          exact hi (hj ▸ Context.mem_ids hm)
        simp [hnot, hj, eq_comm]
    · next hj =>
        rw [h.shown, List.mem_cons]
        simp [Ne.symm hj]

/-- A function that is left gives up its name. -/
theorem Holds.release (h : n.Holds free ctx) {i : Int} (hi : i ∈ ctx.ids) :
    ∃ n', n.release i = (.ok (), n') ∧ n'.Holds free (ctx.filter fun e => decide (e.1 ≠ i)) := by
  obtain ⟨x, hmem⟩ := Context.exists_mem_of_mem_ids hi
  have hshown := (h.shown i x).2 hmem
  have howner := (h.owner x i).2 hmem
  refine ⟨⟨n.claims.erase x, n.shown.erase i⟩, ?_, ?_, ?_, ?_⟩
  · simp [Names.release, hshown, Table.contains, howner]
  · intro y
    rw [Table.get?_erase]
    split
    · next hy =>
        have hnot : y ∉ free := by
          intro hf
          rw [← h.free, ← hy, howner] at hf
          cases hf
        simp [hnot]
    · exact h.free y
  · intro y j
    rw [Table.get?_erase, List.mem_filter]
    split
    · next hy =>
        -- the name belongs to this function, so no other function has it
        subst hy
        simp only [reduceCtorEq, false_iff, not_and]
        intro hj
        rw [← h.owner, howner] at hj
        cases hj
        simp
    · next hy =>
        rw [h.owner]
        refine (and_iff_left_of_imp ?_).symm
        intro hj
        rw [decide_eq_true_eq]
        rintro rfl
        rw [← h.shown, hshown] at hj
        exact hy (Option.some.inj hj)
  · intro j y
    rw [Table.get?_erase, List.mem_filter]
    split
    · next hj => simp [← hj]
    · next hj => simp [h.shown, Ne.symm hj]

theorem Holds.congr {ctx' : Context} (h : n.Holds free ctx) (he : ∀ e, e ∈ ctx ↔ e ∈ ctx') :
    n.Holds free ctx' :=
  ⟨h.free, fun x i => (h.owner x i).trans (he _), fun i x => (h.shown i x).trans (he _)⟩

/-- Functions that are left give up their names. -/
theorem Holds.releaseAll (h : n.Holds free ctx) {ids : List Int} (hnodup : ids.Nodup)
    (hids : ∀ i ∈ ids, i ∈ ctx.ids) :
    ∃ n', n.releaseAll ids = .ok n' ∧ n'.Holds free (ctx.filter fun e => decide (e.1 ∉ ids)) := by
  induction ids generalizing n ctx with
  | nil => exact ⟨n, rfl, h.congr (by simp)⟩
  | cons i ids ih =>
      obtain ⟨hi, hnodup⟩ := List.nodup_cons.1 hnodup
      obtain ⟨n₁, hrelease, h₁⟩ := h.release (hids i (List.mem_cons_self ..))
      have hids₁ : ∀ j ∈ ids, j ∈ Context.ids (ctx.filter fun e => decide (e.1 ≠ i)) := by
        intro j hj
        obtain ⟨x, hmem⟩ := Context.exists_mem_of_mem_ids (hids j (List.mem_cons_of_mem _ hj))
        refine Context.mem_ids (x := x) (List.mem_filter.2 ⟨hmem, ?_⟩)
        rw [decide_eq_true_eq]
        rintro rfl
        exact hi hj
      obtain ⟨n', hrest, h'⟩ := ih h₁ hnodup hids₁
      refine ⟨n', ?_, h'.congr fun e => ?_⟩
      · rw [Names.releaseAll, hrelease]
        exact hrest
      · simp only [List.mem_filter, decide_eq_true_eq, List.mem_cons, not_or]
        exact and_assoc

end Names

end UntypedLambda
