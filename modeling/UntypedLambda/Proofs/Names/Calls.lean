import UntypedLambda.Proofs.Term.Rendering

/-!
# Names under any calls

The printer claims and releases names in a certain order.  This file asks what the two tables of
names are good for if they are not used by a printer: names may be claimed twice, looked up before
they are claimed, and released although nobody has them.  A number that claims another name leaves
the old one behind, so there may be names whose owner is shown under another name or not at all.
But nobody is shown under a name of somebody else, and so a release that fails has done nothing.

* `Names.Call`, `Names.after` — calls, and the tables after any number of them.
* `Names.Linked` — what the tables have in common at all times.
* `Names.Linked.perform`, `Names.Linked.performAll` — one call keeps it, and so do many.
* `Names.after_linked` — what this means for the calls that follow.
* `Names.claim_from_supply` — the name that is given to a number whose own name is taken.
-/

namespace UntypedLambda

namespace Names

/-! ## Calls -/

/-- Something that the tables of names are asked for. -/
inductive Call where
  /-- A name for a number, preferably the one given. -/
  | claim (id : Int) (name : String)
  /-- To give up the name of a number. -/
  | release (id : Int)
  /-- The name of a number, and one like that given if it has none. -/
  | lookup (id : Int) (name : String)
  deriving DecidableEq, Repr

/-- The tables after a call, whether it failed or not. -/
def perform (n : Names) : Call → Names
  | .claim id name => (n.claim id name).2
  | .release id => (n.release id).2
  | .lookup id name => (n.lookup id name).2

/-- The tables after several calls, the first one first. -/
def performAll (n : Names) (calls : List Call) : Names := calls.foldl perform n

/-- The tables of a term with the free names given, after several calls. -/
def after (free : List String) (calls : List Call) : Names := (ofFree free).performAll calls

/-! ## What calls keep -/

/-- Every number that is shown owns the name it is shown under, and nobody owns a free name. -/
structure Linked (free : List String) (n : Names) : Prop where
  /-- Every number that is shown has the name it is shown under. -/
  consistent : n.Consistent
  /-- The free names are taken, and not by a number. -/
  free : ∀ x ∈ free, n.claims.get? x = some none

theorem linked_ofFree (free : List String) : (ofFree free).Linked free where
  consistent := consistent_ofFree free
  free x hx := ((holds_ofFree free).free x).2 hx

variable {free : List String} {n : Names}

/-- A name that is given to a number is not a free one. -/
theorem Linked.claim (h : n.Linked free) (id : Int) (name : String) :
    (n.claim id name).2.Linked free where
  consistent := (h.consistent.claim id name).1
  free x hx := by
    have hfree := h.free x hx
    have hne : none ≠ some id := by simp
    simp only [Names.claim, Table.get?_put]
    rw [if_neg (choose_ne hfree hne name)]
    exact hfree

theorem Linked.lookup (h : n.Linked free) (id : Int) (name : String) :
    (n.lookup id name).2.Linked free := by
  unfold Names.lookup
  split
  · exact h
  · exact h.claim id name

/-- A number that is not shown has nothing to give up. -/
theorem release_of_not_shown {id : Int} (h : n.shown.get? id = none) :
    n.release id = (.error (.number id), n) := by
  rw [Names.release, h]

theorem Linked.release (h : n.Linked free) (id : Int) : (n.release id).2.Linked free := by
  cases hx : n.shown.get? id with
  | none =>
      rw [release_of_not_shown hx]
      exact h
  | some x =>
      obtain ⟨n', hrelease, hconsistent, -⟩ := h.consistent.release ⟨x, hx⟩
      rw [hrelease]
      refine ⟨hconsistent, fun y hy => ?_⟩
      rw [h.consistent.release_of_shown hx] at hrelease
      cases hrelease
      have hfree := h.free y hy
      rw [Table.get?_erase, if_neg]
      · exact hfree
      · rintro rfl
        rw [h.consistent id x hx] at hfree
        cases hfree

/-- **One call** keeps the tables linked. -/
theorem Linked.perform (h : n.Linked free) (call : Call) : (n.perform call).Linked free := by
  cases call with
  | claim id name => exact h.claim id name
  | release id => exact h.release id
  | lookup id name => exact h.lookup id name

/-- **Any number of calls** keeps the tables linked. -/
theorem Linked.performAll (h : n.Linked free) (calls : List Call) :
    (n.performAll calls).Linked free := by
  induction calls generalizing n with
  | nil => exact h
  | cons call calls ih => exact ih (h.perform call)

/-! ## What this is good for -/

/-- Whoever claims a name is shown under the one that is given. -/
theorem shown_claim (n : Names) (id : Int) (name : String) :
    (n.claim id name).2.shown.get? id = some (n.claim id name).1 := by
  simp [Names.claim, Table.get?_put]

/-- Whoever is looked up is shown under the name that is found. -/
theorem shown_lookup (n : Names) (id : Int) (name : String) :
    (n.lookup id name).2.shown.get? id = some (n.lookup id name).1 := by
  unfold Names.lookup
  split
  · next hshown => exact hshown
  · exact n.shown_claim id name

/-- No two numbers are shown under one name. -/
theorem Consistent.eq_of_shown (h : n.Consistent) {i j : Int} {x : String}
    (hi : n.shown.get? i = some x) (hj : n.shown.get? j = some x) : i = j := by
  have howner := (h i x hi).symm.trans (h j x hj)
  simpa using howner

/-- No number is shown under a free name. -/
theorem Linked.notMem_free (h : n.Linked free) {i : Int} {x : String}
    (hi : n.shown.get? i = some x) : x ∉ free := by
  intro hx
  have howner := (h.consistent i x hi).symm.trans (h.free x hx)
  cases howner

/-- A release fails only for a number that is not shown. -/
theorem Consistent.release_error (h : n.Consistent) {id : Int} {m : Missing}
    (hm : (n.release id).1 = .error m) :
    n.shown.get? id = none ∧ m = .number id ∧ (n.release id).2 = n := by
  cases hx : n.shown.get? id with
  | none =>
      rw [release_of_not_shown hx] at hm ⊢
      cases hm
      exact ⟨rfl, rfl, rfl⟩
  | some x =>
      rw [h.release_of_shown hx] at hm
      cases hm

/-- **The tables after any calls.**  Whoever is shown owns the name he is shown under, which is no
free name, and no two numbers are shown under one name; the free names stay taken, and not by a
number.  So a release fails exactly if the number is not shown, and then names this number and
leaves the tables as they are; otherwise it takes out both entries of the number.  Claiming a name
and looking one up cannot fail: the number is shown under the name that they give. -/
theorem after_linked (free : List String) (calls : List Call) :
    let n := after free calls
    (∀ i x, n.shown.get? i = some x → n.claims.get? x = some (some i) ∧ x ∉ free) ∧
    (∀ i j x, n.shown.get? i = some x → n.shown.get? j = some x → i = j) ∧
    (∀ x ∈ free, n.claims.get? x = some none) ∧
    (∀ i, (∃ m, (n.release i).1 = .error m) ↔ n.shown.get? i = none) ∧
    (∀ i m, (n.release i).1 = .error m → m = .number i ∧ (n.release i).2 = n) ∧
    (∀ i x, n.shown.get? i = some x →
      n.release i = (.ok (), ⟨n.claims.erase x, n.shown.erase i⟩)) ∧
    (∀ i x, (n.claim i x).2.shown.get? i = some (n.claim i x).1) ∧
    (∀ i x, (n.lookup i x).2.shown.get? i = some (n.lookup i x).1) := by
  intro n
  have h : n.Linked free := (linked_ofFree free).performAll calls
  refine ⟨?_, ?_, h.free, ?_, ?_, ?_, n.shown_claim, n.shown_lookup⟩
  · intro i x hi
    exact ⟨h.consistent i x hi, h.notMem_free hi⟩
  · intro i j x hi hj
    exact h.consistent.eq_of_shown hi hj
  · intro i
    constructor
    · rintro ⟨m, hm⟩
      exact (h.consistent.release_error hm).1
    · intro hi
      exact ⟨.number i, by rw [release_of_not_shown hi]⟩
  · intro i m hm
    exact (h.consistent.release_error hm).2
  · intro i x hi
    exact h.consistent.release_of_shown hi

/-- The theorem after calls that leave a name behind, and of which the last one fails. -/
theorem after_linked_left_behind :
    let n := after ["y"] [.claim 1 "x", .claim 1 "z", .lookup 2 "x", .release 3]
    n.shown.get? 1 = some "z" ∧ n.claims.get? "x" = some (some 1) ∧ n.shown.get? 2 = some "a" ∧
    n.claims.get? "z" = some (some 1) ∧ n.claims.get? "y" = some none ∧
    n.shown.get? 3 = none ∧ (∃ m, (n.release 3).1 = .error m) ∧
    n.release 1 = (.ok (), ⟨n.claims.erase "z", n.shown.erase 1⟩) := by
  intro n
  have hz : n.shown.get? 1 = some "z" := by decide +kernel
  have hnone : n.shown.get? 3 = none := by decide +kernel
  obtain ⟨howner, -, hfree, hfails, -, hreleases, -, -⟩ :=
    after_linked ["y"] [.claim 1 "x", .claim 1 "z", .lookup 2 "x", .release 3]
  exact ⟨hz, by decide +kernel, by decide +kernel, (howner 1 "z" hz).1, hfree "y" (by decide), hnone,
    (hfails 3).2 hnone, hreleases 1 "z" hz⟩

/-! ## The name that is given -/

/-- A number whose own name belongs to somebody else gets a display name. -/
theorem claim_of_taken {id : Int} {name : String} {owner : Option Int}
    (h : n.claims.get? name = some owner) (hne : owner ≠ some id) :
    (n.claim id name).1 = freeName n.claims.keys := by
  simp only [Names.claim, choose, h]
  exact if_neg hne

/-- **There is always another name.**  No display name occurs twice in the endless list of them, and
none has a blank or a sign in it.  If somebody else owns the name that a number claims, the number
gets the first display name that nobody owns; to find it, no more display names have to be looked
at than there are names owned, and one. -/
theorem claim_from_supply :
    Function.Injective displayName ∧
    (∀ i, ∀ c ∈ (displayName i).toList,
      isBlank c = false ∧ c ∉ ['λ', '.', '(', ')', ':', '=']) ∧
    ∀ (n : Names) (id : Int) (name : String) (owner : Option Int),
      n.claims.get? name = some owner → owner ≠ some id →
      ∃ i, (n.claim id name).1 = displayName i ∧ i ≤ n.claims.keys.length ∧
        (∀ k, k < i → displayName k ∈ n.claims.keys) ∧
        ∀ x ∈ n.claims.keys, (n.claim id name).1 ≠ x := by
  refine ⟨fun _ _ => displayName_inj, fun _ _ => plain_of_mem_displayName, ?_⟩
  intro n id name owner howner hne
  obtain ⟨i, hname, hfree, hbefore⟩ := exists_freeName_eq n.claims.keys
  rw [claim_of_taken howner hne, hname]
  refine ⟨i, rfl, le_length_of_taken hbefore, hbefore, ?_⟩
  rintro x hx rfl
  exact hfree hx

/-- The theorem at a number that claims `a`, which is a free name, while another number is shown
as `b`. -/
theorem claim_from_supply_third_letter :
    let n := after ["a"] [.claim 2 "b"]
    n.claims.get? "a" = some none ∧ (none : Option Int) ≠ some 3 ∧ n.claims.keys = ["a", "b"] ∧
    (∃ i, (n.claim 3 "a").1 = displayName i ∧ i ≤ 2 ∧ (n.claim 3 "a").1 ≠ "b") ∧
    (n.claim 3 "a").1 = "c" := by
  intro n
  have hkeys : n.claims.keys = ["a", "b"] := by decide +kernel
  have howner : n.claims.get? "a" = some none := by decide +kernel
  obtain ⟨i, hname, hle, -, hne⟩ := claim_from_supply.2.2 n 3 "a" none howner (by decide)
  rw [hkeys] at hle hne
  exact ⟨howner, by decide, hkeys, ⟨i, hname, hle, hne "b" (by decide)⟩, by decide +kernel⟩

end Names

end UntypedLambda
