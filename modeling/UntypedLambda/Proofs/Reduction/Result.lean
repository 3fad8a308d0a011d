import UntypedLambda.Proofs.Reduction.Normalization

/-!
# The result of a run

What is known of the term that a run ends with, whatever the watcher makes of the
contractions and however many of them are allowed.

* `Term.names_step?` — a contraction brings in no new name.
* `Term.Yields` — one term is what another one is reduced to.
* `Reducer.yields_of_run` — a run that is finished ends with the term it yields.
-/

namespace UntypedLambda

open Relation (ReflTransGen)

/-- Once contractions from left to right have led to a normal form, contractions in any order
lead to this normal form and to no other. -/
theorem Nameless.normalForm_iff_of_reduct? {t n : Nameless} {k : Nat}
    (h : t.reduct? k = some n) (hn : n.IsNormal) (m : Nameless) :
    ReflTransGen Beta t m ∧ m.IsNormal ↔ m = n := by
  constructor
  · rintro ⟨hbeta, hm⟩
    obtain ⟨j, hj⟩ := exists_reduct? (leftmost_of_beta hbeta hm)
    exact (reduct?_le h hn hj).2 (.inl hm)
  · rintro rfl
    exact ⟨beta_of_reduct? h, hn⟩

namespace Term

/-! ## Names -/

/-- A part that is replaced by a term without new names brings in no new name. -/
theorem names_put {t r c : Term} {p : Path} (h : t.at? p = some r) (hc : c.names ⊆ r.names) :
    (t.put p c).names ⊆ t.names := by
  intro x hx
  fun_induction Term.at? t p with
  | case1 t =>
      cases h
      rw [Term.put] at hx
      exact hc hx
  | case2 fn arg p ih =>
      exact List.mem_append.2 ((List.mem_append.1 hx).imp_left (ih h))
  | case3 fn arg p ih =>
      exact List.mem_append.2 ((List.mem_append.1 hx).imp_right (ih h))
  | case4 param body p ih => exact List.mem_cons.2 ((List.mem_cons.1 hx).imp_right (ih h))
  | case5 => cases h

theorem names_contract (param : Var) (body arg : Term) (s : Supply) :
    (contract param body arg s).1.names ⊆ (app (lam param body) arg).names := by
  intro x hx
  rw [names, names, List.mem_append, List.mem_cons]
  cases param with
  | free name => exact .inl (.inr hx)
  | bound id name => exact (mem_names_substitute hx).imp_left .inr

theorem names_at? {t r : Term} {p : Path} (h : t.at? p = some r) : r.names ⊆ t.names := by
  intro x hx
  fun_induction Term.at? t p with
  | case1 t =>
      cases h
      exact hx
  | case2 fn arg p ih => exact List.mem_append_left _ (ih h)
  | case3 fn arg p ih => exact List.mem_append_right _ (ih h)
  | case4 param body p ih => exact List.mem_cons_of_mem _ (ih h)
  | case5 => cases h

/-- The names of a contractum are those of its redex, which are those of the whole term. -/
theorem Contracts.names {t : Term} {s : Supply} {p : Path} {st : Step} (h : Contracts t s p st) :
    st.contraction.contractum.names ⊆ st.contraction.redex.names ∧
      st.contraction.redex.names ⊆ t.names := by
  obtain ⟨param, body, hfn, hc⟩ := h.contracts
  have hnames := names_contract param body st.contraction.arg s
  rw [hc, ← hfn] at hnames
  exact ⟨hnames, names_at? h.place⟩

/-- A contraction brings in no new name. -/
theorem names_step? {t : Term} {s : Supply} {st : Step} (h : t.step? s = some st) :
    st.result.names ⊆ t.names := by
  obtain ⟨p, hp⟩ := exists_contracts h
  rw [hp.result]
  exact names_put hp.place hp.names.1

/-! ## Results -/

/-- The term `t` is reduced to the term `v`. -/
structure Yields (t v : Term) : Prop where
  /-- One number means one function. -/
  hygienic : v.Hygienic
  /-- Nothing is left to contract. -/
  normal : v.IsNormal
  /-- No other variable is loose. -/
  loose : v.looseIds ⊆ t.looseIds
  /-- No other name is free. -/
  free : v.freeNames ⊆ t.freeNames
  /-- No other name is in use. -/
  names : v.names ⊆ t.names
  /-- Contractions in any order lead to this normal form and to no other. -/
  normalForm : ∀ n, ReflTransGen Nameless.Beta t.nameless n ∧ n.IsNormal ↔ n = v.nameless

end Term

/-- No step of a hygienic term brings in a loose variable, a free name or any name at all. -/
theorem Steps.subset {t u : Term} {s s' : Supply} {sts : List Step}
    (h : Steps (fun t s st => t.Settled s ∧ t.step? s = some st) t s sts u s') :
    u.looseIds ⊆ t.looseIds ∧ u.freeNames ⊆ t.freeNames ∧ u.names ⊆ t.names := by
  induction h with
  | nil t s => exact ⟨fun _ hi => hi, fun _ hx => hx, fun _ hx => hx⟩
  | cons hst _ ih =>
      obtain ⟨hloose, hfree, hnames⟩ := ih
      have hclean := hst.1.clean hst.2
      exact ⟨List.Subset.trans hloose hclean.loose, List.Subset.trans hfree hclean.free,
        List.Subset.trans hnames (Term.names_step? hst.2)⟩

namespace Reducer

/-- A run that is finished ends with what its term is reduced to. -/
theorem yields_of_run {σ ε : Type} {watch : Watcher σ ε} {fuel : Nat} {r : Reducer} {seen : σ}
    {t v : Term} (ht : t.Hygienic) (h : (r.run watch fuel seen t).ending = .normal v) :
    t.Yields v := by
  obtain ⟨sts, u, hs, hp, hu⟩ := exists_settled_steps watch fuel r seen ht
  obtain rfl := hp.term v (by simp [h, Ending.term?])
  have hnormal := hp.normal v h
  obtain ⟨hloose, hfree, hnames⟩ := hs.subset
  exact ⟨hu.hygienic, hnormal, hloose, hfree, hnames,
    Nameless.normalForm_iff_of_reduct? hs.reduct? ((Term.isNormal_nameless_iff v).2 hnormal)⟩

end Reducer

end UntypedLambda
