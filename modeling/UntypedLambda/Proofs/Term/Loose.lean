import UntypedLambda.Proofs.Expr.Compact
import UntypedLambda.Proofs.Reduction.Hygiene
import UntypedLambda.Proofs.Term.Naming

/-!
# Printing terms with loose variables

A part of a term may have variables whose functions are further out.  When such a part is
printed by itself, these loose variables get a name at the place where they are met first, and
keep it from there on, also when the functions around that place have been left.  So what is
printed means the part of the term, with a free name for each loose variable.

* `Presentable` — the names that are printed: variables as they are written, and display names.
* `Nameless.nameLoose` — free names for the loose variables.
* `Term.ShownAs` — what comes of naming a term with loose variables.
* `Term.exists_nameIn_loose` — naming comes to this, in any functions around the term.
* `Term.Hygienic.exists_named` — the same for a whole term.
* `Term.Hygienic.exists_parse_render` — what is printed can be read back.
-/

namespace UntypedLambda

/-! ## The names in print -/

/-- The name is a variable as it is written, or a display name. -/
def Presentable (x : String) : Prop := IsVariableName x ∨ ∃ j, x = displayName j

/-- There is no blank in a display name. -/
theorem noBlank_displayName (j : Nat) : Expr.NoBlank (displayName j) :=
  fun _ hc => (plain_of_mem_displayName hc).1

theorem Presentable.noBlank {x : String} (h : Presentable x) : Expr.NoBlank x := by
  rcases h with h | ⟨j, rfl⟩
  · exact Expr.noBlank_of_isVariableName h
  · exact noBlank_displayName j

/-- A presentable name that is a single character is read as a variable. -/
theorem Presentable.isVariableName {x : String} (h : Presentable x) (hx : x.length = 1) :
    IsVariableName x := by
  rcases h with h | ⟨j, rfl⟩
  · exact h
  · exact isVariableName_displayName hx

theorem Expr.mem_names_abstract {params : List String} {body : Expr} {x : String}
    (h : x ∈ (Term.ofExpr (abstract params body)).names) :
    x ∈ params ∨ x ∈ (Term.ofExpr body).names := by
  induction params generalizing body with
  | nil => exact .inr h
  | cons p params ih =>
      rcases ih h with hx | hx
      · exact .inl (List.mem_cons_of_mem _ hx)
      · rcases List.mem_cons.1 hx with rfl | hx
        · exact .inl (List.mem_cons_self ..)
        · exact .inr hx

namespace Names

/-- Everyone is shown under a presentable name. -/
def ShowsPresentable (n : Names) : Prop := ∀ i x, n.shown.get? i = some x → Presentable x

variable {n : Names}

theorem ShowsPresentable.claim (h : n.ShowsPresentable) (i : Int) {x : String}
    (hx : IsVariableName x) :
    Presentable (n.claim i x).1 ∧ (n.claim i x).2.ShowsPresentable := by
  have hchosen : Presentable (n.choose i x) := by
    obtain ⟨j, hj, -⟩ := exists_freeName_eq n.claims.keys
    unfold choose
    split
    · exact .inl hx
    · split
      · exact .inl hx
      · exact .inr ⟨j, hj⟩
  refine ⟨hchosen, ?_⟩
  intro k y hk
  simp only [Names.claim, Table.get?_put] at hk
  split at hk
  · cases hk
    exact hchosen
  · exact h k y hk

theorem ShowsPresentable.lookup (h : n.ShowsPresentable) (i : Int) {x : String}
    (hx : IsVariableName x) :
    Presentable (n.lookup i x).1 ∧ (n.lookup i x).2.ShowsPresentable := by
  unfold Names.lookup
  split
  · next y hy => exact ⟨h i y hy, h⟩
  · exact h.claim i hx

theorem ShowsPresentable.releaseAll (h : n.ShowsPresentable) {ids : List Int} {n' : Names}
    (hrelease : n.releaseAll ids = .ok n') : n'.ShowsPresentable := by
  induction ids generalizing n with
  | nil =>
      cases hrelease
      exact h
  | cons i ids ih =>
      have hnext : ∀ n₁, n.release i = (.ok (), n₁) → n₁.ShowsPresentable := by
        intro n₁ h₁ k y hk
        unfold Names.release at h₁
        split at h₁
        · cases h₁
        · split at h₁
          · cases h₁
            rw [Table.get?_erase] at hk
            split at hk
            · cases hk
            · exact h k y hk
          · cases h₁
      unfold Names.releaseAll at hrelease
      split at hrelease
      · cases hrelease
      · next n₁ h₁ => exact ih (hnext n₁ h₁) hrelease

end Names

namespace Term

/-- Leaving functions shows their parameters. -/
theorem presentable_closeParams {params : List Param} {body e : Expr} {n n' : Names}
    (h : closeParams params body n = .ok (e, n')) (hparams : ∀ p ∈ params, Presentable p.1)
    (hbody : ∀ x ∈ (ofExpr body).names, Presentable x) (hn : n.ShowsPresentable) :
    (∀ x ∈ (ofExpr e).names, Presentable x) ∧ n'.ShowsPresentable := by
  unfold closeParams at h
  split at h
  · cases h
  · next n₁ hrelease =>
      cases h
      refine ⟨?_, hn.releaseAll hrelease⟩
      intro x hx
      rcases Expr.mem_names_abstract hx with hx | hx
      · obtain ⟨p, hp, rfl⟩ := List.mem_map.1 hx
        exact hparams p hp
      · exact hbody x hx

/-- If all names are written as variables, all names in print are presentable. -/
theorem presentable_nameIn {t : Term} {params : List Param} {e : Expr} {n n' : Names}
    (h : t.nameIn params n = .ok (e, n')) (hnames : ∀ x ∈ t.names, IsVariableName x)
    (hparams : ∀ p ∈ params, Presentable p.1) (hn : n.ShowsPresentable) :
    (∀ x ∈ (ofExpr e).names, Presentable x) ∧ n'.ShowsPresentable := by
  induction t generalizing params n n' e with
  | var v =>
      have hv : IsVariableName v.name := hnames _ (List.mem_cons_self ..)
      cases v with
      | free x =>
          exact presentable_closeParams h hparams (List.forall_mem_singleton.2 (.inl hv)) hn
      | bound i x =>
          obtain ⟨hfound, hn'⟩ := hn.lookup i hv
          exact presentable_closeParams h hparams (List.forall_mem_singleton.2 hfound) hn'
  | app fn arg ihf iha =>
      obtain ⟨hfn, harg⟩ := List.forall_mem_append.1 hnames
      rw [nameIn] at h
      split at h
      · cases h
      · next fn' n₁ h₁ =>
          obtain ⟨hfn', hn₁⟩ := ihf h₁ hfn (fun _ hp => by cases hp) hn
          split at h
          · cases h
          · next arg' n₂ h₂ =>
              obtain ⟨harg', hn₂⟩ := iha h₂ harg (fun _ hp => by cases hp) hn₁
              exact presentable_closeParams h hparams (List.forall_mem_append.2 ⟨hfn', harg'⟩) hn₂
  | lam param body ih =>
      obtain ⟨hparam, hbody⟩ := List.forall_mem_cons.1 hnames
      cases param with
      | free x => exact ih h hbody (List.forall_mem_cons.2 ⟨.inl hparam, hparams⟩) hn
      | bound i x =>
          obtain ⟨hclaim, hn'⟩ := hn.claim i hparam
          exact ih h hbody (List.forall_mem_cons.2 ⟨hclaim, hparams⟩) hn'

theorem presentable_named {t : Term} {e : Expr} (h : t.named = .ok e)
    (hnames : ∀ x ∈ t.names, IsVariableName x) : ∀ x ∈ (ofExpr e).names, Presentable x := by
  unfold named at h
  cases hname : t.nameIn [] (Names.ofFree t.freeNames) with
  | error m =>
      rw [hname] at h
      cases h
  | ok r =>
      rw [hname] at h
      cases h
      refine (presentable_nameIn hname hnames (fun _ hp => by cases hp) ?_).1
      intro i x hx
      cases hx

theorem exists_named_of_render {t : Term} {text : String} (h : t.render = .ok text) :
    ∃ e, t.named = .ok e ∧ e.compact = text := by
  unfold render at h
  cases hnamed : t.named with
  | error m =>
      rw [hnamed] at h
      cases h
  | ok e =>
      rw [hnamed] at h
      exact ⟨e, rfl, Except.ok.inj h⟩

/-- There is no blank in a term that is printed. -/
theorem noBlank_render {t : Term} {text : String} (h : t.render = .ok text)
    (hnames : ∀ x ∈ t.names, IsVariableName x) : Expr.NoBlank text := by
  obtain ⟨e, hnamed, rfl⟩ := exists_named_of_render h
  have hblank : ∀ x ∈ (ofExpr e).names, Expr.NoBlank x := by
    intro x hx
    exact (presentable_named hnamed hnames x hx).noBlank
  exact Expr.noBlank_compactIn hblank false

end Term

/-! ## Free names for loose variables -/

namespace Nameless

/-- Gives every loose variable a free name. -/
def nameLoose (ρ : Int → String) : Nameless → Nameless
  | .index i => .index i
  | .free name => .free name
  | .loose id => .free (ρ id)
  | .app fn arg => .app (fn.nameLoose ρ) (arg.nameLoose ρ)
  | .lam body => .lam (body.nameLoose ρ)

theorem nameLoose_shift (ρ : Int → String) (t : Nameless) (d : Nat) :
    (t.shift d).nameLoose ρ = (t.nameLoose ρ).shift d := by
  induction t generalizing d with
  | index i => rfl
  | free name => rfl
  | loose id => rfl
  | app fn arg ihf iha => simp only [shift, nameLoose, ihf, iha]
  | lam body ih => simp only [shift, nameLoose, ih]

theorem nameLoose_subst (ρ : Int → String) (t u : Nameless) (d : Nat) :
    (t.subst d u).nameLoose ρ = (t.nameLoose ρ).subst d (u.nameLoose ρ) := by
  induction t generalizing d u with
  | index i =>
      rcases index_cases i d with hi | rfl | ⟨j, hj, rfl⟩
      · rw [subst_index_of_lt hi, nameLoose, subst_index_of_lt hi]
      · rw [subst_index_self, nameLoose, subst_index_self]
      · rw [subst_index_succ hj, nameLoose, nameLoose, subst_index_succ hj]
  | free name => rfl
  | loose id => rfl
  | app fn arg ihf iha => simp only [subst, nameLoose, ihf, iha]
  | lam body ih => simp only [subst, nameLoose, ih, nameLoose_shift]

/-- Contracting comes to the same before and after loose variables are named. -/
theorem nameLoose_contract (ρ : Int → String) (body arg : Nameless) :
    (contract body arg).nameLoose ρ = contract (body.nameLoose ρ) (arg.nameLoose ρ) :=
  nameLoose_subst ρ body arg 0

end Nameless

/-- Nothing is loose in an expression. -/
theorem Expr.nameLoose_namelessIn (ρ : Int → String) (e : Expr) (names : List String) :
    (e.namelessIn names).nameLoose ρ = e.namelessIn names := by
  induction e generalizing names with
  | var x =>
      simp only [Expr.namelessIn]
      cases names.idxOf? x <;> rfl
  | app fn arg ihf iha => simp only [Expr.namelessIn, Nameless.nameLoose, ihf, iha]
  | lam x body ih => simp only [Expr.namelessIn, Nameless.nameLoose, ih]

namespace Term

theorem nameLoose_namelessIn_eq_iff {ρ ρ' : Int → String} {t : Term} {scope : List (Option Int)} :
    (t.namelessIn scope).nameLoose ρ = (t.namelessIn scope).nameLoose ρ' ↔
      ∀ i ∈ t.looseIds, some i ∉ scope → ρ i = ρ' i := by
  induction t generalizing scope with
  | var v =>
      cases v with
      | free x => simp [namelessIn, namelessVar, Nameless.nameLoose, looseIds, Var.id?]
      | bound i x =>
          simp only [namelessIn, namelessVar, looseIds, Var.id?, Option.toList_some,
            List.forall_mem_singleton]
          cases hi : scope.idxOf? (some i) with
          | none =>
              simp [Nameless.nameLoose, List.idxOf?_eq_none_iff.1 hi]
          | some k =>
              have hmem : some i ∈ scope := by
                by_contra hnot
                rw [List.idxOf?_eq_none_iff.2 hnot] at hi
                cases hi
              simp [Nameless.nameLoose, hmem]
  | app fn arg ihf iha =>
      simp only [namelessIn, Nameless.nameLoose, Nameless.app.injEq, ihf, iha, looseIds]
      exact List.forall_mem_append.symm
  | lam param body ih =>
      simp only [namelessIn, Nameless.nameLoose, Nameless.lam.injEq, ih, mem_looseIds_lam,
        List.mem_cons, not_or, and_imp]
      exact forall₂_congr fun i _ => by simp only [eq_comm, ne_eq]

/-- Two ways of naming loose variables come to the same exactly if they agree on all of them. -/
theorem nameLoose_nameless_eq_iff {ρ ρ' : Int → String} {t : Term} :
    t.nameless.nameLoose ρ = t.nameless.nameLoose ρ' ↔ ∀ i ∈ t.looseIds, ρ i = ρ' i := by
  simp [nameless, nameLoose_namelessIn_eq_iff]

end Term

/-! ## Naming terms with loose variables -/

namespace Context.Proper

variable {free : List String} {ctx ctx' : Context}

theorem perm (h : ctx.Proper free) (hperm : ctx.Perm ctx') : ctx'.Proper free where
  ids := (hperm.map _).nodup_iff.1 h.ids
  names := (hperm.map _).nodup_iff.1 h.names
  notFree x hx := h.notFree x ((hperm.map _).mem_iff.2 hx)

theorem sublist (h : ctx.Proper free) (hsub : ctx'.Sublist ctx) : ctx'.Proper free where
  ids := h.ids.sublist (hsub.map _)
  names := h.names.sublist (hsub.map _)
  notFree x hx := h.notFree x ((hsub.map _).subset hx)

/-- A name that goes with one number goes with no other. -/
theorem eq_of_mem (h : ctx.Proper free) {i j : Int} {x : String} (hi : (i, x) ∈ ctx)
    (hj : (j, x) ∈ ctx) : i = j :=
  Option.some.inj ((Context.idOf?_of_mem h.names hi).symm.trans (Context.idOf?_of_mem h.names hj))

/-- What stands in one part of a context stands in no other. -/
theorem notMem_left (h : Context.Proper free (ctx ++ ctx')) {i : Int} {x : String}
    (hmem : (i, x) ∈ ctx') : i ∉ ctx.ids ∧ x ∉ ctx.names := by
  have hids := h.ids
  have hnames := h.names
  rw [Context.ids, List.map_append] at hids
  rw [Context.names, List.map_append] at hnames
  constructor
  · intro hi
    exact (List.nodup_append.1 hids).2.2 i hi i (Context.mem_ids hmem) rfl
  · intro hx
    exact (List.nodup_append.1 hnames).2.2 x hx x (Context.mem_names hmem) rfl

end Context.Proper

namespace Term

/-- A variable that belongs to no function of the context, and whose name does not either, is shown
as a free name. -/
theorem namelessIn_var_loose {ctx : Context} {i : Int} {x : String} (hi : i ∉ ctx.ids)
    (hx : x ∉ ctx.names) {ρ : Int → String} (hρ : ρ i = x) (y : String) :
    (Expr.var x).namelessIn ctx.names = (namelessVar ctx.scope (.bound i y)).nameLoose ρ := by
  have hscope : some i ∉ ctx.scope := by
    simpa [Context.scope] using hi
  rw [Context.namelessIn_var_free hx, namelessVar, List.idxOf?_eq_none_iff.2 hscope]
  exact congrArg Nameless.free hρ.symm

/-- What comes of naming the term `t` in the functions of a context, when the loose variables
`before` have been met already: it is shown as the expression `e`, and `after` lists the loose
variables that have been met then, all with their names. -/
structure ShownAs (free : List String) (ctx before : Context) (t : Term) (e : Expr)
    (after : Context) : Prop where
  /-- No two functions or loose variables share a name, and none has a free name. -/
  proper : Context.Proper free (ctx ++ after)
  /-- What has been met keeps its name. -/
  kept : before ⊆ after
  /-- Only what is loose in the term is added. -/
  added : ∀ i ∈ after.ids, i ∈ before.ids ∨ i ∈ t.looseIds
  /-- All that is loose in the term is met. -/
  met : ∀ i ∈ t.looseIds, i ∈ Context.ids (ctx ++ after)
  /-- The expression means the term, with the names given for its loose variables. -/
  meaning : ∀ ρ : Int → String, (∀ i x, (i, x) ∈ after → ρ i = x) →
    e.namelessIn ctx.names = (t.namelessIn ctx.scope).nameLoose ρ

/-- A variable is shown under the name that it has, or under a new one if it is loose and has
none. -/
theorem exists_shownAs_var {n : Names} {free : List String} {ctx before : Context}
    (i : Int) (x : String) (hp : Context.Proper free (ctx ++ before))
    (h : n.Holds free (ctx ++ before)) :
    ∃ y n' after, n.lookup i x = (y, n') ∧ n'.Holds free (ctx ++ after) ∧
      ShownAs free ctx before (.var (.bound i x)) (.var y) after := by
  have hctx : ctx.Proper free := hp.sublist (List.sublist_append_left ..)
  by_cases hi : i ∈ Context.ids (ctx ++ before)
  · obtain ⟨y, hmem⟩ := Context.exists_mem_of_mem_ids hi
    refine ⟨y, n, before, by rw [Names.lookup, (h.shown i y).2 hmem], h, hp,
      List.Subset.refl _, fun j hj => .inl hj, ?_, ?_⟩
    · simpa [looseIds, Var.id?] using hi
    · intro ρ hρ
      rcases List.mem_append.1 hmem with hin | hin
      · have hbound := Context.namelessIn_var hctx.ids (Context.idOf?_of_mem hctx.names hin) x
        rw [namelessIn, hbound, Expr.nameLoose_namelessIn]
      · obtain ⟨hids, hnames⟩ := hp.notMem_left hin
        exact namelessIn_var_loose hids hnames (hρ i y hin) x
  · obtain ⟨hname, hclaim⟩ := h.claim hi x
    have hnot := showName_notMem (free ++ Context.names (ctx ++ before)) x
    generalize showName (free ++ Context.names (ctx ++ before)) x = y at hname hclaim hnot
    have hperm : List.Perm ((i, y) :: (ctx ++ before)) (ctx ++ (i, y) :: before) :=
      List.perm_middle.symm
    have hafter := (hp.enter hi hnot).perm hperm
    have hfound : n.lookup i x = n.claim i x := by
      unfold Names.lookup
      split
      · next z hz => exact absurd (Context.mem_ids ((h.shown i z).1 hz)) hi
      · rfl
    refine ⟨y, (n.claim i x).2, (i, y) :: before, ?_, hclaim.congr fun e => hperm.mem_iff,
      hafter, List.subset_cons_self .., ?_, ?_, ?_⟩
    · rw [hfound, ← hname]
    · intro j hj
      rcases List.mem_cons.1 hj with rfl | hj
      · exact .inr (by simp [looseIds, Var.id?])
      · exact .inl hj
    · intro j hj
      obtain rfl : j = i := by simpa [looseIds, Var.id?] using hj
      exact Context.mem_ids (List.mem_append_right ctx (List.mem_cons_self ..))
    · intro ρ hρ
      obtain ⟨hids, hnames⟩ := hafter.notMem_left (List.mem_cons_self ..)
      exact namelessIn_var_loose hids hnames (hρ i y (List.mem_cons_self ..)) x

/-- An application is shown as that of its parts, named one after the other. -/
theorem ShownAs.app {free : List String} {ctx before between after : Context} {fn arg : Term}
    {fn' arg' : Expr} (hf : ShownAs free ctx before fn fn' between)
    (ha : ShownAs free ctx between arg arg' after) :
    ShownAs free ctx before (.app fn arg) (.app fn' arg') after where
  proper := ha.proper
  kept := List.Subset.trans hf.kept ha.kept
  added i hi := by
    rw [looseIds, List.mem_append, or_left_comm]
    rcases ha.added i hi with hi | hi
    · rcases hf.added i hi with hi | hi
      · exact .inr (.inl hi)
      · exact .inl hi
    · exact .inr (.inr hi)
  met i hi := by
    rcases List.mem_append.1 hi with hi | hi
    · have hmet := hf.met i hi
      rw [Context.ids_append, List.mem_append] at hmet ⊢
      exact hmet.imp_right fun hm => List.map_subset _ ha.kept hm
    · exact ha.met i hi
  meaning ρ hρ := by
    rw [Expr.namelessIn, namelessIn, Nameless.nameLoose,
      hf.meaning ρ fun i x hx => hρ i x (ha.kept hx), ha.meaning ρ hρ]

/-- A function is shown with its name, around what its body is shown as. -/
theorem ShownAs.lam {free : List String} {ctx before after : Context} {i : Int} {x y : String}
    {body : Term} {body' : Expr}
    (h : ShownAs free ((i, y) :: ctx) before body body' after) :
    ShownAs free ctx before (.lam (.bound i x) body) (.lam y body') after where
  proper := h.proper.sublist (List.sublist_cons_self ..)
  kept := h.kept
  added j hj := by
    refine (h.added j hj).imp_right fun hm => mem_looseIds_lam.2 ⟨hm, ?_⟩
    rintro ⟨⟩
    obtain ⟨z, hz⟩ := Context.exists_mem_of_mem_ids hj
    exact (List.nodup_cons.1 h.proper.ids).1 (Context.mem_ids (List.mem_append_right ctx hz))
  met j hj := by
    obtain ⟨hm, hne⟩ := mem_looseIds_lam.1 hj
    refine (List.mem_cons.1 (h.met j hm)).resolve_left ?_
    rintro rfl
    exact hne rfl
  meaning ρ hρ := congrArg Nameless.lam (h.meaning ρ hρ)

/-- **Naming a term with loose variables.**  The functions `inner` end with the term, and `outer` go
on.  The names of the former are given up, but not those of the loose variables. -/
theorem exists_nameIn_loose {t : Term} {n : Names} {free : List String}
    (inner outer before : Context) (ht : t.Hygienic)
    (hd : ∀ i ∈ t.binders, i ∉ Context.ids (inner ++ outer ++ before))
    (hfree : ∀ x ∈ t.freeNames, x ∈ free)
    (hp : Context.Proper free (inner ++ outer ++ before))
    (h : n.Holds free (inner ++ outer ++ before)) :
    ∃ e n' after, n'.Holds free (outer ++ after) ∧
      ShownAs free (inner ++ outer) before t e after ∧
      t.nameIn (inner.map fun e => (e.2, some e.1)) n =
        .ok (Expr.abstract inner.names e, n') := by
  -- the loose variables that one part of the term adds are there for the next part
  induction t generalizing n inner outer before with
  | var v =>
      cases v with
      | free x =>
          have hx : x ∉ Context.names (inner ++ outer) := by
            intro hm
            refine hp.notFree x ?_ (hfree x (by simp [freeNames]))
            exact (List.sublist_append_left ..).map _ |>.subset hm
          have hp' := hp
          rw [List.append_assoc] at h hp'
          obtain ⟨n', hn', hclose⟩ := closeParams_eq (.var x) hp' h
          refine ⟨.var x, n', before, hn', ⟨hp, List.Subset.refl _, fun i hi => .inl hi, ?_, ?_⟩,
            hclose⟩
          · simp [looseIds, Var.id?]
          · intro ρ _
            exact Context.namelessIn_var_free hx
      | bound i x =>
          obtain ⟨y, n₁, after, hlookup, hn₁, hshown⟩ := exists_shownAs_var i x hp h
          have hp' := hshown.proper
          rw [List.append_assoc] at hn₁ hp'
          obtain ⟨n', hn', hclose⟩ := closeParams_eq (.var y) hp' hn₁
          refine ⟨.var y, n', after, hn', hshown, ?_⟩
          rw [nameIn, hlookup]
          exact hclose
  | app fn arg ihf iha =>
      obtain ⟨hfn, harg, hapart⟩ := hygienic_app_iff.1 ht
      obtain ⟨hdf, hda⟩ := List.forall_mem_append.1 hd
      obtain ⟨hff, hfa⟩ := List.forall_mem_append.1 hfree
      obtain ⟨fn', n₁, between, hn₁, hshown₁, hname₁⟩ :=
        ihf [] (inner ++ outer) before hfn hdf hff hp h
      have hdb : ∀ i ∈ arg.binders, i ∉ Context.ids ([] ++ (inner ++ outer) ++ between) := by
        intro i hi hm
        rw [List.nil_append, Context.ids_append, List.mem_append] at hm
        have hout := hda i hi
        rw [Context.ids_append, List.mem_append, not_or] at hout
        rcases hm with hm | hm
        · exact hout.1 hm
        · rcases hshown₁.added i hm with hm | hm
          · exact hout.2 hm
          · exact hapart.2 i hi ((mem_ids_iff fn i).2 (.inr hm))
      obtain ⟨arg', n₂, after, hn₂, hshown₂, hname₂⟩ :=
        iha [] (inner ++ outer) between harg hdb hfa hshown₁.proper hn₁
      have hshown : ShownAs free (inner ++ outer) before (.app fn arg) (.app fn' arg') after :=
        ShownAs.app hshown₁ hshown₂
      have hp' := hshown.proper
      rw [List.append_assoc] at hn₂ hp'
      obtain ⟨n', hn', hclose⟩ := closeParams_eq (.app fn' arg') hp' hn₂
      refine ⟨.app fn' arg', n', after, hn', hshown, ?_⟩
      rw [nameIn]
      simp only [List.map_nil] at hname₁ hname₂
      rw [hname₁]
      simp only [Context.names, List.map_nil, Expr.abstract, List.foldl_nil]
      rw [hname₂]
      exact hclose
  | lam param body ih =>
      obtain ⟨hparam, hbody, hnot⟩ := hygienic_lam_iff.1 ht
      cases param with
      | free x => cases hparam
      | bound i x =>
          obtain ⟨hi, hdb⟩ := List.forall_mem_cons.1 hd
          obtain ⟨hname, hn⟩ := h.claim hi x
          have hfresh := showName_notMem (free ++ Context.names (inner ++ outer ++ before)) x
          generalize showName (free ++ Context.names (inner ++ outer ++ before)) x = y
            at hname hn hfresh
          have hd' : ∀ j ∈ body.binders,
              j ∉ Context.ids ((i, y) :: inner ++ outer ++ before) := by
            intro j hj hm
            rcases List.mem_cons.1 hm with rfl | hm
            · exact hnot j (by simp [Var.id?]) hj
            · exact hdb j hj hm
          obtain ⟨e, n', after, hn', hshown, hnamed⟩ := ih ((i, y) :: inner) outer before hbody hd'
            hfree (hp.enter hi hfresh) hn
          refine ⟨.lam y e, n', after, hn', hshown.lam, ?_⟩
          rw [nameIn, hname]
          exact hnamed

/-- The names tell the loose variables of a term apart from each other and from its free names. -/
structure Distinguishes (t : Term) (ρ : Int → String) : Prop where
  /-- No two loose variables have the same name. -/
  inj : ∀ i ∈ t.looseIds, ∀ j ∈ t.looseIds, ρ i = ρ j → i = j
  /-- No loose variable has a free name. -/
  notFree : ∀ i ∈ t.looseIds, ρ i ∉ t.freeNames

/-- **What a hygienic term is shown as** means the term, with names for its loose variables that
tell them apart. -/
theorem Hygienic.exists_named {t : Term} (ht : t.Hygienic) :
    ∃ e ρ, t.named = .ok e ∧ t.Distinguishes ρ ∧ e.nameless = t.nameless.nameLoose ρ := by
  obtain ⟨e, n', after, -, hshown, hname⟩ := exists_nameIn_loose [] [] [] ht
    (fun _ _ hm => by cases hm) (fun x hx => hx) (Context.proper_nil t.freeNames)
    (Names.holds_ofFree t.freeNames)
  have hproper : after.Proper t.freeNames := hshown.proper
  have hname? : ∀ i x, (i, x) ∈ after → (after.nameOf? i).getD "" = x := by
    intro i x hx
    rw [Context.nameOf?_of_mem hproper.ids hx]
    rfl
  have hmem : ∀ i ∈ t.looseIds, (i, (after.nameOf? i).getD "") ∈ after := by
    intro i hi
    obtain ⟨x, hx⟩ := Context.exists_mem_of_mem_ids (hshown.met i hi)
    rwa [hname? i x hx]
  refine ⟨e, fun i => (after.nameOf? i).getD "", ?_, ⟨?_, ?_⟩, hshown.meaning _ hname?⟩
  · rw [named]
    simp only [List.map_nil] at hname
    rw [hname]
    rfl
  · intro i hi j hj heq
    exact hproper.eq_of_mem (hmem i hi) (heq ▸ hmem j hj)
  · intro i hi
    exact hproper.notFree _ (Context.mem_names (hmem i hi))

/-- All names that the term is shown with are single characters. -/
def ShownInCharacters (t : Term) : Prop :=
  ∀ e, t.named = .ok e → ∀ x ∈ (ofExpr e).names, x.length = 1

/-- **A term with loose variables is read back** with free names for them. -/
theorem Hygienic.exists_parse_render {t : Term} (ht : t.Hygienic)
    (hnames : ∀ x ∈ t.names, IsVariableName x) (hsingle : t.ShownInCharacters) {text : String}
    (htext : t.render = .ok text) (hassign : ¬assignChars <:+: text.toList) :
    ∃ e ρ, Expr.parse text = .ok e ∧ t.Distinguishes ρ ∧
      (ofExpr e).bind.nameless = t.nameless.nameLoose ρ := by
  obtain ⟨e, ρ, hnamed, hρ, hmeaning⟩ := ht.exists_named
  have hplain : e.Plain := by
    rw [Expr.plain_iff]
    intro x hx
    exact (presentable_named hnamed hnames x hx).isVariableName (hsingle e hnamed x hx)
  obtain ⟨e', hnamed', rfl⟩ := exists_named_of_render htext
  obtain rfl : e = e' := Except.ok.inj (hnamed.symm.trans hnamed')
  exact ⟨e, ρ, (Expr.parse_compact hplain).1 hassign, hρ, (nameless_bind_ofExpr e).trans hmeaning⟩

end Term

end UntypedLambda
