import UntypedLambda.Proofs.Expr.Compact
import UntypedLambda.Proofs.Term.Naming

/-!
# Printing and reading back

A term that is printed and read back is the same term, up to the choice of numbers and
names, and is printed in the same way again.

* `Term.plain_display` — with single characters for names, all names in print are
  variables.
* `Term.render_round_trip` — the printed form is read back unless it has the sign of a
  definition in it.
-/

namespace UntypedLambda

/-- The free names of a nameless term, from left to right. -/
def Nameless.freeNames : Nameless → List String
  | .free name => [name]
  | .app fn arg => fn.freeNames ++ arg.freeNames
  | .lam body => body.freeNames
  | _ => []

namespace Term

/-- The nameless form keeps the free names. -/
theorem freeNames_namelessIn (t : Term) (scope : List (Option Int)) :
    (t.namelessIn scope).freeNames = t.freeNames := by
  induction t generalizing scope with
  | var v =>
      cases v with
      | free x => rfl
      | bound i x =>
          simp only [namelessIn, namelessVar]
          split <;> rfl
  | app fn arg ihf iha => rw [namelessIn, Nameless.freeNames, ihf, iha, freeNames]
  | lam param body ih => rw [namelessIn, Nameless.freeNames, ih, freeNames]

/-- If all names are written as variables and all parameters are shown as single
characters, then all names in print are written as variables. -/
theorem plain_display {t : Term} {free : List String} {ctx : Context}
    (hnames : ∀ x ∈ t.names, IsVariableName x) (hctx : ∀ x ∈ ctx.names, IsVariableName x)
    (hparams : ∀ p ∈ (t.display free ctx).params, p.length = 1) :
    (t.display free ctx).Plain := by
  induction t generalizing ctx with
  | var v =>
      cases v with
      | free x => exact hnames x (by simp [names, Var.name])
      | bound i x =>
          show IsVariableName ((ctx.nameOf? i).getD x)
          cases hi : ctx.nameOf? i with
          | some y => exact hctx y (Context.mem_names (Context.mem_of_nameOf? hi))
          | none => exact hnames x (by simp [names, Var.name])
  | app fn arg ihf iha =>
      exact ⟨ihf (fun x hx => hnames x (List.mem_append_left _ hx)) hctx
          fun p hp => hparams p (List.mem_append_left _ hp),
        iha (fun x hx => hnames x (List.mem_append_right _ hx)) hctx
          fun p hp => hparams p (List.mem_append_right _ hp)⟩
  | lam param body ih =>
      have hbody : ∀ x ∈ body.names, IsVariableName x := by
        intro x hx
        exact hnames x (List.mem_cons_of_mem _ hx)
      cases param with
      | free x =>
          exact ⟨hnames x (List.mem_cons_self ..),
            ih hbody hctx fun p hp => hparams p (List.mem_cons_of_mem _ hp)⟩
      | bound i x =>
          have hshown : IsVariableName (showName (free ++ ctx.names) x) := by
            have hlength := hparams _ (List.mem_cons_self ..)
            unfold showName at hlength ⊢
            split at hlength
            · next hx =>
                obtain ⟨j, hj, -⟩ := exists_freeName_eq (free ++ ctx.names)
                rw [if_pos hx]
                rw [hj] at hlength ⊢
                exact isVariableName_displayName hlength
            · next hx =>
                rw [if_neg hx]
                exact hnames x (List.mem_cons_self ..)
          refine ⟨hshown, ih hbody ?_ ?_⟩
          · intro y hy
            rcases List.mem_cons.1 hy with rfl | hy
            · exact hshown
            · exact hctx y hy
          · intro p hp
            exact hparams p (List.mem_cons_of_mem _ hp)

/-- **Printing and reading agree.**  Of a hygienic term without loose variables, whose
names are single characters and which is shown with single characters for its
parameters, the printed form is read back exactly if it does not contain the sign of a
definition; what is read has the same meaning, the same free names and the same printed
form. -/
theorem render_round_trip (t : Term) (ht : t.Hygienic) (hloose : t.looseIds = [])
    (hnames : ∀ x ∈ t.names, IsVariableName x)
    (hparams : ∀ e, t.named = .ok e → ∀ p ∈ e.params, p.length = 1) :
    ∃ text, t.render = .ok text ∧
      ((∃ e, Expr.parse text = .ok e) ↔ ¬assignChars <:+: text.toList) ∧
      ∀ e, Expr.parse text = .ok e →
        (ofExpr e).bind.nameless = t.nameless ∧
        (ofExpr e).bind.freeNames = t.freeNames ∧
        (ofExpr e).bind.render = .ok text := by
  have hclosed := ht.closedIn hloose
  have hnamed := named_eq hclosed
  have hmeaning : (t.display t.freeNames []).nameless = t.nameless :=
    namelessIn_display hclosed (Context.proper_nil t.freeNames) fun x hx => hx
  have htidy : (t.display t.freeNames []).Tidy t.freeNames :=
    (tidy_display ht.numbered t.freeNames []).congr fun x => by simp [Context.names]
  have hplain := plain_display hnames (fun _ h => by cases h) (hparams _ hnamed)
  generalize t.display t.freeNames [] = shown at hnamed hmeaning htidy hplain
  obtain ⟨hread, hrefused⟩ := Expr.parse_compact hplain
  refine ⟨shown.compact, by rw [render, hnamed]; rfl, ⟨?_, ?_⟩, ?_⟩
  · rintro ⟨e, he⟩ hassign
    exact hrefused hassign e he
  · intro hassign
    exact ⟨shown, hread hassign⟩
  · intro e he
    -- what is read is the expression that the term was shown as
    have hassign : ¬assignChars <:+: shown.compact.toList := fun h => hrefused h e he
    obtain rfl : shown = e := Except.ok.inj ((hread hassign).symm.trans he)
    have hnameless : (ofExpr shown).bind.nameless = t.nameless :=
      (nameless_bind_ofExpr shown).trans hmeaning
    have hfree : (ofExpr shown).bind.freeNames = t.freeNames := by
      rw [← freeNames_namelessIn _ [], ← freeNames_namelessIn t []]
      exact congrArg Nameless.freeNames hnameless
    refine ⟨hnameless, hfree, ?_⟩
    rw [render, named_bind_ofExpr (hfree ▸ htidy)]
    rfl

-- two names next to each other may be the sign of a definition
example : (app (.var (.free ":")) (.var (.free "="))).render = .ok ":=" := by
  decide +kernel

/-- The theorem at a term in which `y` is free and two functions were written with `y`
too, one inside of the other: both are shown under other names. -/
theorem render_round_trip_renamed :
    let t : Term := .lam (.bound 1 "y") (.app (.var (.bound 1 "y")) (.app (.var (.free "y"))
      (.lam (.bound 2 "x") (.lam (.bound 3 "y")
        (.app (.var (.bound 1 "y")) (.var (.bound 3 "y")))))))
    let shown : Expr := .lam "a" (.app (.var "a") (.app (.var "y")
      (.lam "x" (.lam "b" (.app (.var "a") (.var "b"))))))
    t.Hygienic ∧ t.looseIds = [] ∧ (∀ x ∈ t.names, IsVariableName x) ∧ t.named = .ok shown ∧
      (∀ p ∈ shown.params, p.length = 1) ∧
      ∃ e, Expr.parse "λa.(a(y(λxb.(ab))))" = .ok e ∧
        (ofExpr e).bind.nameless = t.nameless ∧
        (ofExpr e).bind.render = .ok "λa.(a(y(λxb.(ab))))" := by
  intro t shown
  have ht : t.Hygienic := by decide +zetaReduce
  have hnames : ∀ x ∈ t.names, IsVariableName x := by
    intro x hx
    have hxy : x = "x" ∨ x = "y" := by
      simp only [t, names, Var.name, List.mem_cons, List.mem_append, List.not_mem_nil] at hx
      grind
    rcases hxy with rfl | rfl
    · exact ⟨'x', rfl, by decide⟩
    · exact ⟨'y', rfl, by decide⟩
  have hnamed : t.named = .ok shown := by decide +kernel +zetaReduce
  have hparams : ∀ p ∈ shown.params, p.length = 1 := by decide +zetaReduce
  have hrender : t.render = .ok "λa.(a(y(λxb.(ab))))" := by decide +kernel +zetaReduce
  obtain ⟨text, htext, hread, hback⟩ := render_round_trip t ht rfl hnames fun e he => by
    obtain rfl : shown = e := Except.ok.inj (hnamed.symm.trans he)
    exact hparams
  obtain rfl : text = "λa.(a(y(λxb.(ab))))" := Except.ok.inj (htext.symm.trans hrender)
  obtain ⟨e, he⟩ := hread.2 (by decide +kernel)
  exact ⟨ht, rfl, hnames, hnamed, hparams, e, he, (hback e he).1, (hback e he).2.2⟩

end Term

end UntypedLambda
