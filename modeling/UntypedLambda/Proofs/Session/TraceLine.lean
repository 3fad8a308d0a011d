import UntypedLambda.Proofs.Session.Tracing

/-!
# Reading contractions back

For a contraction, its two sides are printed by themselves.  A variable whose function is further
out is loose in both of them, and gets a name in each that depends on what else is there.  So the
two sides show a contraction up to the names of such variables.

* `Session.exists_printed_of_mem` — every contraction is printed.
* `Session.ReadsBack` — what is read on the right is what is read on the left, contracted.
* `Session.trace_line_reads_back` — this holds up to the names of variables from further out, and
  exactly if these have the same names on both sides.
* `Session.trace_line_outer_name_differs` — they need not have.
-/

namespace UntypedLambda

/-- Names that tell the loose variables of a redex apart do so for the contractum. -/
theorem Contraction.Sound.distinguishes {c : Contraction} (h : c.Sound) {ρ : Int → String}
    (hρ : c.redex.Distinguishes ρ) : c.contractum.Distinguishes ρ where
  inj i hi j hj heq := hρ.inj i (h.loose hi) j (h.loose hj) heq
  notFree i hi hx := hρ.notFree i (h.loose hi) (h.free hx)

namespace Session

variable {s : Session}

/-- A session that prints contractions prints each of them somewhere. -/
theorem exists_printed_of_mem (hs : s.Sound) (htrace : s.trace = true) {fuel : Nat}
    {source : String} {c : Contraction} (hc : c ∈ s.contractions fuel source)
    {left right : String} (hleft : c.redex.render = .ok left)
    (hright : c.contractum.render = .ok right) (number : Int) :
    ∃ before after, (s.add fuel source number).printed =
      before ++ (s.reporter.style.bold none "β  " ++ left ++ "  →  " ++ right ++ "\n") ++
        after := by
  obtain ⟨cs, cs', hcs⟩ := List.append_of_mem hc
  rw [printed_add hs, hcs]
  refine ⟨(s.progress cs).printed, (s.progress cs').printed, ?_⟩
  simp only [progress, List.map_append, List.map_cons, String.join_append, String.join_cons,
    traceText_of_trace htrace hleft hright, Except.toOption, Option.getD_some,
    String.append_assoc]

/-- Both texts can be read; the left one is a redex, and contracting it gives the right one, free
names included. -/
def ReadsBack (left right : String) : Prop :=
  ∃ e e' body arg, Expr.parse left = .ok e ∧ Expr.parse right = .ok e' ∧
    (Term.ofExpr e).bind.nameless = .app (.lam body) arg ∧
    (Term.ofExpr e').bind.nameless = Nameless.contract body arg

/-- **A contraction as it is printed can be read back**, up to the names of variables from further
out.  Let a session print contractions, in any state that lines have led to.  Each contraction of
a line is printed; let both sides have single characters for names and no sign of a definition in
them.  Then both sides can be read, and the left one is a redex.  What it is contracted to, and
what is read on the right, are the contractum with names for its loose variables, each time names
that tell these apart from each other and from what is free.  The two are the same, free names
included, exactly if every variable that is loose in the contractum has the same name on both
sides. -/
theorem trace_line_reads_back (reporter : Reporter) (strict : Bool) (maxSteps : Bound)
    (path : String) (s : Session) (h : Reachable (new reporter strict maxSteps true path) s)
    (fuel : Nat) (source : String) (number : Int) (c : Contraction)
    (hc : c ∈ s.contractions fuel source) (left right : String)
    (hleft : c.redex.render = .ok left) (hright : c.contractum.render = .ok right)
    (hsingle : c.redex.ShownInCharacters ∧ c.contractum.ShownInCharacters)
    (hassign : ¬assignChars <:+: left.toList ∧ ¬assignChars <:+: right.toList) :
    (∃ before after, (s.add fuel source number).printed =
      before ++ (s.reporter.style.bold none "β  " ++ left ++ "  →  " ++ right ++ "\n") ++
        after) ∧
    ∃ e e' body arg ρ ρ',
      Expr.parse left = .ok e ∧ Expr.parse right = .ok e' ∧
      (Term.ofExpr e).bind.nameless = .app (.lam body) arg ∧
      c.redex.Distinguishes ρ ∧ (Term.ofExpr e).bind.nameless = c.redex.nameless.nameLoose ρ ∧
      c.contractum.Distinguishes ρ ∧
      Nameless.contract body arg = c.contractum.nameless.nameLoose ρ ∧
      c.contractum.Distinguishes ρ' ∧
      (Term.ofExpr e').bind.nameless = c.contractum.nameless.nameLoose ρ' ∧
      (ReadsBack left right ↔ ∀ i ∈ c.contractum.looseIds, ρ i = ρ' i) := by
  have hs := h.sound (sound_new reporter strict maxSteps true path)
  have hsound := sound_of_mem_contractions hs hc
  refine ⟨exists_printed_of_mem hs h.settings.2 hc hleft hright number, ?_⟩
  obtain ⟨e, ρ, hparse, hρ, hmeaning⟩ :=
    hsound.redex.exists_parse_render hsound.plain hsingle.1 hleft hassign.1
  obtain ⟨e', ρ', hparse', hρ', hmeaning'⟩ := hsound.contractum.exists_parse_render
    (fun x hx => hsound.plain x (hsound.names hx)) hsingle.2 hright hassign.2
  obtain ⟨body, arg, hredex, hcontractum⟩ := hsound.meaning
  have hshown : (Term.ofExpr e).bind.nameless =
      .app (.lam (body.nameLoose ρ)) (arg.nameLoose ρ) := by
    rw [hmeaning, hredex]
    rfl
  have hcontract : Nameless.contract (body.nameLoose ρ) (arg.nameLoose ρ) =
      c.contractum.nameless.nameLoose ρ := by
    rw [hcontractum, Nameless.nameLoose_contract]
  refine ⟨e, e', _, _, ρ, ρ', hparse, hparse', hshown, hρ, hmeaning, hsound.distinguishes hρ,
    hcontract, hρ', hmeaning', ?_⟩
  rw [← Term.nameLoose_nameless_eq_iff, ← hcontract, ← hmeaning']
  constructor
  · rintro ⟨e₁, e₂, body', arg', h₁, h₂, hbeta, hback⟩
    cases hparse.symm.trans h₁
    cases hparse'.symm.trans h₂
    cases hshown.symm.trans hbeta
    exact hback.symm
  · intro hback
    exact ⟨e, e', _, _, hparse, hparse', hshown, hback.symm⟩

/-- The theorem at the line `λx.(λy.yx)x`: the `x` of the outer function is shown as `x` on both
sides of the contraction. -/
theorem trace_line_reads_back_same_name :
    let s := new default false .none true inputPath
    (∃ before after, (s.add 1 "λx.(λy.yx)x" 1).printed =
      before ++ "β  (λy.(yx))x  →  xx\n" ++ after) ∧ ReadsBack "(λy.(yx))x" "xx" := by
  intro s
  let outer : Term := .var (.bound 1 "x")
  let fn : Term := .lam (.bound 2 "y") (.app (.var (.bound 2 "y")) outer)
  let c : Contraction := ⟨fn, outer, .app outer outer⟩
  have htask : s.environment.task s.strict "λx.(λy.yx)x" =
      .reduce (.expression (.lam "x" (.app (.lam "y" (.app (.var "y") (.var "x"))) (.var "x"))))
        (.lam (.bound 1 "x") (.app fn outer)) := by rfl
  have hcontractions : s.contractions 1 "λx.(λy.yx)x" = [c] := by
    rw [contractions_of_task htask, Reducer.run_eq_iterate]
    rfl
  have hleft : c.redex.render = .ok "(λy.(yx))x" := by decide +kernel +zetaReduce
  have hright : c.contractum.render = .ok "xx" := by decide +kernel +zetaReduce
  have hnamed : c.redex.named = .ok (.app (.lam "y" (.app (.var "y") (.var "x"))) (.var "x")) := by
    decide +kernel +zetaReduce
  have hnamed' : c.contractum.named = .ok (.app (.var "x") (.var "x")) := by
    decide +kernel +zetaReduce
  have hsingle : c.redex.ShownInCharacters ∧ c.contractum.ShownInCharacters := by
    refine ⟨fun e he => ?_, fun e he => ?_⟩
    · cases hnamed.symm.trans he
      decide
    · cases hnamed'.symm.trans he
      decide
  obtain ⟨hprinted, e, e', body, arg, ρ, ρ', hparse, hparse', -, -, hmeaning, -, -, -, hmeaning',
      hback⟩ :=
    trace_line_reads_back default false .none inputPath s .refl 1 "λx.(λy.yx)x" 1 c
      (by rw [hcontractions]; exact List.mem_singleton_self c) _ _ hleft hright hsingle
      (by decide +kernel)
  have hread : Expr.parse "(λy.(yx))x" =
      .ok (.app (.lam "y" (.app (.var "y") (.var "x"))) (.var "x")) := by rfl
  have hread' : Expr.parse "xx" = .ok (.app (.var "x") (.var "x")) := by rfl
  cases hread.symm.trans hparse
  cases hread'.symm.trans hparse'
  -- the argument of either side is the outer variable
  have hname : ρ 1 = "x" := (Nameless.free.inj (Nameless.app.inj hmeaning).2).symm
  have hname' : ρ' 1 = "x" := (Nameless.free.inj (Nameless.app.inj hmeaning').2).symm
  refine ⟨hprinted, hback.2 ?_⟩
  intro i hi
  obtain rfl : i = 1 := by simpa [c, outer, Term.looseIds, Var.id?] using hi
  rw [hname, hname']

/-- **The names of variables from further out may differ.**  In the line `λx.(λy.λx.y)x`, the redex
is shown as `(λyx.y)x`, where the last `x` is that of the outer function; but in the contractum
this variable stands in a function with parameter `x` too, and is shown as `a`.  So the left side
is contracted to a function whose value is always the free `x`, and on the right stands one whose
value is always the free `a`. -/
theorem trace_line_outer_name_differs :
    let s := new default false .none true inputPath
    let c : Contraction :=
      ⟨.lam (.bound 2 "y") (.lam (.bound 3 "x") (.var (.bound 2 "y"))), .var (.bound 1 "x"),
        .lam (.bound 3 "x") (.var (.bound 1 "x"))⟩
    s.contractions 1 "λx.(λy.λx.y)x" = [c] ∧
      c.redex.render = .ok "(λyx.y)x" ∧ c.contractum.render = .ok "λx.a" ∧
      c.redex.ShownInCharacters ∧ c.contractum.ShownInCharacters ∧
      ¬assignChars <:+: "(λyx.y)x".toList ∧ ¬assignChars <:+: "λx.a".toList ∧
      ¬ReadsBack "(λyx.y)x" "λx.a" := by
  intro s c
  have htask : s.environment.task s.strict "λx.(λy.λx.y)x" =
      .reduce (.expression (.lam "x" (.app (.lam "y" (.lam "x" (.var "y"))) (.var "x"))))
        (.lam (.bound 1 "x") c.redex) := by rfl
  have hnamed : c.redex.named = .ok (.app (.lam "y" (.lam "x" (.var "y"))) (.var "x")) := by
    decide +kernel +zetaReduce
  have hnamed' : c.contractum.named = .ok (.lam "x" (.var "a")) := by
    decide +kernel +zetaReduce
  refine ⟨?_, by decide +kernel +zetaReduce, by decide +kernel +zetaReduce, fun e he => ?_,
    fun e he => ?_, by decide +kernel, by decide +kernel, ?_⟩
  · rw [contractions_of_task htask, Reducer.run_eq_iterate]
    rfl
  · cases hnamed.symm.trans he
    decide
  · cases hnamed'.symm.trans he
    decide
  · rintro ⟨e, e', body, arg, hparse, hparse', hredex, hback⟩
    have hread : Expr.parse "(λyx.y)x" =
        .ok (.app (.lam "y" (.lam "x" (.var "y"))) (.var "x")) := by rfl
    have hread' : Expr.parse "λx.a" = .ok (.lam "x" (.var "a")) := by rfl
    cases hread.symm.trans hparse
    cases hread'.symm.trans hparse'
    rw [Term.nameless_bind_ofExpr] at hredex hback
    cases hredex
    exact absurd hback (by decide)

end Session

end UntypedLambda
