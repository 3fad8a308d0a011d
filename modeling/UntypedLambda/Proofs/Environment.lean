import UntypedLambda.Environment
import UntypedLambda.Proofs.Reduction.Hygiene
import UntypedLambda.Proofs.Term.Binding
import UntypedLambda.Proofs.Token

/-!
# Filling in definitions

A name that a line leaves free is replaced by a copy of the term it stands for.  The copy
has functions of its own, and nothing in it is loose, so it means the same wherever it is
put: neither is one of its names captured by a function of the line, nor is it looked up
again.

* `Term.IsValue` — a term that stands by itself and is fully evaluated.
* `Environment.Sound` — an environment in which every name stands for a value.
* `Environment.resolve_eq` — when an expression is refused, and what becomes of it
  otherwise.
* `Environment.namelessIn_fillIn` — filling in definitions means replacing free names.
* `Environment.Resolves` — what is known of an expression with its definitions filled in.
-/

namespace UntypedLambda

/-- All numbers in an expression with resolved names have been drawn for it. -/
theorem Term.known_bind_ofExpr (e : Expr) :
    (ofExpr e).bind.Known (Supply.empty.draw e.functions) := by
  intro i hi
  have hdrawn : i ∈ Supply.empty.numbers e.functions := by
    rw [mem_ids_iff, (closedIn_bind_ofExpr e).looseIds_eq_nil, bind_ofExpr, binders_bindAt] at hi
    simpa using hi
  have hlt := ((Supply.mem_numbers _ _ i).1 hdrawn).2
  exact ⟨(Supply.mem_used_draw _ _ i).2 (.inr hdrawn), by rwa [Supply.draw_next]⟩

/-- A term that stands by itself and is fully evaluated. -/
structure Term.IsValue (v : Term) : Prop where
  /-- One number means one function. -/
  hygienic : v.Hygienic
  /-- Every variable with a number stands in the function with that number. -/
  closed : v.looseIds = []
  /-- Nothing is left to contract. -/
  normal : v.IsNormal
  /-- All names are single characters. -/
  names : ∀ x ∈ v.names, IsVariableName x

/-- The definition `d` lets the name `x` stand for a value. -/
structure Definition.Defines (d : Definition) (x : String) : Prop where
  /-- The name is a single character. -/
  plain : IsVariableName x
  /-- The definition is one of this name. -/
  name : d.name = x
  /-- The term is a value. -/
  value : d.term.IsValue

namespace Environment

/-- Every name stands for a value. -/
def Sound (env : Environment) : Prop := ∀ x d, env.get? x = some d → d.Defines x

theorem sound_empty : Sound Table.empty := by
  intro x d h
  cases h

/-- Fills in a copy of its term for every free name that is defined. -/
def fillIn (env : Environment) : Term → Supply → Term × Supply
  | .var (.bound id name), s => (.var (.bound id name), s)
  | .var (.free name), s =>
      match env.get? name with
      | some d => d.term.refresh [] s
      | none => (.var (.free name), s)
  | .app fn arg, s =>
      let fn' := env.fillIn fn s
      let arg' := env.fillIn arg fn'.2
      (.app fn'.1 arg'.1, arg'.2)
  | .lam param body, s =>
      let body' := env.fillIn body s
      (.lam param body'.1, body'.2)

/-- The first free name that must be defined and is not. -/
def undefined? (env : Environment) (strict : Bool) (t : Term) : Option String :=
  t.freeNames.find? fun x => strict && !env.contains x

@[simp] theorem undefined?_false (env : Environment) (t : Term) :
    env.undefined? false t = none := by
  simp [undefined?]

/-- Names are looked up from left to right, and the first one that is missing is reported;
if none is missing, all of them are filled in. -/
theorem resolve_lookup (env : Environment) (strict : Bool) (t : Term) (s : Supply) :
    t.resolve (env.lookup strict) s =
      match env.undefined? strict t with
      | some x => .error (.undefined x)
      | none => .ok (env.fillIn t s) := by
  induction t generalizing s with
  | var v =>
      cases v with
      | bound i x => rfl
      | free x =>
          cases hx : env.get? x <;> cases strict <;>
            simp [-Term.refresh_supply, Term.resolve, lookup, undefined?, Term.freeNames, fillIn,
              Table.contains, hx]
  | app fn arg ihf iha =>
      simp only [Term.resolve, ihf, iha, undefined?, Term.freeNames, List.find?_append, fillIn]
      cases fn.freeNames.find? fun x => strict && !env.contains x with
      | some x => rfl
      | none =>
          cases arg.freeNames.find? fun x => strict && !env.contains x <;> rfl
  | lam param body ih =>
      simp only [Term.resolve, ih, undefined?, Term.freeNames, fillIn]
      cases body.freeNames.find? fun x => strict && !env.contains x <;> rfl

/-! ## Functions and variables -/

/-- Numbers are drawn for the functions that are filled in, and for nothing else. -/
theorem exists_draw_fillIn (env : Environment) (t : Term) (s : Supply) :
    ∃ n, (env.fillIn t s).2 = s.draw n ∧
      ∀ i ∈ (env.fillIn t s).1.binders, i ∈ t.binders ∨ i ∈ s.numbers n := by
  fun_induction fillIn env t s with
  | case1 id name s => exact ⟨0, rfl, fun i hi => .inl hi⟩
  | case2 name s d hd =>
      refine ⟨d.term.binders.length, Term.refresh_supply .., fun i hi => .inr ?_⟩
      rwa [Term.binders_refresh] at hi
  | case3 name s hnone => exact ⟨0, rfl, fun i hi => .inl hi⟩
  | case4 fn arg s fn' arg' ihf iha =>
      obtain ⟨m, hm, hbf⟩ := ihf
      obtain ⟨n, hn, hba⟩ := iha
      refine ⟨m + n, ?_, fun i hi => ?_⟩
      · show (env.fillIn arg fn'.2).2 = _
        rw [hn, hm, Supply.draw_add]
      · rw [Term.binders, List.mem_append, Supply.numbers_add, List.mem_append]
        rcases List.mem_append.1 hi with hi | hi
        · exact (hbf i hi).imp .inl .inl
        · have hdrawn := hba i hi
          rw [hm] at hdrawn
          exact hdrawn.imp .inr .inr
  | case5 param body s body' ih =>
      obtain ⟨n, hn, hb⟩ := ih
      refine ⟨n, hn, fun i hi => ?_⟩
      rw [Term.binders, List.mem_append, or_assoc]
      exact (List.mem_append.1 hi).imp_right (hb i)

theorem nodup_binders_fillIn {t : Term} {s : Supply} (env : Environment)
    (h : t.binders.Nodup) (hlt : ∀ i ∈ t.binders, i < s.next) :
    (env.fillIn t s).1.binders.Nodup := by
  fun_induction fillIn env t s with
  | case1 id name s => exact List.nodup_nil
  | case2 name s d hd =>
      rw [Term.binders_refresh]
      exact Supply.nodup_numbers _ _
  | case3 name s hnone => exact List.nodup_nil
  | case4 fn arg s fn' arg' ihf iha =>
      obtain ⟨hf, ha, -⟩ := List.nodup_append.1 h
      obtain ⟨m, hm, hbf⟩ := env.exists_draw_fillIn fn s
      obtain ⟨n, -, hba⟩ := env.exists_draw_fillIn arg fn'.2
      have hlt' : ∀ i ∈ arg.binders, i < fn'.2.next := by
        intro i hi
        have := hlt i (List.mem_append_right _ hi)
        rw [hm, Supply.draw_next]
        omega
      exact Supply.nodup_append_of_drawn h hlt hm
        (ihf hf fun i hi => hlt i (List.mem_append_left _ hi)) hbf (iha ha hlt') hba
  | case5 param body s body' ih =>
      obtain ⟨hp, hb, -⟩ := List.nodup_append.1 h
      obtain ⟨n, -, hbb⟩ := env.exists_draw_fillIn body s
      have hbody := ih hb fun i hi => hlt i (List.mem_append_right _ hi)
      exact Supply.nodup_append_of_drawn (m := 0) h hlt rfl hp (fun i => .inl) hbody hbb

section Sound

variable {env : Environment}

theorem numbered_fillIn (henv : env.Sound) {t : Term} (ht : t.Numbered) (s : Supply) :
    (env.fillIn t s).1.Numbered := by
  fun_induction fillIn env t s with
  | case1 id name s => trivial
  | case2 name s d hd => exact Term.numbered_refresh (henv name d hd).value.hygienic.numbered [] s
  | case3 name s hnone => trivial
  | case4 fn arg s fn' arg' ihf iha => exact ⟨ihf ht.1, iha ht.2⟩
  | case5 param body s body' ih => exact ⟨ht.1, ih ht.2⟩

/-- What is filled in has no loose variables, and there it cannot bind any. -/
theorem looseIds_fillIn (henv : env.Sound) (t : Term) (s : Supply) :
    (env.fillIn t s).1.looseIds = t.looseIds := by
  fun_induction fillIn env t s with
  | case1 id name s => rfl
  | case2 name s d hd =>
      have hclosed := (henv name d hd).value.closed
      rw [Term.looseIds_refresh (by simp [hclosed]), hclosed]
      rfl
  | case3 name s hnone => rfl
  | case4 fn arg s fn' arg' ihf iha =>
      show fn'.1.looseIds ++ arg'.1.looseIds = _
      rw [ihf, iha, Term.looseIds]
  | case5 param body s body' ih =>
      show body'.1.looseIds.filter _ = _
      rw [ih, Term.looseIds]

/-- All names that are brought in are single characters. -/
theorem mem_names_fillIn (henv : env.Sound) {t : Term} {s : Supply} {x : String}
    (h : x ∈ (env.fillIn t s).1.names) : x ∈ t.names ∨ IsVariableName x := by
  fun_induction fillIn env t s with
  | case1 id name s => exact .inl h
  | case2 name s d hd =>
      rw [Term.names_refresh] at h
      exact .inr ((henv name d hd).value.names x h)
  | case3 name s hnone => exact .inl h
  | case4 fn arg s fn' arg' ihf iha =>
      rw [Term.names, List.mem_append]
      rcases List.mem_append.1 h with hf | ha
      · exact (ihf hf).imp_left .inl
      · exact (iha ha).imp_left .inr
  | case5 param body s body' ih =>
      rw [Term.names, List.mem_cons, or_assoc]
      exact (List.mem_cons.1 h).imp_right ih

/-- Filling in definitions keeps a term hygienic: the copies have functions of their own. -/
theorem hygienic_fillIn (henv : env.Sound) {t : Term} {s : Supply} (ht : t.Hygienic)
    (hk : t.Known s) : (env.fillIn t s).1.Hygienic := by
  have hlt : ∀ i ∈ t.binders, i < s.next := by
    intro i hi
    exact (hk i ((t.mem_ids_iff i).2 (.inl hi))).2
  refine ⟨numbered_fillIn henv ht.numbered s, nodup_binders_fillIn env ht.nodup hlt, ?_⟩
  intro i hi hb
  rw [looseIds_fillIn henv] at hi
  obtain ⟨n, -, hdrawn⟩ := env.exists_draw_fillIn t s
  rcases hdrawn i hb with hb | hb
  · exact ht.inside i hi hb
  · have hused := (hk i ((t.mem_ids_iff i).2 (.inr hi))).2
    rw [Supply.mem_numbers] at hb
    omega

/-! ## Meaning -/

/-- What the names of an environment stand for, read in a scope. -/
def meaningIn (env : Environment) (scope : List (Option Int)) (x : String) : Option Nameless :=
  (env.get? x).map fun d => d.term.namelessIn scope

/-- Inside of one more function, definitions mean the same, since nothing in them is loose. -/
theorem meaningIn_cons (henv : env.Sound) (d : Option Int) (scope : List (Option Int)) :
    env.meaningIn (d :: scope) = fun x => (env.meaningIn scope x).map (Nameless.shift 0) := by
  funext x
  unfold meaningIn
  cases hx : env.get? x with
  | none => rfl
  | some e =>
      have hclosed := (henv x e hx).value.closed
      rw [Option.map_some, Option.map_some, Option.map_some,
        Term.namelessIn_cons scope (by simp [hclosed])]

/-- **Filling in definitions means replacing free names.**  All of them are replaced at once,
and without capture. -/
theorem namelessIn_fillIn (henv : env.Sound) (t : Term) (s : Supply) (scope : List (Option Int)) :
    (env.fillIn t s).1.namelessIn scope =
      (t.namelessIn scope).instantiate (env.meaningIn scope) := by
  fun_induction fillIn env t s generalizing scope with
  | case1 id name s =>
      simp only [Term.namelessIn, Term.namelessVar]
      split <;> rfl
  | case2 name s d hd =>
      have hclosed := (henv name d hd).value.closed
      rw [Term.namelessIn_refresh (by simp [hclosed])]
      simp [Term.namelessIn, Term.namelessVar, Nameless.instantiate, meaningIn, hd]
  | case3 name s hnone =>
      simp [Term.namelessIn, Term.namelessVar, Nameless.instantiate, meaningIn, hnone]
  | case4 fn arg s fn' arg' ihf iha =>
      show Nameless.app (fn'.1.namelessIn scope) (arg'.1.namelessIn scope) = _
      rw [ihf, iha, Term.namelessIn, Nameless.instantiate]
  | case5 param body s body' ih =>
      show Nameless.lam (body'.1.namelessIn (param.id? :: scope)) = _
      rw [ih, meaningIn_cons henv, Term.namelessIn, Nameless.instantiate]

end Sound

/-! ## Expressions -/

/-- When an expression is refused, and what becomes of it otherwise. -/
theorem resolve_eq (env : Environment) (strict : Bool) (e : Expr) :
    env.resolve strict e =
      match env.undefined? strict (Term.ofExpr e).bind with
      | some x => .error (.undefined x)
      | none => .ok (env.fillIn (Term.ofExpr e).bind (Supply.empty.draw e.functions)).1 := by
  obtain ⟨sc, hb⟩ := Term.exists_bind_ofExpr Supply.empty e
  unfold resolve
  rw [hb, Term.bind_ofExpr]
  simp only [resolve_lookup, Term.bindAt_supply]
  cases env.undefined? strict (e.bindAt [] Supply.empty).1 <;> rfl

/-- The term `t` is the expression `e` with its names resolved and its definitions filled in. -/
structure Resolves (env : Environment) (e : Expr) (t : Term) : Prop where
  /-- One number means one function. -/
  hygienic : t.Hygienic
  /-- Every variable with a number stands in the function with that number. -/
  closed : t.looseIds = []
  /-- All names that are not in the expression are single characters. -/
  names : ∀ x ∈ t.names, x ∈ (Term.ofExpr e).names ∨ IsVariableName x
  /-- What is free in the expression and defined has been replaced, and nothing else. -/
  meaning : t.nameless = (Term.ofExpr e).bind.nameless.instantiate (env.meaningIn [])

theorem resolves_of_resolve {env : Environment} (henv : env.Sound) {strict : Bool} {e : Expr}
    {t : Term} (h : env.resolve strict e = .ok t) : env.Resolves e t := by
  rw [resolve_eq] at h
  cases hmissing : env.undefined? strict (Term.ofExpr e).bind with
  | some x =>
      rw [hmissing] at h
      cases h
  | none =>
      rw [hmissing] at h
      cases h
      have hclosed := Term.closedIn_bind_ofExpr e
      refine ⟨hygienic_fillIn henv hclosed.hygienic (Term.known_bind_ofExpr e), ?_, ?_, ?_⟩
      · rw [looseIds_fillIn henv, hclosed.looseIds_eq_nil]
      · intro x hx
        rw [← Term.names_bindAt e [] Supply.empty, ← Term.bind_ofExpr]
        exact mem_names_fillIn henv hx
      · exact namelessIn_fillIn henv _ _ []

end Environment

end UntypedLambda
