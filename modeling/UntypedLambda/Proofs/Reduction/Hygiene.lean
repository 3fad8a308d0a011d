import UntypedLambda.Proofs.Reduction.Trace
import UntypedLambda.Proofs.Term.Copying
import UntypedLambda.Proofs.Term.Places

/-!
# Reduction keeps terms hygienic

Substitution copies an argument as often as its parameter occurs, and puts the
copies under whatever functions stand there.  This file shows that one number
still means one function afterwards, in the part that was contracted and in the
term around it, because all functions of a copy have numbers that were in use
nowhere.

* `hygienic_app_iff`, `hygienic_lam_iff` — hygiene in terms of the parts.
* `Evolves` — what may become of a term: its functions are old or freshly drawn,
  and nothing new is loose or free.
* `Evolves.put` — a part that evolves lets the whole term evolve.
* `evolves_contract` — a contraction lets its redex evolve.
* `Reducer.run_hygienic` — every step of a run finds and leaves a hygienic term.
-/

namespace UntypedLambda

namespace Term

/-- The numbers of the term are in use, and below the one handed out next. -/
def Known (t : Term) (s : Supply) : Prop := ∀ i ∈ t.ids, i ∈ s.used ∧ i < s.next

/-- Nothing happens to the numbers in use when others are drawn. -/
theorem Known.draw {t : Term} {s : Supply} (h : t.Known s) (n : Nat) : t.Known (s.draw n) := by
  intro i hi
  obtain ⟨hu, hlt⟩ := h i hi
  rw [Supply.mem_used_draw, Supply.draw_next]
  exact ⟨.inl hu, by omega⟩

theorem known_app_iff {fn arg : Term} {s : Supply} :
    (app fn arg).Known s ↔ fn.Known s ∧ arg.Known s := by
  unfold Known
  rw [ids]
  exact List.forall_mem_append

/-- Once its numbers are reserved, a term is known. -/
theorem known_reserve (s : Supply) (t : Term) : t.Known (s.reserve t.ids) := by
  intro i hi
  exact ⟨(s.mem_used_reserve t.ids i).2 (.inl hi), s.lt_next_reserve hi⟩

/-! ## Parts of a hygienic term -/

/-- No function of one of the two terms has a number that the other one uses. -/
def Apart (t u : Term) : Prop := (∀ i ∈ t.binders, i ∉ u.ids) ∧ ∀ i ∈ u.binders, i ∉ t.ids

theorem Apart.symm {t u : Term} (h : t.Apart u) : u.Apart t := And.symm h

/-- An application is hygienic if its parts are, and are apart from each other. -/
theorem hygienic_app_iff {fn arg : Term} :
    (app fn arg).Hygienic ↔ fn.Hygienic ∧ arg.Hygienic ∧ fn.Apart arg := by
  constructor
  · intro h
    obtain ⟨-, -, hd⟩ := List.nodup_append.1 h.nodup
    refine ⟨h.fn, h.arg, ?_, ?_⟩
    · intro i hi ha
      rcases (mem_ids_iff arg i).1 ha with ha | ha
      · exact hd i hi i ha rfl
      · exact h.inside i (List.mem_append_right _ ha) (List.mem_append_left _ hi)
    · intro i hi hf
      rcases (mem_ids_iff fn i).1 hf with hf | hf
      · exact hd i hf i hi rfl
      · exact h.inside i (List.mem_append_left _ hf) (List.mem_append_right _ hi)
  · rintro ⟨hf, ha, hapart⟩
    refine ⟨⟨hf.numbered, ha.numbered⟩, ?_, ?_⟩
    · refine List.nodup_append.2 ⟨hf.nodup, ha.nodup, ?_⟩
      rintro i hi j hj rfl
      exact hapart.1 i hi ((mem_ids_iff arg i).2 (.inl hj))
    · intro i hi hb
      rcases List.mem_append.1 hi with hl | hl <;> rcases List.mem_append.1 hb with hb | hb
      · exact hf.inside i hl hb
      · exact hapart.2 i hb ((mem_ids_iff fn i).2 (.inr hl))
      · exact hapart.1 i hb ((mem_ids_iff arg i).2 (.inr hl))
      · exact ha.inside i hl hb

/-- A function is hygienic if it has a number, and its body is hygienic without
another function of that number. -/
theorem hygienic_lam_iff {param : Var} {body : Term} :
    (lam param body).Hygienic ↔
      param.id?.isSome = true ∧ body.Hygienic ∧ ∀ i ∈ param.id?.toList, i ∉ body.binders := by
  constructor
  · intro h
    obtain ⟨-, hnodup, hd⟩ := List.nodup_append.1 h.nodup
    have hnot : ∀ i ∈ param.id?.toList, i ∉ body.binders := by
      intro i hi hb
      exact hd i hi i hb rfl
    refine ⟨h.numbered.1, ⟨h.numbered.2, hnodup, ?_⟩, hnot⟩
    intro i hi hb
    by_cases hp : param.id? = some i
    · exact hnot i (Option.mem_toList.2 hp) hb
    · exact h.inside i (mem_looseIds_lam.2 ⟨hi, hp⟩) (List.mem_append_right _ hb)
  · rintro ⟨hparam, hbody, hnot⟩
    refine ⟨⟨hparam, hbody.numbered⟩, ?_, ?_⟩
    · refine List.nodup_append.2 ⟨?_, hbody.nodup, ?_⟩
      · cases param.id? <;> simp
      · rintro i hi j hj rfl
        exact hnot i hi hj
    · intro i hi hb
      obtain ⟨hl, hp⟩ := mem_looseIds_lam.1 hi
      rcases List.mem_append.1 hb with hb | hb
      · exact hp (Option.mem_toList.1 hb)
      · exact hbody.inside i hl hb

theorem Hygienic.body {param : Var} {body : Term} (h : (lam param body).Hygienic) :
    body.Hygienic :=
  (hygienic_lam_iff.1 h).2.1

/-- A part of a hygienic term is hygienic. -/
theorem Hygienic.at? {t r : Term} {p : Path} (ht : t.Hygienic) (h : t.at? p = some r) :
    r.Hygienic := by
  fun_induction Term.at? t p with
  | case1 t =>
      cases h
      exact ht
  | case2 fn arg p ih => exact ih ht.fn h
  | case3 fn arg p ih => exact ih ht.arg h
  | case4 param body p ih => exact ih ht.body h
  | case5 => cases h

theorem mem_ids_of_at? {t r : Term} {p : Path} (h : t.at? p = some r) {i : Int}
    (hi : i ∈ r.ids) : i ∈ t.ids := by
  fun_induction Term.at? t p with
  | case1 t =>
      cases h
      exact hi
  | case2 fn arg p ih => exact List.mem_append_left _ (ih h)
  | case3 fn arg p ih => exact List.mem_append_right _ (ih h)
  | case4 param body p ih => exact List.mem_append_right _ (ih h)
  | case5 => cases h

theorem Known.at? {t r : Term} {s : Supply} {p : Path} (ht : t.Known s) (h : t.at? p = some r) :
    r.Known s := by
  intro i hi
  exact ht i (mem_ids_of_at? h hi)

/-! ## What may become of a term -/

/-- What may become of the term `t` and the supply `s` in a reduction. -/
structure Evolves (t : Term) (s : Supply) (u : Term) (s' : Supply) : Prop where
  /-- The new term is hygienic. -/
  hygienic : u.Hygienic
  /-- Numbers are drawn, and given to functions that are not old ones. -/
  drawn : ∃ n, s' = s.draw n ∧ ∀ i ∈ u.binders, i ∈ t.binders ∨ i ∈ s.numbers n
  /-- No other variable is loose. -/
  loose : ∀ i ∈ u.looseIds, i ∈ t.looseIds
  /-- No other name is free. -/
  free : ∀ x ∈ u.freeNames, x ∈ t.freeNames

namespace Evolves

variable {t u : Term} {s s' : Supply}

theorem known (h : Evolves t s u s') (ht : t.Known s) : u.Known s' := by
  intro i hi
  obtain ⟨n, rfl, hb⟩ := h.drawn
  rw [Supply.mem_used_draw, Supply.draw_next]
  have hold : i ∈ t.ids → i ∈ s.used ∧ i < s.next + n := by
    intro hm
    obtain ⟨hused, hlt⟩ := ht i hm
    exact ⟨hused, by omega⟩
  rcases (mem_ids_iff u i).1 hi with hi | hi
  · rcases hb i hi with hi | hi
    · exact (hold ((mem_ids_iff t i).2 (.inl hi))).imp_left .inl
    · exact ⟨.inr hi, ((Supply.mem_numbers n s i).1 hi).2⟩
  · exact (hold ((mem_ids_iff t i).2 (.inr (h.loose i hi)))).imp_left .inl

/-- A function of the new term that has a number in use is an old one. -/
theorem mem_binders (h : Evolves t s u s') {i : Int} (hi : i ∈ u.binders) (hlt : i < s.next) :
    i ∈ t.binders := by
  obtain ⟨n, -, hb⟩ := h.drawn
  refine (hb i hi).resolve_right ?_
  intro hn
  have := ((Supply.mem_numbers n s i).1 hn).1
  omega

/-- What evolves stays apart from a term whose numbers are in use. -/
theorem apart (h : Evolves t s u s') {v : Term} (hk : v.Known s) (ha : t.Apart v) :
    u.Apart v := by
  have hold : ∀ i ∈ v.ids, i ∈ u.binders → i ∈ t.binders := by
    intro i hi hb
    exact h.mem_binders hb (hk i hi).2
  constructor
  · intro i hi hv
    exact ha.1 i (hold i hv hi) hv
  · intro i hi hu
    have hv := (mem_ids_iff v i).2 (.inl hi)
    have ht : i ∉ t.ids := ha.2 i hi
    rw [mem_ids_iff] at hu ht
    exact ht (hu.imp (hold i hv) (h.loose i))

theorem fn (h : Evolves t s u s') {arg : Term} (ht : (app t arg).Hygienic)
    (hk : arg.Known s) : Evolves (app t arg) s (app u arg) s' := by
  obtain ⟨-, harg, hapart⟩ := hygienic_app_iff.1 ht
  refine ⟨hygienic_app_iff.2 ⟨h.hygienic, harg, h.apart hk hapart⟩, ?_, ?_, ?_⟩
  · obtain ⟨n, hn, hb⟩ := h.drawn
    refine ⟨n, hn, ?_⟩
    intro i hi
    rcases List.mem_append.1 hi with hi | hi
    · exact (hb i hi).imp_left (List.mem_append_left _)
    · exact .inl (List.mem_append_right _ hi)
  · intro i hi
    exact List.mem_append.2 ((List.mem_append.1 hi).imp_left (h.loose i))
  · intro x hx
    exact List.mem_append.2 ((List.mem_append.1 hx).imp_left (h.free x))

theorem arg (h : Evolves t s u s') {fn : Term} (ht : (app fn t).Hygienic)
    (hk : fn.Known s) : Evolves (app fn t) s (app fn u) s' := by
  obtain ⟨hfn, -, hapart⟩ := hygienic_app_iff.1 ht
  refine ⟨hygienic_app_iff.2 ⟨hfn, h.hygienic, (h.apart hk hapart.symm).symm⟩, ?_, ?_, ?_⟩
  · obtain ⟨n, hn, hb⟩ := h.drawn
    refine ⟨n, hn, ?_⟩
    intro i hi
    rcases List.mem_append.1 hi with hi | hi
    · exact .inl (List.mem_append_left _ hi)
    · exact (hb i hi).imp_left (List.mem_append_right _)
  · intro i hi
    exact List.mem_append.2 ((List.mem_append.1 hi).imp_right (h.loose i))
  · intro x hx
    exact List.mem_append.2 ((List.mem_append.1 hx).imp_right (h.free x))

theorem body (h : Evolves t s u s') {param : Var} (ht : (lam param t).Hygienic)
    (hk : (lam param t).Known s) : Evolves (lam param t) s (lam param u) s' := by
  obtain ⟨hparam, -, hnot⟩ := hygienic_lam_iff.1 ht
  refine ⟨hygienic_lam_iff.2 ⟨hparam, h.hygienic, ?_⟩, ?_, ?_, h.free⟩
  · intro i hi hb
    exact hnot i hi (h.mem_binders hb (hk i (List.mem_append_left _ hi)).2)
  · obtain ⟨n, hn, hb⟩ := h.drawn
    refine ⟨n, hn, ?_⟩
    intro i hi
    rcases List.mem_append.1 hi with hi | hi
    · exact .inl (List.mem_append_left _ hi)
    · exact (hb i hi).imp_left (List.mem_append_right _)
  · intro i hi
    obtain ⟨hl, hp⟩ := mem_looseIds_lam.1 hi
    exact mem_looseIds_lam.2 ⟨h.loose i hl, hp⟩

/-- If a part of a hygienic term evolves, so does the term. -/
theorem put {r c : Term} {p : Path} (h : Evolves r s c s') (ht : t.Hygienic) (hk : t.Known s)
    (hp : t.at? p = some r) : Evolves t s (t.put p c) s' := by
  fun_induction Term.at? t p with
  | case1 t =>
      cases hp
      simpa only [Term.put] using h
  | case2 fn arg p ih =>
      obtain ⟨hf, ha⟩ := known_app_iff.1 hk
      exact (ih ht.fn hf hp).fn ht ha
  | case3 fn arg p ih =>
      obtain ⟨hf, ha⟩ := known_app_iff.1 hk
      exact (ih ht.arg ha hp).arg ht hf
  | case4 param body p ih =>
      have hb : body.Known s := by
        intro i hi
        exact hk i (List.mem_append_right _ hi)
      exact (ih ht.body hb hp).body ht hk
  | case5 => cases hp

end Evolves

/-! ## Contractions -/

/-- A contraction of a hygienic redex lets it evolve. -/
theorem evolves_contract {param : Var} {body arg : Term} {s : Supply}
    (h : (app (lam param body) arg).Hygienic) (hk : (app (lam param body) arg).Known s) :
    Evolves (app (lam param body) arg) s (contract param body arg s).1
      (contract param body arg s).2 := by
  cases param with
  | free name => exact absurd h.numbered.1.1 (by simp [Var.id?])
  | bound id name =>
      have hb : ∀ i ∈ body.binders, i < s.next := by
        intro i hi
        have hm := (mem_ids_iff body i).2 (.inl hi)
        exact (hk i (List.mem_append_left _ (List.mem_append_right _ hm))).2
      have ha : ∀ i ∈ arg.looseIds, i < s.next := by
        intro i hi
        have hm := (mem_ids_iff arg i).2 (.inr hi)
        exact (hk i (List.mem_append_right _ hm)).2
      have hloose : ∀ i ∈ (body.substitute id arg s).1.looseIds,
          i ∈ (app (lam (.bound id name) body) arg).looseIds := by
        intro i hi
        rw [looseIds, List.mem_append, mem_looseIds_lam]
        refine (mem_looseIds_substitute ha hi).imp_left ?_
        rintro ⟨hi, hne⟩
        exact ⟨hi, by simpa [Var.id?] using Ne.symm hne⟩
      refine ⟨⟨?_, ?_, ?_⟩, ⟨_, substitute_supply body id arg s, ?_⟩, hloose, ?_⟩
      · exact numbered_substitute h.numbered.1.2 h.numbered.2 id s
      · exact nodup_binders_substitute id arg h.fn.body.nodup hb
      · -- what is loose is below the numbers drawn, and is no old function either
        intro i hi hm
        rcases mem_binders_substitute hm with hm | hm
        · exact h.inside i (hloose i hi)
            (List.mem_append_left _ (List.mem_append_right _ hm))
        · have hlt := (hk i ((mem_ids_iff _ i).2 (.inr (hloose i hi)))).2
          have := ((Supply.mem_numbers _ s i).1 hm).1
          omega
      · intro i hi
        exact (mem_binders_substitute hi).imp_left fun hm =>
          List.mem_append_left _ (List.mem_append_right _ hm)
      · intro x hx
        exact List.mem_append.2 (mem_freeNames_substitute hx)

/-- What a leftmost-outermost contraction does to a hygienic term whose numbers are
in use. -/
theorem Contracts.evolves {t : Term} {s : Supply} {p : Path} {st : Step}
    (h : Contracts t s p st) (ht : t.Hygienic) (hk : t.Known s) :
    Evolves st.contraction.redex s st.contraction.contractum st.supply ∧
      Evolves t s st.result st.supply := by
  obtain ⟨param, body, hfn, hc⟩ := h.contracts
  have hplace := h.place
  rw [Contraction.redex, hfn] at hplace ⊢
  have hev := evolves_contract (ht.at? hplace) (hk.at? hplace)
  rw [hc] at hev
  refine ⟨hev, ?_⟩
  rw [h.result]
  exact hev.put ht hk hplace

/-- A hygienic term whose numbers are in use. -/
structure Settled (t : Term) (s : Supply) : Prop where
  /-- One number means one function. -/
  hygienic : t.Hygienic
  /-- The numbers are in use, and none of them is handed out again. -/
  known : t.Known s

/-- A step finds and leaves a hygienic term, and so are its two sides. -/
structure Clean (t : Term) (s : Supply) (st : Step) : Prop where
  /-- The step contracts the leftmost-outermost redex. -/
  contracts : ∃ p, Contracts t s p st
  /-- The redex is hygienic, and its numbers are in use. -/
  redex : st.contraction.redex.Settled st.supply
  /-- The contractum is hygienic, and its numbers are in use. -/
  contractum : st.contraction.contractum.Settled st.supply
  /-- The whole term is hygienic, and its numbers are in use. -/
  result : st.result.Settled st.supply
  /-- What is loose was loose before. -/
  loose : st.result.looseIds ⊆ t.looseIds
  /-- What is free was free before. -/
  free : st.result.freeNames ⊆ t.freeNames

theorem Settled.clean {t : Term} {s : Supply} {st : Step} (ht : t.Settled s)
    (h : t.step? s = some st) : Clean t s st := by
  obtain ⟨p, hp⟩ := exists_contracts h
  obtain ⟨hc, hr⟩ := hp.evolves ht.hygienic ht.known
  have hknown := ht.known.at? hp.place
  refine ⟨⟨p, hp⟩, ⟨ht.hygienic.at? hp.place, ?_⟩, ⟨hc.hygienic, hc.known hknown⟩,
    ⟨hr.hygienic, hr.known ht.known⟩, hr.loose, hr.free⟩
  obtain ⟨n, hn, -⟩ := hc.drawn
  rw [hn]
  exact hknown.draw n

end Term

namespace Reducer

variable {σ ε : Type}

/-- The terms of a run are hygienic if the first one is, and their numbers are in
use. -/
theorem exists_settled_steps (watch : Watcher σ ε) (fuel : Nat) (r : Reducer) (seen : σ)
    {t : Term} (ht : t.Hygienic) :
    ∃ sts u, Steps (fun t s st => t.Settled s ∧ t.step? s = some st) t (r.supply.reserve t.ids)
        sts u (r.run watch fuel seen t).reducer.supply ∧
      Performs watch fuel r seen (r.run watch fuel seen t) sts u ∧
      u.Settled (r.run watch fuel seen t).reducer.supply := by
  obtain ⟨sts, u, hs, hp⟩ := exists_steps watch fuel r seen t
  have hstart : t.Settled (r.supply.reserve t.ids) := ⟨ht, t.known_reserve r.supply⟩
  have hstep : ∀ t s st, Term.Settled t s → t.step? s = some st →
      st.result.Settled st.supply := by
    intro t s st hinv h
    exact (hinv.clean h).result
  obtain ⟨hsettled, hu⟩ := hs.invariant hstep hstart
  exact ⟨sts, u, hsettled, hp, hu⟩

/-- **One number means one function throughout a run.**  Whatever a reducer has been
used for before, each contraction that the watcher is shown is one of a hygienic
redex to a hygienic contractum in a term that stays hygienic; all numbers in them
are in use and below the next one; and nothing becomes loose or free that was not
so in the term before. -/
theorem run_hygienic (watch : Watcher σ ε) (fuel : Nat) (r : Reducer) (seen : σ) (t : Term)
    (ht : t.Hygienic) :
    ∃ sts u, Steps Term.Clean t (r.supply.reserve t.ids) sts u
        (r.run watch fuel seen t).reducer.supply ∧
      Performs watch fuel r seen (r.run watch fuel seen t) sts u ∧
      u.Settled (r.run watch fuel seen t).reducer.supply := by
  obtain ⟨sts, u, hs, hp, hu⟩ := exists_settled_steps watch fuel r seen ht
  exact ⟨sts, u, hs.mono fun t s st h => h.1.clean h.2, hp, hu⟩

/-- The theorem at `(λx.xx)(λy.yw)`, where `w` is loose and the reducer has been used
before. -/
theorem run_hygienic_self_application :
    let t : Term := .app
      (.lam (.bound 1 "x") (.app (.var (.bound 1 "x")) (.var (.bound 1 "x"))))
      (.lam (.bound 2 "y") (.app (.var (.bound 2 "y")) (.var (.bound 5 "w"))))
    let r : Reducer := ⟨⟨[2, 1], 3⟩, 4⟩
    t.Hygienic ∧
      ∃ sts u, Steps Term.Clean t (r.supply.reserve t.ids) sts u
          (r.run (fun _ _ => ((), (none : Option Unit))) 9 () t).reducer.supply ∧
        u.Settled (r.run (fun _ _ => ((), (none : Option Unit))) 9 () t).reducer.supply := by
  intro t r
  have ht : t.Hygienic := by decide +zetaReduce
  obtain ⟨sts, u, hs, -, hu⟩ := run_hygienic
    (fun _ _ => ((), (none : Option Unit))) 9 r () t ht
  exact ⟨ht, sts, u, hs, hu⟩

end Reducer

end UntypedLambda
