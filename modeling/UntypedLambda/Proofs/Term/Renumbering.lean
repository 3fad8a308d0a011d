import Mathlib.Data.Set.Function
import UntypedLambda.Proofs.Term.Copying
import UntypedLambda.Reduction

/-!
# Other numbers for the same term

Numbers only tell functions apart, so a term is as good with any others, as long as
different numbers stay different.  Copying and substituting go along with such a
change, if the numbers that are drawn on one side go over into those drawn on the
other.

* `Term.mapIds` — the term with other numbers.
* `Supply.Matches` — the numbers that two supplies are going to hand out correspond.
* `refresh_mapIds`, `substitute_mapIds`, `contract_mapIds` — copying, substituting and
  contracting a term with other numbers.
* `exists_matching` — a change of the numbers in a term can be continued to the numbers
  that two supplies are going to hand out.
* `refresh_mapIds_eq` — a copy of a term without loose variables is the same, whatever
  numbers the term has.
-/

namespace UntypedLambda

/-- The variable with another number. -/
def Var.mapId (ρ : Int → Int) : Var → Var
  | .bound id name => .bound (ρ id) name
  | .free name => .free name

/-- The term with other numbers. -/
def Term.mapIds (ρ : Int → Int) : Term → Term
  | .var v => .var (v.mapId ρ)
  | .app fn arg => .app (fn.mapIds ρ) (arg.mapIds ρ)
  | .lam param body => .lam (param.mapId ρ) (body.mapIds ρ)

/-- The contraction with other numbers. -/
def Contraction.mapIds (ρ : Int → Int) (c : Contraction) : Contraction :=
  ⟨c.fn.mapIds ρ, c.arg.mapIds ρ, c.contractum.mapIds ρ⟩

theorem Contraction.redex_mapIds (ρ : Int → Int) (c : Contraction) :
    (c.mapIds ρ).redex = c.redex.mapIds ρ := rfl

@[simp] theorem Var.id?_mapId (ρ : Int → Int) (v : Var) : (v.mapId ρ).id? = v.id?.map ρ := by
  cases v <;> rfl

namespace Term

variable {ρ : Int → Int}

@[simp] theorem ids_mapIds (ρ : Int → Int) (t : Term) : (t.mapIds ρ).ids = t.ids.map ρ := by
  induction t with
  | var v => cases v <;> rfl
  | app fn arg ihf iha => simp [mapIds, ids, ihf, iha]
  | lam param body ih => cases param <;> simp [mapIds, ids, ih, Var.mapId, Var.id?]

@[simp] theorem freeNames_mapIds (ρ : Int → Int) (t : Term) :
    (t.mapIds ρ).freeNames = t.freeNames := by
  induction t with
  | var v => cases v <;> rfl
  | app fn arg ihf iha => simp [mapIds, freeNames, ihf, iha]
  | lam param body ih => simp [mapIds, freeNames, ih]

@[simp] theorem length_binders_mapIds (ρ : Int → Int) (t : Term) :
    (t.mapIds ρ).binders.length = t.binders.length := by
  induction t with
  | var v => rfl
  | app fn arg ihf iha => simp [mapIds, binders, ihf, iha]
  | lam param body ih => cases param <;> simp [mapIds, binders, ih, Var.mapId, Var.id?]

/-- Only the numbers that stand in the term matter. -/
theorem mapIds_congr {ρ' : Int → Int} {t : Term} (h : ∀ i ∈ t.ids, ρ i = ρ' i) :
    t.mapIds ρ = t.mapIds ρ' := by
  have hvar : ∀ v : Var, (∀ i ∈ v.id?.toList, ρ i = ρ' i) → v.mapId ρ = v.mapId ρ' := by
    intro v hv
    cases v with
    | free x => rfl
    | bound i x => simp [Var.mapId, hv i (by simp [Var.id?])]
  induction t with
  | var v => rw [mapIds, mapIds, hvar v h]
  | app fn arg ihf iha =>
      obtain ⟨hfn, harg⟩ := List.forall_mem_append.1 h
      rw [mapIds, mapIds, ihf hfn, iha harg]
  | lam param body ih =>
      obtain ⟨hparam, hbody⟩ := List.forall_mem_append.1 h
      rw [mapIds, mapIds, hvar param hparam, ih hbody]

theorem occurrences_mapIds (hρ : Function.Injective ρ) (id : Int) (t : Term) :
    (t.mapIds ρ).occurrences (ρ id) = t.occurrences id := by
  induction t with
  | var v => cases v <;> simp [mapIds, occurrences, Var.mapId, Var.id?, hρ.eq_iff]
  | app fn arg ihf iha => simp [mapIds, occurrences, ihf, iha]
  | lam param body ih => simp [mapIds, occurrences, ih]

theorem isLam_mapIds (ρ : Int → Int) (t : Term) : (t.mapIds ρ).isLam = t.isLam := by
  cases t <;> rfl

theorem isNormal_mapIds (ρ : Int → Int) (t : Term) : (t.mapIds ρ).IsNormal ↔ t.IsNormal := by
  induction t with
  | var v => exact Iff.rfl
  | app fn arg ihf iha => simp only [mapIds, IsNormal, isLam_mapIds, ihf, iha]
  | lam param body ih => exact ih

end Term

/-! ## Supplies -/

/-- The numbers that the first supply is going to hand out go over into those of the second. -/
def Supply.Matches (ρ : Int → Int) (s s' : Supply) : Prop :=
  ∀ k : Nat, ρ (s.next + k) = s'.next + k

theorem Supply.Matches.next {ρ : Int → Int} {s s' : Supply} (h : s.Matches ρ s') :
    ρ s.next = s'.next := by
  simpa using h 0

theorem Supply.Matches.draw {ρ : Int → Int} {s s' : Supply} (h : s.Matches ρ s') (n : Nat) :
    (s.draw n).Matches ρ (s'.draw n) := by
  intro k
  have hk := h (n + k)
  rw [Int.natCast_add, ← Int.add_assoc, ← Int.add_assoc] at hk
  rw [draw_next, draw_next, hk]

/-- **A change of numbers can be continued.**  If the numbers given are kept apart, and two
supplies hand out none of them and none of the numbers they go over into, then the change can be
continued to all numbers so that these are kept apart and the supplies match. -/
theorem exists_matching {ρ : Int → Int} {ids : List Int} {s s' : Supply}
    (hρ : Set.InjOn ρ {i | i ∈ ids}) (hs : ∀ i ∈ ids, i < s.next)
    (hs' : ∀ i ∈ ids, ρ i < s'.next) :
    ∃ ρ' : Int → Int, Function.Injective ρ' ∧ (∀ i ∈ ids, ρ' i = ρ i) ∧ s.Matches ρ' s' := by
  -- the numbers that are neither given nor handed out go below all others
  obtain ⟨low, hlow, hle⟩ : ∃ low ≤ s'.next, ∀ i ∈ ids, low ≤ ρ i := by
    clear hρ hs hs'
    induction ids with
    | nil => exact ⟨s'.next, Int.le_refl _, by simp⟩
    | cons j ids ih =>
        obtain ⟨low, hlow, hle⟩ := ih
        refine ⟨min low (ρ j), by omega, fun i hi => ?_⟩
        rcases List.mem_cons.1 hi with rfl | hi
        · omega
        · have := hle i hi
          omega
  refine ⟨fun i => if s.next ≤ i then i - s.next + s'.next else
    if i ∈ ids then ρ i else i - s.next + low, ?_, ?_, ?_⟩
  · -- numbers that are handed out, that are given, and all others go into ranges that do not meet
    intro i j hij
    simp only at hij
    have hρij : i ∈ ids → j ∈ ids → ρ i = ρ j → i = j := fun hi hj => hρ hi hj
    have hi := hs' i
    have hj := hs' j
    have hi' := hle i
    have hj' := hle j
    split_ifs at hij with h₁ h₂ h₃ h₄ h₅ h₆ <;> grind
  · intro i hi
    have hlt := hs i hi
    simp only
    rw [if_neg (by omega), if_pos hi]
  · intro k
    simp only
    rw [if_pos (by omega)]
    omega

/-! ## Copying, substituting and contracting -/

/-- The pairs of an old and a new number with other numbers. -/
def mapRenames (ρ : Int → Int) (renames : List (Int × Int)) : List (Int × Int) :=
  renames.map fun p => (ρ p.1, ρ p.2)

theorem renumber_mapRenames {ρ : Int → Int} (hρ : Function.Injective ρ)
    (renames : List (Int × Int)) (i : Int) :
    renumber (mapRenames ρ renames) (ρ i) = ρ (renumber renames i) := by
  induction renames with
  | nil => rfl
  | cons p renames ih =>
      obtain ⟨old, new⟩ := p
      show renumber ((ρ old, ρ new) :: mapRenames ρ renames) (ρ i) = _
      rw [renumber_cons, renumber_cons, ih]
      by_cases h : i = old
      · rw [if_pos h, if_pos (congrArg ρ h)]
      · rw [if_neg h, if_neg (hρ.ne h)]

namespace Term

variable {ρ : Int → Int} {s s' : Supply}

/-- Copying a term with other numbers. -/
theorem refresh_mapIds (hρ : Function.Injective ρ) (hs : s.Matches ρ s') (t : Term)
    (renames : List (Int × Int)) :
    ((t.mapIds ρ).refresh (mapRenames ρ renames) s').1 = (t.refresh renames s).1.mapIds ρ := by
  induction t generalizing renames s s' with
  | var v =>
      cases v with
      | free x => rfl
      | bound i x => simp [mapIds, refresh, Var.mapId, Var.renumber, renumber_mapRenames hρ]
  | app fn arg ihf iha =>
      have harg : (fn.refresh renames s).2.Matches ρ
          ((fn.mapIds ρ).refresh (mapRenames ρ renames) s').2 := by
        rw [refresh_supply, refresh_supply, length_binders_mapIds]
        exact hs.draw _
      rw [mapIds, refresh, ihf hs, iha harg]
      rfl
  | lam param body ih =>
      cases param with
      | free x => exact congrArg (lam (.free x)) (ih hs renames)
      | bound i x =>
          -- the number drawn on the one side goes over into the one drawn on the other
          rw [mapIds, Var.mapId, refresh, Supply.fresh_fst, ← hs.next]
          exact congrArg (lam (.bound (ρ s.next) x)) (ih (hs.draw 1) ((i, s.next) :: renames))

/-- Substituting in a term with other numbers. -/
theorem substitute_mapIds (hρ : Function.Injective ρ) (hs : s.Matches ρ s') (t : Term) (id : Int)
    (arg : Term) :
    ((t.mapIds ρ).substitute (ρ id) (arg.mapIds ρ) s').1 = (t.substitute id arg s).1.mapIds ρ ∧
      (t.substitute id arg s).2.Matches ρ
        ((t.mapIds ρ).substitute (ρ id) (arg.mapIds ρ) s').2 := by
  have hsupply : ∀ (t : Term) {s s' : Supply}, s.Matches ρ s' → (t.substitute id arg s).2.Matches ρ
      ((t.mapIds ρ).substitute (ρ id) (arg.mapIds ρ) s').2 := by
    intro t s s' hs
    rw [substitute_supply, substitute_supply, occurrences_mapIds hρ, length_binders_mapIds]
    exact hs.draw _
  refine ⟨?_, hsupply t hs⟩
  induction t generalizing s s' with
  | var v =>
      cases v with
      | free x => rfl
      | bound i x =>
          by_cases h : i = id
          · rw [mapIds, Var.mapId, substitute, substitute, if_pos h, if_pos (congrArg ρ h)]
            exact refresh_mapIds hρ hs arg []
          · rw [mapIds, Var.mapId, substitute, substitute, if_neg h, if_neg (hρ.ne h)]
            rfl
  | app fn body ihf ihb =>
      rw [mapIds, substitute, ihf hs, ihb (hsupply fn hs)]
      rfl
  | lam param body ih => exact congrArg (lam (param.mapId ρ)) (ih hs)

/-- Contracting a redex with other numbers. -/
theorem contract_mapIds (hρ : Function.Injective ρ) (hs : s.Matches ρ s') (param : Var)
    (body arg : Term) :
    (contract (param.mapId ρ) (body.mapIds ρ) (arg.mapIds ρ) s').1 =
        (contract param body arg s).1.mapIds ρ ∧
      (contract param body arg s).2.Matches ρ
        (contract (param.mapId ρ) (body.mapIds ρ) (arg.mapIds ρ) s').2 := by
  cases param with
  | free x => exact ⟨rfl, hs⟩
  | bound i x => exact substitute_mapIds hρ hs body i arg

/-! ## Copies that are the same -/

/-- If the loose variables get the same numbers, then so does everything else in the copy. -/
theorem refresh_mapIds_of_loose {t : Term} {renames renames' : List (Int × Int)}
    (hρ : Set.InjOn ρ {i | i ∈ t.ids})
    (h : ∀ i ∈ t.looseIds, renumber renames' (ρ i) = renumber renames i) (s : Supply) :
    (t.mapIds ρ).refresh renames' s = t.refresh renames s := by
  induction t generalizing renames renames' s with
  | var v =>
      cases v with
      | free x => rfl
      | bound i x =>
          have hi := h i (by simp [looseIds, Var.id?])
          simp [mapIds, refresh, Var.mapId, Var.renumber, hi]
  | app fn arg ihf iha =>
      have hfn := ihf (hρ.mono fun i hi => List.mem_append_left _ hi)
        fun i hi => h i (List.mem_append_left _ hi)
      have harg := iha (hρ.mono fun i hi => List.mem_append_right _ hi)
        fun i hi => h i (List.mem_append_right _ hi)
      simp only [mapIds, refresh, hfn, harg]
  | lam param body ih =>
      have hbody : Set.InjOn ρ {i | i ∈ body.ids} :=
        hρ.mono fun i hi => List.mem_append_right _ hi
      cases param with
      | free x =>
          have heq := ih hbody (by simpa using h) s
          simp only [mapIds, Var.mapId, refresh, heq]
      | bound id x =>
          have hloose : ∀ i ∈ body.looseIds,
              renumber ((ρ id, s.next) :: renames') (ρ i) =
                renumber ((id, s.next) :: renames) i := by
            intro i hi
            rw [renumber_cons, renumber_cons]
            by_cases hid : i = id
            · rw [if_pos hid, if_pos (congrArg ρ hid)]
            · have hne : ρ i ≠ ρ id := by
                intro heq
                refine hid (hρ ?_ ?_ heq)
                · exact List.mem_append_right _ ((body.mem_ids_iff i).2 (.inr hi))
                · exact List.mem_append_left _ (by simp [Var.id?])
              rw [if_neg hid, if_neg hne]
              exact h i (by simp [hi, Var.id?, Ne.symm hid])
          have heq := ih hbody hloose s.fresh.2
          simp only [mapIds, Var.mapId, refresh, Supply.fresh_fst, heq]

/-- A copy of a term without loose variables does not show the numbers of the term. -/
theorem refresh_mapIds_eq {t : Term} (hρ : Set.InjOn ρ {i | i ∈ t.ids}) (h : t.looseIds = [])
    (s : Supply) : (t.mapIds ρ).refresh [] s = t.refresh [] s :=
  refresh_mapIds_of_loose hρ (by simp [h]) s

end Term

end UntypedLambda
