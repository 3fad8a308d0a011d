import UntypedLambda.Proofs.Term.Renumbering
import UntypedLambda.Term.Printer

/-!
# Numbers do not show in print

While a term is printed, its numbers are keys of one table of names and entries of the
other.  They are compared with each other and with nothing else, so with other numbers
for the same term the tables are the same up to these numbers, and so is what is
printed.

* `Names.mapIds` — the tables of names with other numbers.
* `nameIn_mapIds` — naming a term with other numbers.
* `render_mapIds` — a term is printed in the same way with other numbers, or it cannot be
  printed with either.
-/

namespace UntypedLambda

namespace Table

variable {α β γ : Type}

/-- The table with other keys. -/
def mapKeys (f : α → γ) (t : Table α β) : Table γ β := ⟨t.entries.map fun e => (f e.1, e.2)⟩

theorem keys_mapValues (g : β → γ) (t : Table α β) : (t.mapValues g).keys = t.keys := by
  simp [keys, mapValues, Function.comp_def]

variable [DecidableEq α]

theorem put_mapValues (g : β → γ) (t : Table α β) (k : α) (v : β) :
    (t.mapValues g).put k (g v) = (t.put k v).mapValues g := by
  obtain ⟨es⟩ := t
  simp only [mapValues, put, mk.injEq]
  induction es with
  | nil => rfl
  | cons e es ih =>
      by_cases h : e.1 = k
      · simp [store, h]
      · simp [store, h, ih]

theorem erase_mapValues (g : β → γ) (t : Table α β) (k : α) :
    (t.mapValues g).erase k = (t.erase k).mapValues g := by
  simp [mapValues, erase, List.filter_map, Function.comp_def]

variable [DecidableEq γ] {f : α → γ}

theorem get?_mapKeys (hf : Function.Injective f) (t : Table α β) (k : α) :
    (t.mapKeys f).get? (f k) = t.get? k := by
  obtain ⟨es⟩ := t
  simp only [mapKeys, get?]
  induction es with
  | nil => rfl
  | cons e es ih =>
      by_cases h : e.1 = k
      · simp [find, h]
      · simp [find, h, hf.ne h, ih]

theorem put_mapKeys (hf : Function.Injective f) (t : Table α β) (k : α) (v : β) :
    (t.mapKeys f).put (f k) v = (t.put k v).mapKeys f := by
  obtain ⟨es⟩ := t
  simp only [mapKeys, put, mk.injEq]
  induction es with
  | nil => rfl
  | cons e es ih =>
      by_cases h : e.1 = k
      · simp [store, h]
      · simp [store, h, hf.ne h, ih]

theorem erase_mapKeys (hf : Function.Injective f) (t : Table α β) (k : α) :
    (t.mapKeys f).erase (f k) = (t.erase k).mapKeys f := by
  obtain ⟨es⟩ := t
  simp only [mapKeys, erase, mk.injEq, List.filter_map]
  refine congrArg (List.map _) (List.filter_congr fun e _ => ?_)
  simp [hf.eq_iff]

end Table

/-- What a release did not find, with other numbers. -/
def Missing.mapId (ρ : Int → Int) : Missing → Missing
  | .number id => .number (ρ id)
  | .name text => .name text

namespace Names

/-- The tables of names with other numbers. -/
def mapIds (ρ : Int → Int) (n : Names) : Names :=
  ⟨n.claims.mapValues (Option.map ρ), n.shown.mapKeys ρ⟩

variable {ρ : Int → Int}

/-- Free names have no numbers. -/
theorem mapIds_ofFree (ρ : Int → Int) (free : List String) :
    (ofFree free).mapIds ρ = ofFree free := by
  have hfold : ∀ (xs : List String) (t : Table String (Option Int)),
      t.mapValues (Option.map ρ) = t →
      ((xs.map fun x => (x, none)).foldl (fun t e => t.put e.1 e.2) t).mapValues (Option.map ρ) =
        (xs.map fun x => (x, none)).foldl (fun t e => t.put e.1 e.2) t := by
    intro xs
    induction xs with
    | nil => intro t ht; exact ht
    | cons x xs ih =>
        intro t ht
        refine ih (t.put x none) ?_
        rw [← Table.put_mapValues, ht]
        rfl
  simp only [mapIds, ofFree, Table.ofList, mk.injEq]
  exact ⟨hfold free Table.empty rfl, rfl⟩

theorem choose_mapIds (hρ : Function.Injective ρ) (n : Names) (id : Int) (name : String) :
    (n.mapIds ρ).choose (ρ id) name = n.choose id name := by
  unfold choose
  simp only [mapIds, Table.get?_mapValues, Table.keys_mapValues]
  cases n.claims.get? name with
  | none => rfl
  | some owner =>
      have howner : owner.map ρ = some (ρ id) ↔ owner = some id := by
        cases owner <;> simp [hρ.eq_iff]
      simp only [Option.map_some, howner]

theorem claim_mapIds (hρ : Function.Injective ρ) (n : Names) (id : Int) (name : String) :
    (n.mapIds ρ).claim (ρ id) name = ((n.claim id name).1, (n.claim id name).2.mapIds ρ) := by
  unfold claim
  rw [choose_mapIds hρ]
  simp only [mapIds, ← Table.put_mapValues, ← Table.put_mapKeys hρ, Option.map_some]

theorem lookup_mapIds (hρ : Function.Injective ρ) (n : Names) (id : Int) (name : String) :
    (n.mapIds ρ).lookup (ρ id) name = ((n.lookup id name).1, (n.lookup id name).2.mapIds ρ) := by
  unfold lookup
  have hget : (n.mapIds ρ).shown.get? (ρ id) = n.shown.get? id := Table.get?_mapKeys hρ n.shown id
  rw [hget]
  cases n.shown.get? id with
  | none => exact claim_mapIds hρ n id name
  | some chosen => rfl

theorem release_mapIds (hρ : Function.Injective ρ) (n : Names) (id : Int) :
    (n.mapIds ρ).release (ρ id) =
      ((n.release id).1.mapError (Missing.mapId ρ), (n.release id).2.mapIds ρ) := by
  unfold release
  have hget : (n.mapIds ρ).shown.get? (ρ id) = n.shown.get? id := Table.get?_mapKeys hρ n.shown id
  rw [hget]
  cases n.shown.get? id with
  | none => rfl
  | some name =>
      have hclaims : (n.mapIds ρ).claims.contains name = n.claims.contains name := by
        simp [mapIds, Table.contains, Table.get?_mapValues]
      simp only [hclaims]
      split <;> simp [mapIds, Table.erase_mapValues, Table.erase_mapKeys hρ, Except.mapError,
        Missing.mapId]

theorem releaseAll_mapIds (hρ : Function.Injective ρ) (n : Names) (ids : List Int) :
    (n.mapIds ρ).releaseAll (ids.map ρ) =
      ((n.releaseAll ids).map (mapIds ρ)).mapError (Missing.mapId ρ) := by
  induction ids generalizing n with
  | nil => rfl
  | cons id ids ih =>
      rw [List.map_cons, releaseAll, releaseAll, release_mapIds hρ]
      rcases n.release id with ⟨_ | _, n'⟩
      · rfl
      · exact ih n'

end Names

namespace Term

variable {ρ : Int → Int}

/-- The parameters with other numbers. -/
def mapParams (ρ : Int → Int) (params : List Param) : List Param :=
  params.map fun p => (p.1, p.2.map ρ)

@[simp] theorem mapParams_nil (ρ : Int → Int) : mapParams ρ [] = [] := rfl

/-- The expression and the tables that naming leads to, or what it fails with, with other
numbers. -/
def mapNamed (ρ : Int → Int) (r : Except Missing (Expr × Names)) : Except Missing (Expr × Names) :=
  (r.map fun p => (p.1, p.2.mapIds ρ)).mapError (Missing.mapId ρ)

theorem closeParams_mapIds (hρ : Function.Injective ρ) (params : List Param) (body : Expr)
    (n : Names) :
    closeParams (mapParams ρ params) body (n.mapIds ρ) =
      mapNamed ρ (closeParams params body n) := by
  have hids : (mapParams ρ params).reverse.filterMap (·.2) =
      (params.reverse.filterMap (·.2)).map ρ := by
    rw [mapParams, ← List.map_reverse, List.filterMap_map, List.map_filterMap]
    rfl
  have hnames : (mapParams ρ params).map (·.1) = params.map (·.1) := by
    simp [mapParams, Function.comp_def]
  unfold closeParams
  rw [hids, hnames, Names.releaseAll_mapIds hρ]
  cases n.releaseAll (params.reverse.filterMap (·.2)) <;> rfl

/-- **Naming a term with other numbers** leads to the same expression, or fails as well. -/
theorem nameIn_mapIds (hρ : Function.Injective ρ) (t : Term) (params : List Param) (n : Names) :
    (t.mapIds ρ).nameIn (mapParams ρ params) (n.mapIds ρ) = mapNamed ρ (t.nameIn params n) := by
  induction t generalizing params n with
  | var v =>
      cases v with
      | free x => exact closeParams_mapIds hρ params (.var x) n
      | bound i x =>
          rw [mapIds, Var.mapId, nameIn, nameIn, Names.lookup_mapIds hρ]
          exact closeParams_mapIds hρ params _ _
  | app fn arg ihf iha =>
      have hfn := ihf [] n
      rw [mapParams_nil] at hfn
      rw [mapIds, nameIn, nameIn, hfn]
      cases fn.nameIn [] n with
      | error m => rfl
      | ok p =>
          have harg := iha [] p.2
          simp only [mapParams_nil, mapNamed, Except.map, Except.mapError] at harg ⊢
          rw [harg]
          cases arg.nameIn [] p.2 with
          | error m => rfl
          | ok q => exact closeParams_mapIds hρ params (.app p.1 q.1) q.2
  | lam param body ih =>
      cases param with
      | free x => exact ih ((x, none) :: params) n
      | bound i x =>
          rw [mapIds, Var.mapId, nameIn, nameIn, Names.claim_mapIds hρ]
          exact ih (((n.claim i x).1, some i) :: params) (n.claim i x).2

/-- With other numbers, a term is printed in the same way, or it cannot be printed with
either. -/
theorem render_mapIds (hρ : Function.Injective ρ) (t : Term) :
    (t.mapIds ρ).render = t.render.mapError (Missing.mapId ρ) := by
  have hname := nameIn_mapIds hρ t [] (Names.ofFree t.freeNames)
  rw [Names.mapIds_ofFree, mapParams_nil] at hname
  unfold render named
  rw [freeNames_mapIds, hname]
  cases t.nameIn [] (Names.ofFree t.freeNames) <;> rfl

end Term

end UntypedLambda
