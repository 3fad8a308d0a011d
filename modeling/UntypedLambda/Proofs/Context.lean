import UntypedLambda.Proofs.Term.Copying
import UntypedLambda.Proofs.Term.Meaning

/-!
# The functions around a place

Resolving names and choosing names both walk through a term and keep track of the
functions they are in.  A `Context` lists those functions, innermost first, with the
number and the name of each.

* `Context.idOf?`, `Context.nameOf?` — the function with a name, and the name of a
  function.
* `Context.namelessIn_var` — a name and the number it is resolved to stand for the
  same index.
* `Term.ClosedIn` — a term that stands in the functions given.
-/

namespace UntypedLambda

/-- The functions around a place, innermost first: their numbers and names. -/
abbrev Context := List (Int × String)

namespace Context

/-- The numbers of the functions. -/
def ids (ctx : Context) : List Int := ctx.map (·.1)

/-- The names of the functions. -/
def names (ctx : Context) : List String := ctx.map (·.2)

/-- The number of the innermost function with a name. -/
def idOf? : Context → String → Option Int
  | [], _ => none
  | (i, y) :: ctx, x => if y = x then some i else idOf? ctx x

/-- The name of the function with a number. -/
def nameOf? : Context → Int → Option String
  | [], _ => none
  | (j, x) :: ctx, i => if j = i then some x else nameOf? ctx i

/-- The functions as the nameless form of a term takes them. -/
def scope (ctx : Context) : List (Option Int) := ctx.ids.map some

@[simp] theorem ids_append (inner outer : Context) :
    ids (inner ++ outer) = inner.ids ++ outer.ids :=
  List.map_append

theorem mem_ids {ctx : Context} {i : Int} {x : String} (h : (i, x) ∈ ctx) : i ∈ ctx.ids :=
  List.mem_map.2 ⟨(i, x), h, rfl⟩

theorem mem_names {ctx : Context} {i : Int} {x : String} (h : (i, x) ∈ ctx) : x ∈ ctx.names :=
  List.mem_map.2 ⟨(i, x), h, rfl⟩

theorem idOf?_eq_none_iff {ctx : Context} {x : String} : ctx.idOf? x = none ↔ x ∉ ctx.names := by
  induction ctx with
  | nil => simp [idOf?, names]
  | cons e ctx ih =>
      obtain ⟨j, y⟩ := e
      by_cases h : y = x
      · simp [idOf?, names, h]
      · rw [idOf?, if_neg h, ih]
        simp [names, Ne.symm h]

theorem mem_of_idOf? {ctx : Context} {x : String} {i : Int} (h : ctx.idOf? x = some i) :
    (i, x) ∈ ctx := by
  induction ctx with
  | nil => cases h
  | cons e ctx ih =>
      obtain ⟨j, y⟩ := e
      by_cases hy : y = x
      · rw [idOf?, if_pos hy] at h
        cases h
        simp [hy]
      · rw [idOf?, if_neg hy] at h
        exact List.mem_cons_of_mem _ (ih h)

theorem mem_of_nameOf? {ctx : Context} {i : Int} {x : String} (h : ctx.nameOf? i = some x) :
    (i, x) ∈ ctx := by
  induction ctx with
  | nil => cases h
  | cons e ctx ih =>
      obtain ⟨j, y⟩ := e
      by_cases hj : j = i
      · rw [nameOf?, if_pos hj] at h
        cases h
        simp [hj]
      · rw [nameOf?, if_neg hj] at h
        exact List.mem_cons_of_mem _ (ih h)

/-- If no two functions share a number, a number has the name it stands with. -/
theorem nameOf?_of_mem {ctx : Context} (hids : ctx.ids.Nodup) {i : Int} {x : String}
    (h : (i, x) ∈ ctx) : ctx.nameOf? i = some x := by
  induction ctx with
  | nil => cases h
  | cons e ctx ih =>
      obtain ⟨j, y⟩ := e
      obtain ⟨hj, hids⟩ := List.nodup_cons.1 hids
      rcases List.mem_cons.1 h with heq | hmem
      · cases heq
        simp [nameOf?]
      · have hne : j ≠ i := fun hji => hj (hji ▸ mem_ids hmem)
        rw [nameOf?, if_neg hne, ih hids hmem]

/-- If no two functions share a name, a name belongs to the number it stands with. -/
theorem idOf?_of_mem {ctx : Context} (hnames : ctx.names.Nodup) {i : Int} {x : String}
    (h : (i, x) ∈ ctx) : ctx.idOf? x = some i := by
  induction ctx with
  | nil => cases h
  | cons e ctx ih =>
      obtain ⟨j, y⟩ := e
      obtain ⟨hy, hnames⟩ := List.nodup_cons.1 hnames
      rcases List.mem_cons.1 h with heq | hmem
      · cases heq
        simp [idOf?]
      · have hne : y ≠ x := fun hyx => hy (hyx ▸ mem_names hmem)
        rw [idOf?, if_neg hne, ih hnames hmem]

theorem exists_mem_of_mem_ids {ctx : Context} {i : Int} (h : i ∈ ctx.ids) :
    ∃ x, (i, x) ∈ ctx := by
  obtain ⟨⟨j, x⟩, hmem, rfl⟩ := List.mem_map.1 h
  exact ⟨x, hmem⟩

/-! ## Indices -/

theorem namelessIn_var_cons {x y : String} (h : y ≠ x) (names : List String) :
    (Expr.var x).namelessIn (y :: names) = ((Expr.var x).namelessIn names).shift 0 := by
  simp only [Expr.namelessIn, List.idxOf?_cons, beq_false_of_ne h]
  cases names.idxOf? x <;> simp [Nameless.shift]

/-- A name and the number it is resolved to stand for the same index. -/
theorem namelessIn_var {ctx : Context} (hids : ctx.ids.Nodup) {x : String} {i : Int}
    (h : ctx.idOf? x = some i) (y : String) :
    Term.namelessVar ctx.scope (.bound i y) = (Expr.var x).namelessIn ctx.names := by
  induction ctx with
  | nil => cases h
  | cons e ctx ih =>
      obtain ⟨j, z⟩ := e
      obtain ⟨hj, hids⟩ := List.nodup_cons.1 hids
      show Term.namelessVar (some j :: scope ctx) _ = (Expr.var x).namelessIn (z :: names ctx)
      by_cases hz : z = x
      · rw [idOf?, if_pos hz] at h
        cases h
        simp [Expr.namelessIn, hz, List.idxOf?_cons]
      · rw [idOf?, if_neg hz] at h
        have hne : j ≠ i := fun hji => hj (hji ▸ mem_ids (mem_of_idOf? h))
        rw [Term.namelessVar_cons (by simpa using hne), ih hids h, namelessIn_var_cons hz]

/-- A name of no function is free. -/
theorem namelessIn_var_free {ctx : Context} {x : String} (h : x ∉ ctx.names) :
    (Expr.var x).namelessIn ctx.names = .free x := by
  simp only [Expr.namelessIn]
  rw [List.idxOf?_eq_none_iff.2 h]

end Context

namespace Term

/-- A term in the functions with the numbers given: all its functions have numbers of
their own, and all its bound variables belong to one of them or to one around the
term. -/
structure ClosedIn (t : Term) (ids : List Int) : Prop where
  /-- Every function has a number. -/
  numbered : t.Numbered
  /-- No two functions share a number. -/
  nodup : t.binders.Nodup
  /-- No function has the number of one around the term. -/
  disjoint : ∀ i ∈ t.binders, i ∉ ids
  /-- Every loose variable belongs to a function around the term. -/
  loose : ∀ i ∈ t.looseIds, i ∈ ids

/-- A hygienic term without loose variables stands by itself. -/
theorem Hygienic.closedIn {t : Term} (h : t.Hygienic) (hl : t.looseIds = []) :
    t.ClosedIn [] :=
  ⟨h.numbered, h.nodup, by simp, by simp [hl]⟩

theorem ClosedIn.looseIds_eq_nil {t : Term} (h : t.ClosedIn []) : t.looseIds = [] :=
  List.eq_nil_iff_forall_not_mem.2 fun i hi => List.not_mem_nil (h.loose i hi)

theorem ClosedIn.hygienic {t : Term} (h : t.ClosedIn []) : t.Hygienic :=
  ⟨h.numbered, h.nodup, by simp [h.looseIds_eq_nil]⟩

theorem ClosedIn.fn {fn arg : Term} {ids : List Int} (h : (app fn arg).ClosedIn ids) :
    fn.ClosedIn ids where
  numbered := h.numbered.1
  nodup := (List.nodup_append.1 h.nodup).1
  disjoint i hi := h.disjoint i (List.mem_append_left _ hi)
  loose i hi := h.loose i (List.mem_append_left _ hi)

theorem ClosedIn.arg {fn arg : Term} {ids : List Int} (h : (app fn arg).ClosedIn ids) :
    arg.ClosedIn ids where
  numbered := h.numbered.2
  nodup := (List.nodup_append.1 h.nodup).2.1
  disjoint i hi := h.disjoint i (List.mem_append_right _ hi)
  loose i hi := h.loose i (List.mem_append_right _ hi)

/-- The body of a function stands in that function, whatever its name is there. -/
theorem ClosedIn.body {i : Int} {x : String} {body : Term} {ctx : Context}
    (h : (lam (.bound i x) body).ClosedIn ctx.ids) (y : String) :
    i ∉ ctx.ids ∧ body.ClosedIn (Context.ids ((i, y) :: ctx)) := by
  obtain ⟨hi, hnodup⟩ := List.nodup_cons.1 h.nodup
  refine ⟨h.disjoint i (List.mem_cons_self ..), h.numbered.2, hnodup, fun j hj hm => ?_,
    fun j hj => ?_⟩
  · rcases List.mem_cons.1 hm with rfl | hm
    · exact hi hj
    · exact h.disjoint j (List.mem_cons_of_mem _ hj) hm
  · by_cases hji : j = i
    · exact List.mem_cons.2 (.inl hji)
    · have hloose : j ∈ (lam (.bound i x) body).looseIds :=
        mem_looseIds_lam.2 ⟨hj, by simpa [Var.id?] using Ne.symm hji⟩
      exact List.mem_cons_of_mem _ (h.loose j hloose)

end Term

end UntypedLambda
