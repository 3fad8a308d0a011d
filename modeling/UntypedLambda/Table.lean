/-!
# Tables in order of insertion

A `Table` maps finitely many keys to values and remembers the order in which
the keys were first put in.  Putting a key again replaces its value and keeps
its place.

* `get?_put`, `get?_erase`, `get?_mapValues` — what is found after a change.
* `keys_put`, `mem_values_put` — where a key that is put goes, and what its value joins.
* `put_put`, `put_of_get?` — putting a key twice, and putting what is there.
* `erase_put` — erasing a key that was new.
-/

namespace UntypedLambda

/-- A finite map that remembers the order of insertion. -/
structure Table (α β : Type) where
  /-- The entries, oldest key first. -/
  entries : List (α × β)
  deriving DecidableEq, Repr, Inhabited

namespace Table

variable {α β : Type} [DecidableEq α]

/-- The table without entries. -/
def empty : Table α β := ⟨[]⟩

/-- The keys in order of insertion. -/
def keys (t : Table α β) : List α := t.entries.map (·.1)

/-- The values in order of insertion of their keys. -/
def values (t : Table α β) : List β := t.entries.map (·.2)

/-- The value of the first entry with the given key. -/
def find (k : α) : List (α × β) → Option β
  | [] => none
  | e :: es => if e.1 = k then some e.2 else find k es

/-- Replaces the value of a key in its place, or adds the key at the end. -/
def store (k : α) (v : β) : List (α × β) → List (α × β)
  | [] => [(k, v)]
  | e :: es => if e.1 = k then (k, v) :: es else e :: store k v es

/-- The value of a key. -/
def get? (t : Table α β) (k : α) : Option β := find k t.entries

/-- Does the key have a value? -/
def contains (t : Table α β) (k : α) : Bool := (t.get? k).isSome

/-- Gives a key a value. -/
def put (t : Table α β) (k : α) (v : β) : Table α β := ⟨store k v t.entries⟩

/-- Takes a key out. -/
def erase (t : Table α β) (k : α) : Table α β := ⟨t.entries.filter fun e => decide (e.1 ≠ k)⟩

/-- Replaces all values. -/
def mapValues {γ : Type} (f : β → γ) (t : Table α β) : Table α γ :=
  ⟨t.entries.map fun e => (e.1, f e.2)⟩

/-- The table of a list of entries; of two entries with one key the later wins. -/
def ofList (es : List (α × β)) : Table α β :=
  es.foldl (fun t e => t.put e.1 e.2) empty

@[simp] theorem get?_empty (k : α) : (empty : Table α β).get? k = none := rfl

/-- Only the key that is put is looked up differently afterwards. -/
theorem get?_put (t : Table α β) (k k' : α) (v : β) :
    (t.put k v).get? k' = if k = k' then some v else t.get? k' := by
  obtain ⟨es⟩ := t
  simp only [get?, put]
  induction es with
  | nil => rfl
  | cons e es ih =>
      by_cases h : e.1 = k
      · by_cases hk : k = k' <;> simp [store, find, h, hk]
      · by_cases hk : e.1 = k'
        · have : k ≠ k' := fun hkk => h (hk.trans hkk.symm)
          simp [store, find, hk, this, this.symm]
        · simp [store, find, h, hk, ih]

/-- Of two values that a key is given, only the second is kept. -/
@[simp] theorem put_put (t : Table α β) (k : α) (v w : β) : (t.put k v).put k w = t.put k w := by
  obtain ⟨es⟩ := t
  simp only [put, mk.injEq]
  induction es with
  | nil => simp [store]
  | cons e es ih =>
      by_cases h : e.1 = k
      · simp [store, h]
      · simp [store, h, ih]

/-- Putting the value that a key has changes nothing. -/
theorem put_of_get? {t : Table α β} {k : α} {v : β} (h : t.get? k = some v) : t.put k v = t := by
  obtain ⟨es⟩ := t
  simp only [get?, put, mk.injEq] at h ⊢
  induction es with
  | nil => cases h
  | cons e es ih =>
      by_cases hk : e.1 = k
      · rw [find, if_pos hk] at h
        cases h
        rw [store, if_pos hk, ← hk]
      · rw [find, if_neg hk] at h
        rw [store, if_neg hk, ih h]

/-- A key that is new leaves nothing behind when it is erased. -/
theorem erase_put {t : Table α β} {k : α} (h : t.get? k = none) (v : β) :
    (t.put k v).erase k = t := by
  obtain ⟨es⟩ := t
  simp only [get?, put, erase, mk.injEq] at h ⊢
  induction es with
  | nil => simp [store]
  | cons e es ih =>
      by_cases hk : e.1 = k
      · rw [find, if_pos hk] at h
        cases h
      · rw [find, if_neg hk] at h
        rw [store, if_neg hk, List.filter_cons_of_pos (by simp [hk]), ih h]

/-- The values of a table are those it had before, and the one that is put. -/
theorem mem_values_put {t : Table α β} {k : α} {v w : β} (h : w ∈ (t.put k v).values) :
    w = v ∨ w ∈ t.values := by
  obtain ⟨es⟩ := t
  simp only [values, put] at h ⊢
  induction es with
  | nil => simpa [store] using h
  | cons e es ih =>
      by_cases hk : e.1 = k
      · simp only [store, if_pos hk, List.map_cons, List.mem_cons] at h ⊢
        exact h.imp_right .inr
      · simp only [store, if_neg hk, List.map_cons, List.mem_cons] at h ⊢
        rcases h with h | h
        · exact .inr (.inl h)
        · exact (ih h).imp_right .inr

/-- All values are looked up as replaced. -/
theorem get?_mapValues {γ : Type} (f : β → γ) (t : Table α β) (k : α) :
    (t.mapValues f).get? k = (t.get? k).map f := by
  obtain ⟨es⟩ := t
  simp only [get?, mapValues]
  induction es with
  | nil => rfl
  | cons e es ih =>
      by_cases h : e.1 = k
      · simp [find, h]
      · simp [find, h, ih]

/-- Only the key that is erased is looked up differently afterwards. -/
theorem get?_erase (t : Table α β) (k k' : α) :
    (t.erase k).get? k' = if k = k' then none else t.get? k' := by
  obtain ⟨es⟩ := t
  simp only [get?, erase]
  induction es with
  | nil => simp [find]
  | cons e es ih =>
      by_cases h : e.1 = k
      · rw [List.filter_cons_of_neg (by simp [h]), ih]
        by_cases hk : k = k' <;> simp [find, h, hk]
      · rw [List.filter_cons_of_pos (by simp [h])]
        by_cases hk : e.1 = k'
        · have : k ≠ k' := fun hkk => h (hk.trans hkk.symm)
          simp [find, hk, this]
        · simpa [find, hk] using ih

/-- A key that is put keeps its place, or goes to the end if it is new. -/
theorem keys_put (t : Table α β) (k : α) (v : β) :
    (t.put k v).keys = if k ∈ t.keys then t.keys else t.keys ++ [k] := by
  obtain ⟨es⟩ := t
  simp only [keys, put]
  induction es with
  | nil => simp [store]
  | cons e es ih =>
      by_cases h : e.1 = k
      · simp [store, h]
      · have h' : k ≠ e.1 := fun hk => h hk.symm
        by_cases hm : k ∈ es.map (·.1) <;> simp_all [store]

end Table

end UntypedLambda
