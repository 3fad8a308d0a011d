import UntypedLambda.Supply

/-!
# Drawing several numbers

Copying and substituting do nothing to a supply but draw numbers from it.
`Supply.draw` draws several at once, and `Supply.numbers` lists the numbers that
this yields; with these two, what an operation does to a supply is said by a
single number.
-/

namespace UntypedLambda

namespace Supply

theorem next_le_reserve (s : Supply) (ids : List Int) : s.next ≤ (s.reserve ids).next := by
  induction ids generalizing s with
  | nil => exact Int.le_refl _
  | cons i ids ih => exact Int.le_trans (Int.le_max_left ..) (ih (s.mark i))

/-- A number that was reserved is below the one handed out next. -/
theorem lt_next_reserve (s : Supply) {ids : List Int} {i : Int} (h : i ∈ ids) :
    i < (s.reserve ids).next := by
  induction ids generalizing s with
  | nil => cases h
  | cons j ids ih =>
      rcases List.mem_cons.1 h with rfl | h
      · have hmark : i < (s.mark i).next := by
          simp only [mark]
          omega
        exact Int.lt_of_lt_of_le hmark (next_le_reserve (s.mark i) ids)
      · exact ih (s.mark j) h

/-- The supply after `n` numbers have been drawn from it. -/
def draw : Nat → Supply → Supply
  | 0, s => s
  | n + 1, s => draw n s.fresh.2

/-- The next `n` numbers, in the order in which they are handed out. -/
def numbers : Nat → Supply → List Int
  | 0, _ => []
  | n + 1, s => s.next :: numbers n s.fresh.2

@[simp] theorem fresh_fst (s : Supply) : s.fresh.1 = s.next := rfl

@[simp] theorem fresh_next (s : Supply) : s.fresh.2.next = s.next + 1 := rfl

@[simp] theorem draw_next (n : Nat) (s : Supply) : (draw n s).next = s.next + n := by
  induction n generalizing s with
  | zero => simp [draw]
  | succ n ih =>
      rw [draw, ih, fresh_next]
      omega

theorem draw_add (m n : Nat) (s : Supply) : draw (m + n) s = draw n (draw m s) := by
  induction m generalizing s with
  | zero => rw [Nat.zero_add, draw]
  | succ m ih => rw [Nat.succ_add, draw, ih, draw]

theorem numbers_add (m n : Nat) (s : Supply) :
    numbers (m + n) s = numbers m s ++ numbers n (draw m s) := by
  induction m generalizing s with
  | zero => rw [Nat.zero_add, draw, numbers, List.nil_append]
  | succ m ih => rw [Nat.succ_add, numbers, ih, numbers, draw, List.cons_append]

@[simp] theorem mem_numbers (n : Nat) (s : Supply) (i : Int) :
    i ∈ numbers n s ↔ s.next ≤ i ∧ i < s.next + n := by
  induction n generalizing s with
  | zero =>
      simp only [numbers, List.not_mem_nil, false_iff]
      omega
  | succ n ih =>
      rw [numbers, List.mem_cons, ih, fresh_next]
      omega

/-- The numbers that are handed out follow each other. -/
theorem numbers_eq_map_range (n : Nat) (s : Supply) :
    numbers n s = (List.range n).map fun k : Nat => s.next + k := by
  induction n generalizing s with
  | zero => rfl
  | succ n ih =>
      have hrest : ∀ k : Nat, s.fresh.2.next + k = s.next + (k + 1 : Nat) := by
        intro k
        rw [fresh_next]
        omega
      rw [numbers, ih, List.range_succ_eq_map, List.map_cons, List.map_map]
      simp only [hrest, Int.natCast_zero, Int.add_zero]
      rfl

/-- No number is handed out twice. -/
theorem nodup_numbers (n : Nat) (s : Supply) : (numbers n s).Nodup := by
  induction n generalizing s with
  | zero => exact List.nodup_nil
  | succ n ih =>
      rw [numbers, List.nodup_cons]
      refine ⟨?_, ih _⟩
      rw [mem_numbers, fresh_next]
      omega

/-- If all numbers of two lists have been handed out and none stands twice, then none stands
twice after numbers have been drawn for the first list, and then for the second. -/
theorem nodup_append_of_drawn {s s' : Supply} {m n : Nat} {as bs as' bs' : List Int}
    (h : (as ++ bs).Nodup) (hlt : ∀ i ∈ as ++ bs, i < s.next) (hs : s' = s.draw m)
    (ha : as'.Nodup) (hda : ∀ i ∈ as', i ∈ as ∨ i ∈ s.numbers m)
    (hb : bs'.Nodup) (hdb : ∀ i ∈ bs', i ∈ bs ∨ i ∈ s'.numbers n) : (as' ++ bs').Nodup := by
  obtain ⟨-, -, hd⟩ := List.nodup_append.1 h
  refine List.nodup_append.2 ⟨ha, hb, ?_⟩
  rintro i hi j hj rfl
  have hla : i ∈ as → i < s.next := fun hm => hlt i (List.mem_append_left _ hm)
  have hlb : i ∈ bs → i < s.next := fun hm => hlt i (List.mem_append_right _ hm)
  have hda := hda i hi
  have hdb := hdb i hj
  rw [mem_numbers] at hda hdb
  rw [hs, draw_next] at hdb
  -- an old number is below those drawn, and those of the second list are drawn later
  rcases hda with hi | hi <;> rcases hdb with hj | hj
  · exact hd i hi i hj rfl
  · have := hla hi
    omega
  · have := hlb hj
    omega
  · omega

/-- What was drawn is in use, and so is what was in use before. -/
theorem mem_used_draw (n : Nat) (s : Supply) (i : Int) :
    i ∈ (draw n s).used ↔ i ∈ s.used ∨ i ∈ numbers n s := by
  induction n generalizing s with
  | zero => simp [draw, numbers]
  | succ n ih =>
      rw [draw, ih, numbers, List.mem_cons]
      simp only [fresh, List.mem_cons]
      rw [or_assoc, or_left_comm]

/-- All numbers that were drawn are below the next one. -/
theorem Bounded.draw {s : Supply} (h : s.Bounded) (n : Nat) : (s.draw n).Bounded := by
  induction n generalizing s with
  | zero => exact h
  | succ n ih => exact ih h.fresh

/-- What is going to be handed out is not in use. -/
theorem Bounded.notMem_used {s : Supply} (h : s.Bounded) {n : Nat} {i : Int}
    (hi : i ∈ s.numbers n) : i ∉ s.used := by
  intro hm
  have hlt := h i hm
  have hle := ((mem_numbers n s i).1 hi).1
  omega

end Supply

end UntypedLambda
