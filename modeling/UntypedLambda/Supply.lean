/-!
# Binder numbers

Functions are told apart by numbers.  A `Supply` hands out numbers that are not
in use yet: the next one is always larger than every number reserved or handed
out before, and never less than one.

* `Supply.Bounded.fresh_notMem` — no number in use is handed out again, for every
  supply that started empty.
-/

namespace UntypedLambda

/-- A source of fresh binder numbers. -/
structure Supply where
  /-- The numbers in use, the latest first; a number may be listed twice. -/
  used : List Int
  /-- The number that is handed out next. -/
  next : Int
  deriving DecidableEq, Repr, Inhabited

namespace Supply

/-- The supply of which nothing is in use. -/
def empty : Supply := ⟨[], 1⟩

/-- Marks one number as in use. -/
def mark (s : Supply) (id : Int) : Supply := ⟨id :: s.used, max s.next (id + 1)⟩

/-- Marks numbers as in use. -/
def reserve (s : Supply) (ids : List Int) : Supply := ids.foldl mark s

/-- The supply of which the given numbers are in use. -/
def ofUsed (ids : List Int) : Supply := empty.reserve ids

/-- Hands out the next number. -/
def fresh (s : Supply) : Int × Supply := (s.next, ⟨s.next :: s.used, s.next + 1⟩)

/-- Reserving puts exactly the given numbers in use besides those that are. -/
theorem mem_used_reserve (s : Supply) (ids : List Int) (i : Int) :
    i ∈ (s.reserve ids).used ↔ i ∈ ids ∨ i ∈ s.used := by
  induction ids generalizing s with
  | nil => simp [reserve]
  | cons id ids ih =>
      have h := ih (s.mark id)
      simp only [reserve, List.foldl_cons, mark, List.mem_cons] at h ⊢
      rw [h]
      exact or_left_comm.trans or_assoc.symm

/-- Every number in use is below the next one. -/
def Bounded (s : Supply) : Prop := ∀ id ∈ s.used, id < s.next

theorem bounded_empty : empty.Bounded := by
  intro id h
  cases h

theorem Bounded.mark {s : Supply} (h : s.Bounded) (id : Int) : (s.mark id).Bounded := by
  intro i hi
  simp only [Supply.mark, List.mem_cons] at hi ⊢
  rcases hi with rfl | hi
  · omega
  · have := h i hi
    omega

theorem Bounded.reserve {s : Supply} (h : s.Bounded) (ids : List Int) :
    (s.reserve ids).Bounded := by
  induction ids generalizing s with
  | nil => exact h
  | cons id ids ih => exact ih (h.mark id)

theorem Bounded.fresh {s : Supply} (h : s.Bounded) : s.fresh.2.Bounded := by
  intro i hi
  simp only [Supply.fresh, List.mem_cons] at hi ⊢
  rcases hi with rfl | hi
  · omega
  · have := h i hi
    omega

/-- The number handed out is not in use. -/
theorem Bounded.fresh_notMem {s : Supply} (h : s.Bounded) : s.fresh.1 ∉ s.used := by
  intro hm
  exact absurd (h _ hm) (by simp [Supply.fresh])

end Supply

end UntypedLambda
