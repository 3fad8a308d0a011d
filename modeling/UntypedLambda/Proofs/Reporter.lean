import UntypedLambda.Reporter

/-!
# What a reporter knows and says

A reporter knows one line per path, so registering a line replaces the one that was known
before.  The number of the line that is registered shows in one place of a report only, the
location, and nowhere in how an action goes on.

* `Reporter.register_register`, `Reporter.get?_clearAll` — what a reporter knows.
* `Reporter.SameUpToNumber` — texts that differ in the number of a line only.
* `Reporter.guard_register` — what the number of a line does to a report.
-/

namespace UntypedLambda

namespace Reporter

/-! ## The lines that are known -/

@[simp] theorem register_register (r : Reporter) (path : String) (line line' : Option String)
    (number number' : Option Int) :
    (r.register path line number).register path line' number' = r.register path line' number' := by
  simp [register]

@[simp] theorem clear_register (r : Reporter) (path : String) (line : Option String)
    (number : Option Int) : (r.register path line number).clear path = r.clear path :=
  r.register_register path line none number none

@[simp] theorem register_clear (r : Reporter) (path : String) (line : Option String)
    (number : Option Int) :
    (r.clear path).register path line number = r.register path line number :=
  r.register_register path none line none number

@[simp] theorem get?_register (r : Reporter) (path : String) (line : Option String)
    (number : Option Int) :
    (r.register path line number).lines.get? path = some ⟨line, number⟩ := by
  simp [register, Table.get?_put]

/-- After all lines were forgotten, a path that was known has none. -/
theorem get?_clearAll {r : Reporter} {path : String} {known : Registered}
    (h : r.lines.get? path = some known) :
    r.clearAll.lines.get? path = some ⟨none, none⟩ := by
  simp [clearAll, Table.get?_mapValues, h]

/-- A line that is registered is the latest one, or a line of a later path is, whatever its
number. -/
theorem current?_register (r : Reporter) (path line : String) :
    (∀ number, (r.register path (some line) number).current? = some (path, line, number)) ∨
      ∃ latest, ∀ number, (r.register path (some line) number).current? = latest := by
  obtain ⟨fatal, style, ⟨es⟩⟩ := r
  simp only [current?, register, Table.put]
  induction es with
  | nil => exact .inl fun number => rfl
  | cons e es ih =>
      by_cases h : e.1 = path
      · -- the line takes the place of this entry, so only later entries can come before it
        simp only [Table.store, if_pos h, List.reverse_cons, List.findSome?_append]
        cases es.reverse.findSome? fun e => e.2.line.map fun line => (e.1, line, e.2.number) with
        | none => exact .inl fun number => rfl
        | some latest => exact .inr ⟨some latest, fun number => rfl⟩
      · simp only [Table.store, if_neg h, List.reverse_cons, List.findSome?_append]
        rcases ih with ih | ⟨latest, ih⟩
        · refine .inl fun number => ?_
          rw [ih]
          rfl
        · exact .inr ⟨_, fun number => congrArg (Option.or · _) (ih number)⟩

/-! ## Texts that differ in the number of a line -/

/-- The texts are the same, except that where the first has line `m` of the path as a location,
the second may have line `n`. -/
def SameUpToNumber (path : String) (m n : Int) (a b : String) : Prop :=
  a = b ∨ ∃ before after, a = before ++ (path ++ ":" ++ toString m ++ ":") ++ after ∧
    b = before ++ (path ++ ":" ++ toString n ++ ":") ++ after

namespace SameUpToNumber

variable {path : String} {m n : Int} {a b : String}

theorem refl (path : String) (m n : Int) (a : String) : SameUpToNumber path m n a a := .inl rfl

theorem append_left (h : SameUpToNumber path m n a b) (text : String) :
    SameUpToNumber path m n (text ++ a) (text ++ b) := by
  rcases h with rfl | ⟨before, after, rfl, rfl⟩
  · exact refl path m n _
  · exact .inr ⟨text ++ before, after, by simp only [String.append_assoc],
      by simp only [String.append_assoc]⟩

theorem append_right (h : SameUpToNumber path m n a b) (text : String) :
    SameUpToNumber path m n (a ++ text) (b ++ text) := by
  rcases h with rfl | ⟨before, after, rfl, rfl⟩
  · exact refl path m n _
  · exact .inr ⟨before, after ++ text, by simp only [String.append_assoc],
      by simp only [String.append_assoc]⟩

end SameUpToNumber

section Register

variable (r : Reporter) (path line : String) (m n : Int)

/-- The number of a line shows in the location of an error only, and the line that is found
there does not depend on it. -/
theorem location_register (e : Error) :
    SameUpToNumber path m n ((r.register path (some line) (some m)).location e).1
        ((r.register path (some line) (some n)).location e).1 ∧
      ((r.register path (some line) (some m)).location e).2 =
        ((r.register path (some line) (some n)).location e).2 := by
  unfold location
  rcases r.current?_register path line with h | ⟨latest, h⟩
  · simp only [h, numberText, and_true]
    apply Or.inr
    cases hstyle : r.style with
    | plain =>
        refine ⟨"", toString (lineCol line ((e.span?.map Span.start).getD 0)).2 ++ ": ", ?_, ?_⟩ <;>
          simp [register, hstyle, String.append_assoc]
    | ansi =>
        refine ⟨"\x1b[1m", toString (lineCol line ((e.span?.map Span.start).getD 0)).2 ++ ": " ++
          "\x1b[0m", ?_, ?_⟩ <;>
          simp [register, hstyle, Style.bold, String.append_assoc]
  · simp only [h]
    exact ⟨.refl path m n _, rfl⟩

theorem report_register (e : Error) :
    SameUpToNumber path m n ((r.register path (some line) (some m)).report e)
      ((r.register path (some line) (some n)).report e) := by
  obtain ⟨hplace, hline⟩ := r.location_register path line m n e
  unfold report
  simp only [hline]
  simp only [String.append_assoc]
  exact hplace.append_right _

theorem throwThen_register {α : Type} (e : Error) (result : Except Interruption (Option α)) :
    SameUpToNumber path m n ((r.register path (some line) (some m)).throwThen e result).printed
        ((r.register path (some line) (some n)).throwThen e result).printed ∧
      ((r.register path (some line) (some m)).throwThen e result).result =
        ((r.register path (some line) (some n)).throwThen e result).result := by
  have hreport := r.report_register path line m n e
  unfold throwThen throw
  cases hfatal : r.fatal <;> simpa [register, hfatal] using hreport

/-- **The number of a line** shows in the location of what is reported, and makes no difference
to how the action goes on. -/
theorem guard_register {α : Type} (result : Except Interruption α) :
    SameUpToNumber path m n ((r.register path (some line) (some m)).guard result).printed
        ((r.register path (some line) (some n)).guard result).printed ∧
      ((r.register path (some line) (some m)).guard result).result =
        ((r.register path (some line) (some n)).guard result).result := by
  rcases result with i | a
  · cases i with
    | exit code => exact ⟨.refl path m n _, rfl⟩
    | unfinished => exact ⟨.refl path m n _, rfl⟩
    | error e => exact r.throwThen_register path line m n ..
    | depth text => exact r.throwThen_register path line m n ..
    | keyboard text => exact r.throwThen_register path line m n ..
    | fault f => exact r.throwThen_register path line m n ..
  · exact ⟨.refl path m n _, rfl⟩

end Register

end Reporter

end UntypedLambda
