import Mathlib.Data.List.Dedup
import UntypedLambda.Reporter

/-!
# Which line an error is reported in

A reporter may know lines of several paths at once.  The location of an error is that of one of
them, and which one is a matter of what the reporter was told before.  It is not the path whose
line was registered last: a path keeps the place that it had when the reporter first heard of it,
so the location is that of the path, among those that have a line, which the reporter has known
for the shortest time.

A history is a list of events, the latest event first.

* `Reporter.Event`, `Reporter.after` — what a reporter is told, and what becomes of it.
* `Reporter.standing`, `Reporter.introduced`, `Reporter.latest?` — what the history itself says:
  the line of each path, the order in which paths were first mentioned, and the path whose line
  was registered last.
* `Reporter.entries_after` — the table of lines in terms of the history.
* `Reporter.current?_after_eq_some_iff` — the line that errors are reported in.
* `Reporter.location_after`, `Reporter.location_passes_over_latest` — where errors are reported,
  and when that is in the line registered last.
-/

namespace UntypedLambda

/-- Putting a key into a table whose keys are all different. -/
theorem Table.store_map {α β : Type} [DecidableEq α] (f : α → β) (k : α) (v : β) {ks : List α}
    (hks : ks.Nodup) :
    store k v (ks.map fun a => (a, f a)) =
      (if k ∈ ks then ks else ks ++ [k]).map fun a => (a, if a = k then v else f a) := by
  induction ks with
  | nil => simp [store]
  | cons a ks ih =>
      obtain ⟨ha, hks⟩ := List.nodup_cons.1 hks
      rw [List.map_cons, store]
      by_cases hak : a = k
      · -- no other key is `k`
        have hrest : ∀ b ∈ ks, (b, f b) = (b, if b = k then v else f b) := by
          rintro b hb
          rw [if_neg (by rintro rfl; exact ha (hak ▸ hb))]
        rw [if_pos hak, if_pos (by simp [hak]), List.map_cons, if_pos hak, hak,
          List.map_congr_left hrest]
      · have hmem : k ∈ a :: ks ↔ k ∈ ks := by simp [Ne.symm hak]
        rw [if_neg hak, ih hks]
        by_cases hk : k ∈ ks
        · rw [if_pos hk, if_pos (hmem.2 hk), List.map_cons, if_neg hak]
        · rw [if_neg hk, if_neg (mt hmem.1 hk), List.cons_append, List.map_cons, if_neg hak]

namespace Reporter

/-! ## Histories -/

/-- Something that a reporter is told. -/
inductive Event where
  /-- There is a path. -/
  | file (path : String)
  /-- A line of a path is being evaluated, or none. -/
  | line (path : String) (text : Option String) (number : Option Int)
  /-- The line of a path has been dealt with. -/
  | remove (path : String)
  /-- There is an error to be reported. -/
  | thrown (e : Error)
  deriving DecidableEq, Repr

/-- The path that an event is about. -/
def Event.path? : Event → Option String
  | .file path => some path
  | .line path _ _ => some path
  | .remove path => some path
  | .thrown _ => none

/-- The path that a line is registered for. -/
def Event.linePath? : Event → Option String
  | .line path _ _ => some path
  | _ => none

/-- What becomes of a reporter that is told something. -/
def tell (r : Reporter) : Event → Reporter
  | .file path => r.clear path
  | .line path text number => r.register path text number
  | .remove path => r.clear path
  | .thrown e => (r.throw e).state

/-- A reporter that is not fatal, after a history. -/
def after (style : Style) : List Event → Reporter
  | [] => new false style
  | event :: older => (after style older).tell event

/-- The line that a path has after a history. -/
def standing (path : String) : List Event → Registered
  | [] => ⟨none, none⟩
  | .file p :: older => if path = p then ⟨none, none⟩ else standing path older
  | .line p text number :: older => if path = p then ⟨text, number⟩ else standing path older
  | .remove p :: older => if path = p then ⟨none, none⟩ else standing path older
  | .thrown _ :: _ => ⟨none, none⟩

/-- The paths that are mentioned in a history.  The one that has been known for the shortest time
comes first. -/
def introduced (history : List Event) : List String := (history.filterMap Event.path?).dedup

/-- Of the paths that have a line, the one for which a line was registered last. -/
def latest? (history : List Event) : Option String :=
  (history.filterMap Event.linePath?).find? fun path => (standing path history).line.isSome

/-! ## The table of lines -/

@[simp] theorem fatal_after (style : Style) (history : List Event) :
    (after style history).fatal = false := by
  induction history with
  | nil => rfl
  | cons event older ih => cases event <;> simp [after, tell, clear, register, throw, clearAll, ih]

@[simp] theorem style_after (style : Style) (history : List Event) :
    (after style history).style = style := by
  induction history with
  | nil => rfl
  | cons event older ih => cases event <;> simp [after, tell, clear, register, throw, clearAll, ih]

theorem nodup_introduced (history : List Event) : (introduced history).Nodup := List.nodup_dedup _

theorem introduced_cons {event : Event} {path : String} (h : event.path? = some path)
    (older : List Event) :
    introduced (event :: older) =
      if path ∈ introduced older then introduced older else path :: introduced older := by
  unfold introduced
  rw [List.filterMap_cons_some h]
  by_cases hmem : path ∈ older.filterMap Event.path?
  · rw [List.dedup_cons_of_mem hmem, if_pos (List.mem_dedup.2 hmem)]
  · rw [List.dedup_cons_of_notMem hmem, if_neg (mt List.mem_dedup.1 hmem)]

/-- What a reporter is told about a path replaces what it knew. -/
theorem entries_register {r : Reporter} {older : List Event} {event : Event} {path : String}
    (h : r.lines.entries = (introduced older).reverse.map fun p => (p, standing p older))
    (hpath : event.path? = some path) (text : Option String) (number : Option Int)
    (hstanding : ∀ p, standing p (event :: older) =
      if p = path then ⟨text, number⟩ else standing p older) :
    (r.register path text number).lines.entries =
      (introduced (event :: older)).reverse.map fun p => (p, standing p (event :: older)) := by
  have hkeys : (introduced (event :: older)).reverse =
      if path ∈ (introduced older).reverse then (introduced older).reverse
      else (introduced older).reverse ++ [path] := by
    rw [introduced_cons hpath]
    by_cases hmem : path ∈ introduced older
    · rw [if_pos hmem, if_pos (List.mem_reverse.2 hmem)]
    · rw [if_neg hmem, if_neg (mt List.mem_reverse.1 hmem), List.reverse_cons]
  simp only [register, Table.put, h, hstanding, hkeys]
  exact Table.store_map (standing · older) path _ (List.nodup_reverse.2 (nodup_introduced older))

/-- **The table of lines**: the paths in the order in which they were first mentioned, each with
its line. -/
theorem entries_after (style : Style) (history : List Event) :
    (after style history).lines.entries =
      (introduced history).reverse.map fun path => (path, standing path history) := by
  induction history with
  | nil => rfl
  | cons event older ih =>
      cases event with
      | file path => exact entries_register ih rfl none none fun p => rfl
      | line path text number => exact entries_register ih rfl text number fun p => rfl
      | remove path => exact entries_register ih rfl none none fun p => rfl
      | thrown e =>
          have hsame : introduced (.thrown e :: older) = introduced older := rfl
          simp [after, tell, throw, clearAll, Table.mapValues, ih, hsame, standing]

/-! ## The line that errors are reported in -/

theorem current?_after (style : Style) (history : List Event) :
    (after style history).current? = (introduced history).findSome? fun path =>
      (standing path history).line.map fun line =>
        (path, line, (standing path history).number) := by
  rw [current?, entries_after, ← List.map_reverse, List.reverse_reverse, List.findSome?_map]
  rfl

/-- A path that has a line got it when a line was registered for it. -/
theorem mem_linePaths {history : List Event} {path : String}
    (h : (standing path history).line.isSome) : path ∈ history.filterMap Event.linePath? := by
  induction history with
  | nil => cases h
  | cons event older ih =>
      cases event with
      | thrown e => cases h
      | line p text number =>
          have hline : Event.linePath? (.line p text number) = some p := rfl
          rw [List.filterMap_cons_some hline, List.mem_cons]
          by_cases hp : path = p
          · exact .inl hp
          · rw [standing, if_neg hp] at h
            exact .inr (ih h)
      | file p | remove p =>
          rw [List.filterMap_cons_none rfl]
          rw [standing] at h
          split at h
          · cases h
          · exact ih h

/-- A path that has a line has been mentioned. -/
theorem mem_introduced {history : List Event} {path : String}
    (h : (standing path history).line.isSome) : path ∈ introduced history := by
  obtain ⟨event, hevent, hpath⟩ := List.mem_filterMap.1 (mem_linePaths h)
  refine List.mem_dedup.2 (List.mem_filterMap.2 ⟨event, hevent, ?_⟩)
  cases event with
  | line p text number => exact hpath
  | file p | remove p | thrown e => cases hpath

/-- In a list without repetitions, what stands in front of an element. -/
theorem mem_of_pair_sublist {α : Type} {front behind : List α} {a b : α}
    (hnodup : (front ++ b :: behind).Nodup) (h : [a, b].Sublist (front ++ b :: behind)) :
    a ∈ front := by
  obtain ⟨l, r, hlr, hl, hr⟩ := List.sublist_append_iff.1 h
  obtain ⟨-, hright, hdisjoint⟩ := List.nodup_append.1 hnodup
  rcases l with _ | ⟨x, _ | ⟨y, l⟩⟩
  · -- both would stand from `b` on, and then `b` twice
    obtain rfl : [a, b] = r := hlr
    have hb : b ∈ behind := by
      cases hr with
      | cons _ hr => exact hr.subset (by simp)
      | cons_cons _ hr => exact hr.subset (by simp)
    exact absurd hb (List.nodup_cons.1 hright).1
  · obtain ⟨rfl, -⟩ := List.cons.inj hlr
    exact hl.subset (List.mem_singleton_self a)
  · obtain ⟨-, hlr⟩ := List.cons.inj hlr
    obtain ⟨rfl, -⟩ := List.cons.inj hlr
    exact absurd rfl (hdisjoint b (hl.subset (by simp)) b (List.mem_cons_self ..))

/-- No path that has a line has been known for a shorter time. -/
def LastIntroduced (history : List Event) (path : String) : Prop :=
  ∀ other, (standing other history).line.isSome → ¬[other, path].Sublist (introduced history)

/-- There is no question which path it is if only one has a line. -/
theorem lastIntroduced_of_only {history : List Event} {path : String}
    (h : ∀ other, other ≠ path → (standing other history).line = none) :
    LastIntroduced history path := by
  intro other hother hsub
  by_cases heq : other = path
  · rw [heq] at hsub
    exact absurd ((nodup_introduced history).sublist hsub) (by simp)
  · rw [h other heq] at hother
    cases hother

/-- **The line that errors are reported in** is that of the path, among those that have one,
which has been known for the shortest time. -/
theorem current?_after_eq_some_iff {style : Style} {history : List Event} {path line : String}
    {number : Option Int} :
    (after style history).current? = some (path, line, number) ↔
      standing path history = ⟨some line, number⟩ ∧ LastIntroduced history path := by
  rw [current?_after]
  constructor
  · intro h
    obtain ⟨newer, p, older, heq, hp, hnewer⟩ := List.findSome?_eq_some_iff.1 h
    obtain ⟨text, htext, hmk⟩ := Option.map_eq_some_iff.1 hp
    cases hmk
    refine ⟨by rw [← htext], fun other hother hsub => ?_⟩
    have hnodup := nodup_introduced history
    rw [heq] at hnodup hsub
    have hnone := hnewer other (mem_of_pair_sublist hnodup hsub)
    rw [Option.map_eq_none_iff] at hnone
    rw [hnone] at hother
    cases hother
  · rintro ⟨hline, hlast⟩
    have hmem : path ∈ introduced history := mem_introduced (by rw [hline]; rfl)
    obtain ⟨newer, older, heq⟩ := List.append_of_mem hmem
    refine List.findSome?_eq_some_iff.2 ⟨newer, path, older, heq, by simp [hline], ?_⟩
    intro other hother
    rw [Option.map_eq_none_iff]
    cases htext : (standing other history).line with
    | none => rfl
    | some text =>
        refine absurd ?_ (hlast other (by rw [htext]; rfl))
        rw [heq]
        exact (List.singleton_sublist.2 hother).append (List.singleton_sublist.2 (by simp))

/-- There is no line to report errors in exactly if no path has one. -/
theorem current?_after_eq_none_iff {style : Style} {history : List Event} :
    (after style history).current? = none ↔ ∀ path, (standing path history).line = none := by
  rw [current?_after, List.findSome?_eq_none_iff]
  constructor
  · intro h path
    cases htext : (standing path history).line with
    | none => rfl
    | some text =>
        have hnone := h path (mem_introduced (by rw [htext]; rfl))
        rw [htext] at hnone
        cases hnone
  · intro h path _
    rw [h path]
    rfl

theorem latest?_eq_none {history : List Event} (h : latest? history = none) (path : String) :
    (standing path history).line = none := by
  cases htext : (standing path history).line with
  | none => rfl
  | some text =>
      have hsome : (standing path history).line.isSome := by rw [htext]; rfl
      exact absurd hsome (List.find?_eq_none.1 h path (mem_linePaths hsome))

theorem isSome_of_latest? {history : List Event} {path : String}
    (h : latest? history = some path) : (standing path history).line.isSome := by
  unfold latest? at h
  simpa using List.find?_some h

/-- Errors are reported in the line registered last exactly if no path that has a line has been
known for a shorter time. -/
theorem current?_after_eq_latest?_iff {style : Style} {history : List Event} :
    (after style history).current?.map (·.1) = latest? history ↔
      ∀ path, latest? history = some path → LastIntroduced history path := by
  cases hlatest : latest? history with
  | none =>
      rw [current?_after_eq_none_iff.2 (latest?_eq_none hlatest)]
      simp
  | some path =>
      obtain ⟨line, hline⟩ := Option.isSome_iff_exists.1 (isSome_of_latest? hlatest)
      simp only [Option.some.injEq, forall_eq']
      constructor
      · intro h
        obtain ⟨⟨p, text, number⟩, hcurrent, hp⟩ := Option.map_eq_some_iff.1 h
        cases hp
        exact (current?_after_eq_some_iff.1 hcurrent).2
      · intro h
        rw [current?_after_eq_some_iff.2 ⟨by rw [← hline], h⟩]
        rfl

/-! ## What is printed -/

/-- How the place of an error in a line is written. -/
def placeText (path line : String) (number : Option Int) (e : Error) : String :=
  path ++ ":" ++ numberText number ++ ":" ++
    toString (lineCol line ((e.span?.map Span.start).getD 0)).2 ++ ": "

theorem location_of_current? {r : Reporter} {path line : String} {number : Option Int}
    (h : r.current? = some (path, line, number)) (e : Error) :
    r.location e = (r.style.bold none (placeText path line number e), some line) := by
  rw [location, h]
  rfl

theorem bold_placeText_ne (style : Style) (path line : String) (number : Option Int) (e : Error) :
    style.bold none (placeText path line number e) ≠ "" := by
  intro h
  have hlength := congrArg String.length h
  cases style <;> simp [Style.bold, placeText, String.length_append] at hlength

theorem location_eq_empty_iff {r : Reporter} (e : Error) :
    (r.location e).1 = "" ↔ r.current? = none := by
  cases h : r.current? with
  | none => simp [location, h]
  | some latest =>
      obtain ⟨path, line, number⟩ := latest
      simp [location_of_current? h, bold_placeText_ne]

/-- Whether a reporter is fatal or not makes no difference to what it prints. -/
theorem printed_throw (r : Reporter) (e : Error) : (r.throw e).printed = r.report e := by
  unfold throw
  split <;> rfl

/-- Both an error and a warning are reported behind the location. -/
theorem exists_report_eq (r : Reporter) (e : Error) :
    (∃ rest, (r.throw e).printed = (r.location e).1 ++ rest) ∧
      ∃ rest, r.warning e = (r.location e).1 ++ rest := by
  rw [printed_throw, report, warning]
  simp only [String.append_assoc]
  exact ⟨⟨_, rfl⟩, ⟨_, rfl⟩⟩

/-- **Where errors are reported.**  After any history of a reporter that is not fatal, what is
printed for an error starts with its location, and so does a warning.  The location is empty
exactly if no path has a line.  It is that of a path exactly if the path has a line and no path
with a line has been mentioned for the first time after it.  So it is that of the path whose line
was registered last exactly if no path with a line was first mentioned after that one. -/
theorem location_after (style : Style) (history : List Event) :
    let r := after style history
    (∀ e, (∃ rest, (r.throw e).printed = (r.location e).1 ++ rest) ∧
      ∃ rest, r.warning e = (r.location e).1 ++ rest) ∧
    (∀ e, (r.location e).1 = "" ↔ ∀ path, (standing path history).line = none) ∧
    (∀ path line number,
      (r.current? = some (path, line, number) ↔
        standing path history = ⟨some line, number⟩ ∧ LastIntroduced history path) ∧
      (r.current? = some (path, line, number) →
        ∀ e, r.location e = (style.bold none (placeText path line number e), some line))) ∧
    (r.current?.map (·.1) = latest? history ↔
      ∀ path, latest? history = some path → LastIntroduced history path) := by
  intro r
  refine ⟨r.exists_report_eq, ?_, ?_, current?_after_eq_latest?_iff⟩
  · intro e
    rw [location_eq_empty_iff, current?_after_eq_none_iff]
  · intro path line number
    refine ⟨current?_after_eq_some_iff, fun hcurrent e => ?_⟩
    rw [location_of_current? hcurrent, style_after]

/-- The theorem at a history in which the line that was registered last has been removed. -/
theorem location_after_removal :
    let history : List Event :=
      [.remove "b", .line "b" (some "y z") (some 4), .line "a" (some "x )") (some 7), .file "b"]
    latest? history = some "a" ∧
    (after .plain history).location (.other "m" (some ⟨2, 3⟩) true false) =
      ("a:7:3: ", some "x )") := by
  intro history
  obtain ⟨-, -, hplace, -⟩ := location_after .plain history
  refine ⟨by decide, ?_⟩
  have honly : ∀ other, other ≠ "a" → (standing other history).line = none := by
    intro other hne
    by_cases hb : other = "b" <;> simp [history, standing, hb, hne]
  obtain ⟨hcurrent, hlocation⟩ := hplace "a" "x )" (some 7)
  rw [hlocation (hcurrent.2 ⟨by decide, lastIntroduced_of_only honly⟩)]
  decide +kernel

/-- After a second line of `a`, errors are still reported in the line of `b`, because `b` has been
known for a shorter time.  So the location is not always that of the line registered last. -/
theorem location_passes_over_latest :
    let history : List Event :=
      [.line "a" (some "z") (some 2), .line "b" (some "y") (some 1), .line "a" (some "x") (some 1)]
    latest? history = some "a" ∧
    ((after .plain history).throw (.other "m" none true false)).printed = "b:1:1: error: m\n" ∧
    ¬∀ history, (after .plain history).current?.map (·.1) = latest? history := by
  intro history
  have hlatest : latest? history = some "a" := by decide
  have hcurrent : (after .plain history).current? = some ("b", "y", some 1) := by decide
  refine ⟨hlatest, by decide +kernel, ?_⟩
  intro h
  have hsame := h history
  rw [hlatest, hcurrent] at hsame
  exact absurd hsame (by decide)

end Reporter

end UntypedLambda
