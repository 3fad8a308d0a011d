import UntypedLambda.Proofs.Reporter.History
import UntypedLambda.Proofs.Session.Strict
import UntypedLambda.Proofs.Text.Position
import UntypedLambda.Proofs.Token.Partition

/-!
# What is shown of a line that cannot be read

If a line cannot be read, the error knows the place where reading stopped, and the report shows
the line with a marker under that place.  The place is given a second time in front of the
message, as a column.  The marker is as far to the right as there are characters in front of the
place, and the column counts those behind the last line break only; so the two agree as long as
there is no line break in front of the place, and disagree if there is one.

* `Span.Marks`, `Line.marks_of_parse` — the place where reading a line stopped.
* `diagnose_plain` — a line with a marker under it.
* `Session.parse_of_add_unexpected` — only what cannot be read is reported as unexpected.
* `Session.report_underlines`, `Session.report_caret_off_column` — the marker and the column, and
  a line for which they disagree.
-/

namespace UntypedLambda

/-! ## The place where reading stopped -/

/-- What is written at the place of a finding: the token, or nothing at the end of the line. -/
def Found.written : Found → List Char
  | .token t => t.text.toList
  | _ => []

/-- The span is the part of the source where the finding stands. -/
structure Span.Marks (span : Span) (source : String) (found : Found) : Prop where
  /-- It is a part of the source. -/
  within : span.start ≤ span.stop ∧ span.stop ≤ source.length
  /-- The source is there what was found. -/
  written : span.slice source.toList = found.written

/-- A line that cannot be read has a place where reading stopped. -/
theorem Line.marks_of_parse {source : String} {err : Error} (h : parse source = .error err) :
    ∃ expected found span, err = .unexpected expected found (some span) ∧
      span.Marks source found := by
  have hearliest := earliest_parse source
  rw [h] at hearliest
  cases hearliest with
  | atEnd expected =>
      refine ⟨expected, .endOfInput, .point source.length, rfl, ⟨Nat.le_refl _, Nat.le_refl _⟩, ?_⟩
      simp [Span.point, Span.slice, Found.written]
  | atToken expected taken t rest heq =>
      have hstands := ((Token.divides_tokenize source).standsIn t (by simp [heq])).2
      have hlt := hstands.within.1
      refine ⟨expected, .token t, t.span, rfl, ⟨Nat.le_of_lt hlt, ?_⟩, hstands.text.symm⟩
      exact String.length_toList ▸ hstands.within.2

/-! ## A line with a marker under it -/

/-- The marker under a line: a caret at the start of the span, and tildes up to its end. -/
def marker (span : Span) : List Char :=
  List.replicate (2 + span.start) ' ' ++
    '^' :: List.replicate (max (span.stop - span.start) 1 - 1) '~'

/-- The caret stands at the start of the span, two characters further to the right. -/
theorem idxOf_marker (span : Span) : (marker span).idxOf '^' = 2 + span.start := by
  have hblank : '^' ∉ List.replicate (2 + span.start) ' ' := by simp
  rw [marker, List.idxOf_append_of_notMem hblank, List.idxOf_cons_self, List.length_replicate,
    Nat.add_zero]

/-- Without highlighting, a line is shown as it is, with the marker under it. -/
theorem diagnose_plain (line : String) (span : Span) (warning : Bool) :
    diagnose .plain line span warning = "  " ++ line ++ "\n" ++ String.ofList (marker span) := by
  let stop := max span.stop (span.start + 1)
  have hle : span.start ≤ stop := by omega
  have hwidth : stop - span.start - 1 = max (span.stop - span.start) 1 - 1 := by omega
  have hpad : "  ".toList ++ List.replicate span.start ' ' =
      List.replicate (2 + span.start) ' ' := by
    rw [List.replicate_add]
    rfl
  have hline : line.toList.take span.start ++
      ((line.toList.take stop).drop span.start ++ line.toList.drop stop) = line.toList := by
    rw [List.drop_take, ← Nat.add_sub_of_le hle, ← List.drop_drop, Nat.add_sub_cancel_left,
      List.take_append_drop, List.take_append_drop]
  rw [← String.toList_inj]
  simp only [diagnose, underline, marker, Style.bold_plain, String.toList_append,
    String.toList_ofList, List.append_assoc, ← hpad, ← hwidth]
  conv => rhs; rw [← hline]
  simp only [stop, List.append_assoc]

namespace Reporter

/-- What is printed for a line that cannot be read. -/
theorem report_unexpected {r : Reporter} (hstyle : r.style = .plain) {path line : String}
    {number : Option Int} (h : r.current? = some (path, line, number)) (expected : Expected)
    (found : Found) (span : Span) :
    r.report (.unexpected expected found (some span)) =
      path ++ ":" ++ numberText number ++ ":" ++ toString (lineCol line span.start).2 ++ ": " ++
        "error: " ++ (Error.unexpected expected found (some span)).message ++ "\n" ++
        "  " ++ line ++ "\n" ++ String.ofList (marker span) ++ "\n" := by
  simp only [report, location_of_current? h, hstyle, Style.bold_plain, Error.internal, excerpt,
    Error.span?, Error.diagnosis, diagnose_plain, placeText, Option.map_some, Option.getD_some,
    String.append_assoc, Bool.false_eq_true, if_false, String.empty_append]

end Reporter

namespace Session

variable {s : Session} {fuel : Nat} {source : String} {number : Int} {expected : Expected}
  {found : Found} {span? : Option Span}

/-! ## Lines that are refused as unexpected -/

/-- The only error for which a session stops a line is that its bound has been passed. -/
theorem eq_stepLimit_of_watch {p : Progress} {c : Contraction} {e : Error}
    (h : (s.watch p c).2 = some (.error e)) : ∃ n, e = .stepLimit n := by
  unfold watch at h
  simp only at h
  split at h
  · cases h
  · unfold overLimit at h
    split at h
    · cases h
    · split at h
      · cases h
        exact ⟨_, rfl⟩
      · cases h
    · cases h

/-- Only a line that cannot be read is refused for what was found in it. -/
theorem parse_of_add_unexpected
    (h : (s.add fuel source number).result = .error (.error (.unexpected expected found span?))) :
    Line.parse source = .error (.unexpected expected found span?) := by
  cases htask : s.environment.task s.strict source with
  | refuse e =>
      rw [add_of_refuse htask] at h
      cases h
      rcases Environment.of_task_eq_refuse htask with hparse | ⟨x, hx⟩
      · exact hparse
      · cases hx
  | skip =>
      rw [add_of_skip htask] at h
      cases h
  | reduce line t =>
      cases hend : (s.lineRun fuel t).ending with
      | normal v =>
          rw [add_of_normal htask hend] at h
          cases h
      | unfinished u =>
          rw [add_of_unfinished htask hend] at h
          cases h
      | stopped i =>
          -- the reason is one that the watcher gave
          obtain ⟨sts, u, -, hp⟩ := Reducer.exists_steps s.watch fuel Reducer.fresh ⟨0, ""⟩ t
          have hshown := hp.shown
          unfold lineRun at hend
          rw [hend] at hshown
          obtain ⟨seen, c, hstop⟩ := hshown.exists_of_stop
          simp only [add, evaluateWithin_unlimited, evaluate_eq_task, htask, hend] at h
          cases i with
          | error e =>
              cases h
              obtain ⟨n, hn⟩ := eq_stepLimit_of_watch hstop
              cases hn
          | depth _ | keyboard _ | exit _ | fault _ | unfinished => cases h

/-! ## Marker and column -/

/-- A session that fails with a line has its reporter report errors in that line, unless the
reporter has a line of a path that it has known for a shorter time. -/
theorem current?_of_add {history : List Reporter.Event}
    (hreporter : s.reporter = Reporter.after .plain history)
    (hlast : Reporter.LastIntroduced (.line s.path (some source) (some number) :: history) s.path)
    {i : Interruption} (h : (s.add fuel source number).result = .error i) :
    (s.add fuel source number).state.reporter.style = .plain ∧
      (s.add fuel source number).state.reporter.current? =
        some (s.path, source, some number) := by
  have hstate : (s.add fuel source number).state = s.registering source number := by
    rcases s.exists_add_eq fuel source with ⟨printed, i', hadd⟩ | ⟨printed, o, hadd⟩
    · rw [hadd]
    · rw [hadd] at h
      cases h
  have hafter : (s.add fuel source number).state.reporter =
      Reporter.after .plain (.line s.path (some source) (some number) :: history) := by
    rw [hstate, registering, hreporter]
    rfl
  rw [hafter, Reporter.style_after, Reporter.current?_after_eq_some_iff]
  exact ⟨rfl, by simp [Reporter.standing], hlast⟩

/-- **Where the marker stands.**  If a line is refused for what was found in it, the error knows
the part of the line where that stands.  A reporter that is not fatal, does not highlight and has
no line of a path that it has known for a shorter time then prints the place and the message, the
line, and under it the marker.  The caret is at the offset that the column says exactly if there
is no line break in front of the place. -/
theorem report_underlines
    (h : (s.add fuel source number).result = .error (.error (.unexpected expected found span?))) :
    ∃ span, span? = some span ∧ span.start ≤ span.stop ∧ span.stop ≤ source.length ∧
      span.slice source.toList = found.written ∧
      ∀ history, s.reporter = Reporter.after .plain history →
        Reporter.LastIntroduced (.line s.path (some source) (some number) :: history) s.path →
        ∃ last : List Char,
          ((s.add fuel source number).state.reporter.throw
              (.unexpected expected found span?)).printed =
            s.path ++ ":" ++ toString number ++ ":" ++ toString (lineCol source span.start).2 ++
              ": " ++ "error: " ++ (Error.unexpected expected found span?).message ++ "\n" ++
              "  " ++ source ++ "\n" ++ String.ofList last ++ "\n" ∧
          last = List.replicate (2 + span.start) ' ' ++
            '^' :: List.replicate (max (span.stop - span.start) 1 - 1) '~' ∧
          (last.idxOf '^' = 2 + ((lineCol source span.start).2 - 1) ↔
            '\n' ∉ source.toList.take span.start) := by
  obtain ⟨_, _, span, herr, hmarks⟩ := Line.marks_of_parse (parse_of_add_unexpected h)
  cases herr
  obtain ⟨hstart, hstop⟩ := hmarks.within
  refine ⟨span, rfl, hstart, hstop, hmarks.written, fun history hreporter hlast => ?_⟩
  obtain ⟨hstyle, hcurrent⟩ := current?_of_add hreporter hlast h
  refine ⟨marker span, ?_, rfl, ?_⟩
  · rw [Reporter.printed_throw, Reporter.report_unexpected hstyle hcurrent]
    rfl
  · rw [idxOf_marker, ← lineCol_snd_eq_iff (Nat.le_trans hstart hstop)]
    omega

/-- The theorem at `x y := z`, where the sign of a definition is to blame. -/
theorem report_underlines_sign :
    let s := new (Reporter.new false .plain) false .none false inputPath
    let e := Error.unexpected .operandOrClose (.token ⟨.assign, ⟨4, 6⟩⟩) (some ⟨4, 6⟩)
    (s.add 0 "x y := z" 3).result = .error (.error e) ∧
    ((s.add 0 "x y := z" 3).state.reporter.throw e).printed =
      "<in>:3:5: error: expected `)` or expression, found `:=`\n  x y := z\n      ^~\n" ∧
    "      ^~".toList.idxOf '^' = 2 + ((lineCol "x y := z" 4).2 - 1) := by
  intro s e
  have hresult : (s.add 0 "x y := z" 3).result = .error (.error e) := by rfl
  have hlast : Reporter.LastIntroduced
      [.line s.path (some "x y := z") (some 3), .file inputPath] s.path := by
    refine Reporter.lastIntroduced_of_only fun other hne => ?_
    simp [Reporter.standing, hne]
  obtain ⟨span, hspan, -, -, -, hreport⟩ := report_underlines hresult
  cases hspan
  obtain ⟨last, hprinted, rfl, hcaret⟩ := hreport [.file inputPath] rfl hlast
  refine ⟨hresult, ?_, hcaret.2 (by decide)⟩
  rw [hprinted]
  decide +kernel

/-- A line break in front of the place: the column is counted from the line break, and the caret is
not. -/
theorem report_caret_off_column :
    let s := new (Reporter.new false .plain) false .none false inputPath
    let e := Error.unexpected .operandOrClose (.token ⟨.dot, ⟨2, 3⟩⟩) (some ⟨2, 3⟩)
    (s.add 0 "x\n." 1).result = .error (.error e) ∧
    ((s.add 0 "x\n." 1).state.reporter.throw e).printed =
      "<in>:1:1: error: expected `)` or expression, found `.`\n  x\n.\n    ^\n" ∧
    "    ^".toList.idxOf '^' ≠ 2 + ((lineCol "x\n." 2).2 - 1) := by
  intro s e
  have hparse : Line.parse "x\n." = .error e := by rfl
  have htask : s.environment.task s.strict "x\n." = .refuse e := Environment.task_eq_refuse hparse
  rw [add_of_refuse htask]
  exact ⟨rfl, by decide +kernel, by decide⟩

end Session

end UntypedLambda
