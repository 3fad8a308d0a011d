import UntypedLambda.Proofs.Shell.Submission

/-!
# Lines in several pieces

A line that ends too early can be continued, as often as it takes.  Typing it in pieces is the
same as typing it at once, with spaces in between, except that it is a later line: the number
shows in the location of an error that is reported.

* `Shell.Piece` — what can be typed as a piece of a line.
* `Shell.Piece.joined` — pieces make up one.
* `Shell.feed_eq_submit` — typing pieces is submitting the line that they make up, later.
* `Shell.AgreesUpToNumber`, `Shell.submit_number` — what the number of a line does.
* `Shell.feed_pieces_agrees` — both together.
-/

namespace UntypedLambda

/-! ## Stripped texts -/

/-- Nothing is stripped from a text exactly if nothing is stripped from either end. -/
theorem stripChars_eq_self_iff (cs : List Char) :
    stripChars cs = cs ↔
      cs.dropWhile isBlank = cs ∧ cs.reverse.dropWhile isBlank = cs.reverse := by
  constructor
  · intro h
    have hfront : cs.dropWhile isBlank = cs := by
      refine (List.dropWhile_suffix isBlank).eq_of_length_le ?_
      calc cs.length = (stripChars cs).length := by rw [h]
        _ ≤ (cs.dropWhile isBlank).reverse.length := by
          rw [stripChars, List.length_reverse]
          exact (List.dropWhile_suffix isBlank).length_le
        _ = (cs.dropWhile isBlank).length := List.length_reverse
    rw [stripChars, hfront, List.reverse_eq_iff] at h
    exact ⟨hfront, h⟩
  · rintro ⟨hfront, hback⟩
    rw [stripChars, hfront, hback, List.reverse_reverse]

/-- If nothing is stripped from the front of a text, nothing is with a text behind it. -/
theorem dropWhile_isBlank_append {cs : List Char} (hne : cs ≠ []) (h : cs.dropWhile isBlank = cs)
    (ds : List Char) : (cs ++ ds).dropWhile isBlank = cs ++ ds := by
  cases cs with
  | nil => exact absurd rfl hne
  | cons c cs =>
      have hc : isBlank c = false := by
        by_contra hc
        rw [List.dropWhile_cons_of_pos (by simpa using hc)] at h
        have := (List.dropWhile_suffix isBlank (l := cs)).length_le
        rw [h, List.length_cons] at this
        omega
      rw [List.cons_append, List.dropWhile_cons_of_neg (by simp [hc])]

theorem stripChars_append {cs ds : List Char} (hcs : stripChars cs = cs) (hds : stripChars ds = ds)
    (hc : cs ≠ []) (hd : ds ≠ []) (es : List Char) :
    stripChars (cs ++ (es ++ ds)) = cs ++ (es ++ ds) := by
  rw [stripChars_eq_self_iff] at hcs hds ⊢
  refine ⟨dropWhile_isBlank_append hc hcs.1 _, ?_⟩
  rw [List.reverse_append, List.reverse_append, List.append_assoc]
  exact dropWhile_isBlank_append (by simpa using hd) hds.2 _

/-- A space ends the leading word of a line, so what stands behind it does not matter. -/
theorem Command.ofLine?_append_space {p : String} (hne : p ≠ "") (rest : String) :
    ofLine? (p ++ " " ++ rest) = ofLine? p := by
  have htake : ∀ cs ds : List Char,
      (cs ++ ' ' :: ds).takeWhile isWordChar = cs.takeWhile isWordChar := by
    intro cs ds
    induction cs with
    | nil => rfl
    | cons c cs ih => simp only [List.cons_append, List.takeWhile_cons, ih]
  have htext : (p ++ " " ++ rest).toList = p.toList ++ ' ' :: rest.toList := by
    simp [String.toList_append]
  unfold ofLine?
  rw [htext]
  cases hp : p.toList with
  | nil => exact absurd (String.toList_eq_nil_iff.1 hp) hne
  | cons c cs =>
      by_cases hc : c = '?'
      · subst hc
        rfl
      · simp only [List.cons_append]
        split
        · next heq => exact absurd (List.cons.inj heq).1 hc
        · split
          · next heq => exact absurd (List.cons.inj heq).1 hc
          · rw [← List.cons_append, htake]

namespace Shell

/-- The text is submitted as it is typed: it is stripped, it is not blank, and it is not a
command. -/
structure Piece (p : String) : Prop where
  /-- There are no blanks around it. -/
  stripped : strip p = p
  /-- It is not blank. -/
  nonempty : p ≠ ""
  /-- It is not a command. -/
  line : Command.ofLine? p = none

theorem Piece.input {p : String} (h : Piece p) (sh : Shell) (fuel : Nat) :
    sh.input fuel p = sh.submit fuel p := by
  have hne := h.nonempty
  have hline := h.line
  rw [← h.stripped] at hne hline
  calc sh.input fuel p = sh.submit fuel (strip p) := input_of_line hne hline
    _ = sh.submit fuel p := by rw [h.stripped]

theorem Piece.append {p q : String} (hp : Piece p) (hq : Piece q) : Piece (p ++ " " ++ q) := by
  have hstrip : ∀ {r : String}, strip r = r ↔ stripChars r.toList = r.toList := by
    intro r
    rw [strip, ← String.toList_inj, String.toList_ofList]
  refine ⟨?_, ?_, ?_⟩
  · rw [hstrip, String.toList_append, String.toList_append, List.append_assoc]
    exact stripChars_append (hstrip.1 hp.stripped) (hstrip.1 hq.stripped)
      (mt String.toList_eq_nil_iff.1 hp.nonempty) (mt String.toList_eq_nil_iff.1 hq.nonempty) _
  · simp
  · rw [Command.ofLine?_append_space hp.nonempty]
    exact hp.line

/-- Pieces with spaces in between make up one piece. -/
theorem Piece.joined {p : String} {ps : List String} (h : ∀ q ∈ p :: ps, Piece q) :
    Piece (" ".intercalate (p :: ps)) := by
  induction ps generalizing p with
  | nil =>
      rw [String.intercalate_singleton]
      exact h p (List.mem_cons_self ..)
  | cons q ps ih =>
      rw [String.intercalate_cons_cons]
      exact (h p (List.mem_cons_self ..)).append (ih fun r hr => h r (List.mem_cons_of_mem _ hr))

/-! ## One piece after the other -/

/-- What a piece left behind is the beginning of the line. -/
theorem submit_behind (sh : Shell) (fuel : Nat) (p line : String) (k : Nat) :
    (⟨sh.session.registering (sh.pending ++ p) ↑(sh.lineNumber + 1), sh.pending ++ p ++ " ",
        .continuation, sh.lineNumber + 1 + k⟩ : Shell).submit fuel line =
      { sh with lineNumber := sh.lineNumber + (k + 1) }.submit fuel (p ++ " " ++ line) := by
  have hnumber : sh.lineNumber + 1 + k = sh.lineNumber + (k + 1) := by omega
  have hsource : sh.pending ++ p ++ " " ++ line = sh.pending ++ (p ++ " " ++ line) := by
    simp only [String.append_assoc]
  apply submit_congr hnumber hsource
  rw [Session.add_registering, hnumber, hsource]

/-- **Typing pieces** is submitting the line that they make up, with the number of the last. -/
theorem feed_eq_submit (sh : Shell) (fuel : Nat) (p : String) (ps : List String)
    (hpiece : ∀ q ∈ p :: ps, Piece q)
    (hearly : ∀ i < ps.length,
      Line.EndsEarly (sh.pending ++ " ".intercalate (p :: ps.take i))) :
    sh.feed fuel (p :: ps) =
      ({ sh with lineNumber := sh.lineNumber + ps.length }.submit fuel
        (" ".intercalate (p :: ps))).forget := by
  induction ps generalizing sh p with
  | nil =>
      rw [feed_singleton, (hpiece p (List.mem_cons_self ..)).input, String.intercalate_singleton]
      rfl
  | cons q ps ih =>
      have hfirst : Line.EndsEarly (sh.pending ++ p) := by
        simpa using hearly 0 (Nat.succ_pos _)
      have hinput := (hpiece p (List.mem_cons_self ..)).input sh fuel
      rw [submit_of_endsEarly sh hfirst] at hinput
      rw [feed_cons_of_ok hinput, ih]
      · simp only [submit_behind, Action.after, Action.forget, String.empty_append,
          String.intercalate_cons_cons, List.length_cons]
      · exact fun r hr => hpiece r (List.mem_cons_of_mem _ hr)
      · intro i hi
        have hnext := hearly (i + 1) (Nat.succ_lt_succ hi)
        simpa [String.intercalate_cons_cons, String.append_assoc] using hnext

/-! ## The number of a line -/

/-- The actions leave the same behind, except that where the first has reported line `m` of the
path, the second may have reported line `n`. -/
structure AgreesUpToNumber (path : String) (m n : Int) (a b : Action Shell Unit) : Prop where
  /-- Both are interrupted in the same way, or none is. -/
  result : a.result = b.result
  /-- The definitions are the same. -/
  environment : a.state.session.environment = b.state.session.environment
  /-- The results are the same. -/
  results : a.state.session.results = b.state.session.results
  /-- Contractions are printed in both, or in none. -/
  trace : a.state.session.trace = b.state.session.trace
  /-- The same text is pending. -/
  pending : a.state.pending = b.state.pending
  /-- The prompt is the same. -/
  prompt : a.state.prompt = b.state.prompt
  /-- What is printed is the same up to the number. -/
  printed : Reporter.SameUpToNumber path m n a.printed b.printed

/-- A line with another number. -/
theorem submit_number (sh : Shell) (fuel : Nat) (line : String) (k : Nat) :
    AgreesUpToNumber sh.session.path ↑(k + 1) ↑(sh.lineNumber + 1)
      ({ sh with lineNumber := k }.submit fuel line).forget (sh.submit fuel line).forget := by
  rcases sh.session.exists_add_eq fuel (sh.pending ++ line) with
    ⟨printed, i, hadd⟩ | ⟨printed, o, hadd⟩
  · cases hmore : wantsMore (.error i : Except Interruption Outcome) with
    | true =>
        cases i with
        | error e =>
            rw [submit_of_early (hadd ↑(k + 1)) hmore,
              submit_of_early (hadd ↑(sh.lineNumber + 1)) hmore]
            exact ⟨rfl, rfl, rfl, rfl, rfl, rfl, .refl ..⟩
        | _ => cases hmore
    | false =>
        obtain ⟨hprinted, hresult⟩ := sh.session.reporter.guard_register sh.session.path
          (sh.pending ++ line) ↑(k + 1) ↑(sh.lineNumber + 1) (.error i : Except Interruption Unit)
        rw [submit_of_interrupted (hadd ↑(k + 1)) hmore,
          submit_of_interrupted (hadd ↑(sh.lineNumber + 1)) hmore]
        -- not by `rfl`, which would compare the two reports first
        constructor <;> simp only [Action.forget, Session.registering, hresult]
        exact hprinted.append_left printed
  · rw [submit_eq (hadd ↑(k + 1)), submit_eq (hadd ↑(sh.lineNumber + 1))]
    exact ⟨rfl, rfl, rfl, rfl, rfl, rfl, .refl ..⟩

/-- **A line in several pieces.**  Let a shell be given in any state without a text that is
pending, and pieces of a line, all of which but the last are too short: the pieces up to there,
with spaces in between, end too early.  Then typing the pieces one after the other and typing
them at once, with spaces in between, leave the same definitions, results, pending text and
prompt behind, and print the same up to the number of the line in the location of an error; and
either both are interrupted, in the same way, or none is.  Before the last piece nothing is
printed, and definitions and results stay as they are. -/
theorem feed_pieces_agrees (sh : Shell) (hpending : sh.pending = "") (fuel : Nat)
    (pieces : List String) (hne : pieces ≠ []) (hpiece : ∀ p ∈ pieces, Piece p)
    (hearly : ∀ i, 0 < i → i < pieces.length →
      Line.EndsEarly (" ".intercalate (pieces.take i))) :
    AgreesUpToNumber sh.session.path ↑(sh.lineNumber + pieces.length) ↑(sh.lineNumber + 1)
      (sh.feed fuel pieces) (sh.input fuel (" ".intercalate pieces)).forget ∧
    ∀ i, 0 < i → i < pieces.length →
      (sh.feed fuel (pieces.take i)).result = .ok () ∧
      (sh.feed fuel (pieces.take i)).printed = "" ∧
      (sh.feed fuel (pieces.take i)).state.session.environment = sh.session.environment ∧
      (sh.feed fuel (pieces.take i)).state.session.results = sh.session.results := by
  obtain ⟨p, ps, rfl⟩ := List.exists_cons_of_ne_nil hne
  have hshort : ∀ i < ps.length,
      Line.EndsEarly (sh.pending ++ " ".intercalate (p :: ps.take i)) := by
    intro i hi
    simpa [hpending] using hearly (i + 1) (Nat.succ_pos i) (Nat.succ_lt_succ hi)
  constructor
  · rw [sh.feed_eq_submit fuel p ps hpiece hshort, (Piece.joined hpiece).input]
    exact sh.submit_number fuel _ _
  · rintro (_ | i) hpos hi
    · omega
    · have hi : i < ps.length := Nat.lt_of_succ_lt_succ hi
      have hfed := sh.feed_eq_submit fuel p (ps.take i)
        (fun q hq => hpiece q (List.take_subset (i + 1) (p :: ps) hq)) (by
          intro j hj
          rw [List.length_take, Nat.lt_min] at hj
          rw [List.take_take, Nat.min_eq_left (Nat.le_of_lt hj.1)]
          exact hshort j hj.2)
      have hcut := submit_of_endsEarly { sh with lineNumber := sh.lineNumber + (ps.take i).length }
        (hshort i hi) fuel
      rw [List.take_succ_cons, hfed, hcut]
      exact ⟨rfl, rfl, rfl, rfl⟩

/-- The theorem at a group that is closed once too often, in three pieces.  The error is reported
in the third line, or in the first if all is typed at once. -/
theorem feed_pieces_agrees_open_group :
    let sh := Shell.new (Session.new (Reporter.new false .plain) true .none false Session.inputPath)
    AgreesUpToNumber Session.inputPath 3 1 (sh.feed 0 ["((λx.x)", "y", ") z)"])
        (sh.input 0 "((λx.x) y ) z)").forget ∧
      (sh.feed 0 ["((λx.x)", "y"]).printed = "" := by
  intro sh
  have hpiece : ∀ p ∈ ["((λx.x)", "y", ") z)"], Piece p := by
    intro p hp
    simp only [List.mem_cons, List.not_mem_nil, or_false] at hp
    rcases hp with rfl | rfl | rfl <;> exact ⟨by rfl, by decide, by rfl⟩
  have hearly : ∀ i, 0 < i → i < ["((λx.x)", "y", ") z)"].length →
      Line.EndsEarly (" ".intercalate (["((λx.x)", "y", ") z)"].take i)) := by
    intro i hpos hi
    simp only [List.length_cons, List.length_nil] at hi
    obtain rfl | rfl : i = 1 ∨ i = 2 := by omega
    · exact ⟨_, rfl, rfl⟩
    · exact ⟨_, rfl, rfl⟩
  obtain ⟨hagrees, hbefore⟩ := feed_pieces_agrees sh rfl 0 _ (by simp) hpiece hearly
  exact ⟨hagrees, (hbefore 2 (by decide) (by decide)).2.1⟩

end Shell

end UntypedLambda
