import Mathlib.Data.List.DropRight
import Mathlib.Data.Prod.Lex
import UntypedLambda.Text.Position

/-!
# Line and column of an offset

The line number of an offset counts the line breaks in front of it, and its column the characters
behind the last of them.  So positions grow with the offset, first by line and then by column, and
no two offsets into a text have the same one.

* `splitLines_append_break` — the lines of a text, one after the other.
* `lines_induction` — induction over them.
* `locate_splitLines`, `locate_of_length_le` — line and column of an offset, and past the end.
* `lineCol_snd`, `lineCol_snd_eq_iff` — the column, and when it is the offset itself.
* `lineCol_lt_lineCol` — positions grow.
* `lineCol_exact` — all of this for a whole text.
-/

namespace UntypedLambda

theorem splitLines_ne_nil (cs : List Char) : splitLines cs ≠ [] := by
  cases cs with
  | nil => simp [splitLines]
  | cons c cs =>
      rw [splitLines]
      split
      · simp
      · split <;> simp

/-- Without a line break, there is one line. -/
theorem splitLines_of_notMem {cs : List Char} (h : '\n' ∉ cs) : splitLines cs = [cs] := by
  induction cs with
  | nil => rfl
  | cons c cs ih =>
      rw [List.mem_cons, not_or] at h
      rw [splitLines, if_neg (Ne.symm h.1), ih h.2]

/-- The first line ends at the first line break. -/
theorem splitLines_append_break {line : List Char} (h : '\n' ∉ line) (rest : List Char) :
    splitLines (line ++ '\n' :: rest) = line :: splitLines rest := by
  induction line with
  | nil => rw [List.nil_append, splitLines, if_pos rfl]
  | cons c line ih =>
      rw [List.mem_cons, not_or] at h
      rw [List.cons_append, splitLines, if_neg (Ne.symm h.1), ih h.2]

/-- The characters behind the last line break. -/
def lastLine (cs : List Char) : List Char := cs.rtakeWhile (· ≠ '\n')

theorem lastLine_of_notMem {cs : List Char} (h : '\n' ∉ cs) : lastLine cs = cs := by
  refine List.rtakeWhile_eq_self_iff.2 fun c hc => ?_
  simpa using ne_of_mem_of_not_mem hc h

theorem lastLine_append_break (cs rest : List Char) :
    lastLine (cs ++ '\n' :: rest) = lastLine rest := by
  unfold lastLine
  induction rest using List.reverseRecOn with
  | nil => simp
  | append_singleton rest c ih =>
      rw [← List.cons_append, ← List.append_assoc, List.rtakeWhile_concat,
        List.rtakeWhile_concat, ih]

theorem locate_cons_of_ne_nil {lines : List (List Char)} (h : lines ≠ []) (number : Nat)
    (offset : Int) (line : List Char) :
    locate number offset (line :: lines) =
      if offset ≤ line.length then (number, offset + 1)
      else locate (number + 1) (offset - (line.length + 1)) lines := by
  rw [locate]
  exact h

/-- Induction over the lines of a text: each line break cuts off a line. -/
@[elab_as_elim]
theorem lines_induction {motive : List Char → Prop}
    (last : ∀ line, '\n' ∉ line → motive line)
    (more : ∀ line rest, '\n' ∉ line → motive rest → motive (line ++ '\n' :: rest))
    (cs : List Char) : motive cs := by
  by_cases hmem : '\n' ∈ cs
  · obtain ⟨line, rest, hcs, hline⟩ := List.eq_append_cons_of_mem hmem
    rw [hcs]
    exact more line rest hline (lines_induction last more rest)
  · exact last cs hmem
termination_by cs.length
decreasing_by
  rw [hcs, List.length_append, List.length_cons]
  omega

/-- **Line and column**: the line breaks in front of an offset, and the characters behind the last
of them. -/
theorem locate_splitLines {cs : List Char} {offset : Nat} (h : offset ≤ cs.length) (number : Nat) :
    locate number offset (splitLines cs) =
      (number + (cs.take offset).count '\n', ((lastLine (cs.take offset)).length + 1 : Int)) := by
  induction cs using lines_induction generalizing offset number with
  | last line hline =>
      have hfree : '\n' ∉ line.take offset := fun hin => hline (List.mem_of_mem_take hin)
      rw [splitLines_of_notMem hline, locate, if_pos (by omega),
        List.count_eq_zero_of_not_mem hfree, lastLine_of_notMem hfree, List.length_take_of_le h,
        Nat.add_zero]
  | more line rest hline ih =>
      rw [List.length_append, List.length_cons] at h
      rw [splitLines_append_break hline, locate_cons_of_ne_nil (splitLines_ne_nil rest)]
      by_cases hle : offset ≤ line.length
      · have hfree : '\n' ∉ line.take offset := fun hin => hline (List.mem_of_mem_take hin)
        rw [if_pos (by omega), List.take_append_of_le_length hle,
          List.count_eq_zero_of_not_mem hfree, lastLine_of_notMem hfree,
          List.length_take_of_le hle, Nat.add_zero]
      · obtain ⟨k, rfl⟩ := Nat.exists_eq_add_of_lt (Nat.lt_of_not_le hle)
        have htake : (line ++ '\n' :: rest).take (line.length + k + 1) =
            line ++ '\n' :: rest.take k := by
          rw [Nat.add_assoc, List.take_length_add_append, List.take_succ_cons]
        have hoffset : ((line.length + k + 1 : Nat) : Int) - (line.length + 1) = k := by omega
        rw [if_neg (by omega), hoffset, ih (by omega) (number + 1), htake, lastLine_append_break,
          List.count_append, List.count_cons_self, List.count_eq_zero_of_not_mem hline,
          Nat.zero_add, Nat.add_assoc, Nat.add_comm 1]

/-- An offset past the end has the position of the end. -/
theorem locate_of_length_le {cs : List Char} {offset : Int} (h : cs.length ≤ offset)
    (number : Nat) :
    locate number offset (splitLines cs) = locate number cs.length (splitLines cs) := by
  induction cs using lines_induction generalizing offset number with
  | last line hline =>
      rw [splitLines_of_notMem hline, locate, locate, if_pos (Int.le_refl _)]
      by_cases hle : offset ≤ line.length
      · rw [if_pos hle, Int.le_antisymm hle h]
      · rw [if_neg hle]
  | more line rest hline ih =>
      rw [List.length_append, List.length_cons] at h ⊢
      have hend : ((line.length + (rest.length + 1) : Nat) : Int) - (line.length + 1) =
          rest.length := by
        omega
      rw [splitLines_append_break hline, locate_cons_of_ne_nil (splitLines_ne_nil rest),
        locate_cons_of_ne_nil (splitLines_ne_nil rest), if_neg (by omega), if_neg (by omega), hend,
        ih (by omega)]

/-- The column counts the characters behind the last line break in front of an offset. -/
theorem lineCol_snd {text : String} {offset : Nat} (h : offset ≤ text.length) :
    (lineCol text offset).2 = (lastLine (text.toList.take offset)).length + 1 := by
  rw [← String.length_toList] at h
  rw [lineCol, locate_splitLines h]

/-- The column is the offset, counted from one, exactly if there is no line break in front of
it. -/
theorem lineCol_snd_eq_iff {text : String} {offset : Nat} (h : offset ≤ text.length) :
    (lineCol text offset).2 = offset + 1 ↔ '\n' ∉ text.toList.take offset := by
  have hlength : (text.toList.take offset).length = offset := by
    rw [List.length_take, String.length_toList, Nat.min_eq_left h]
  rw [lineCol_snd h]
  constructor
  · intro heq hmem
    obtain ⟨line, rest, hsplit, -⟩ := List.eq_append_cons_of_mem hmem
    have hsuffix : (lastLine rest).length ≤ rest.length :=
      (List.rtakeWhile_suffix _ rest).length_le
    rw [hsplit, lastLine_append_break] at heq
    rw [hsplit, List.length_append, List.length_cons] at hlength
    omega
  · intro hfree
    rw [lastLine_of_notMem hfree, hlength]

/-! ## The position of every offset -/

/-- The offset just behind the last line break, or zero if there is none. -/
def lineStart (cs : List Char) : Nat := (cs.rdropWhile (· ≠ '\n')).length

/-- What comes behind the last line break begins there. -/
theorem lineStart_add_length_lastLine (cs : List Char) :
    lineStart cs + (lastLine cs).length = cs.length := by
  rw [lineStart, lastLine, ← List.length_append, List.rdropWhile_append_rtakeWhile]

/-- Without another line break, the last line goes on. -/
theorem lastLine_append_of_notMem (cs : List Char) {more : List Char} (h : '\n' ∉ more) :
    lastLine (cs ++ more) = lastLine cs ++ more := by
  unfold lastLine
  induction more using List.reverseRecOn with
  | nil => rw [List.append_nil, List.append_nil]
  | append_singleton more c ih =>
      rw [List.mem_append, List.mem_singleton, not_or] at h
      rw [← List.append_assoc, List.rtakeWhile_concat_pos _ _ _ (by simpa using Ne.symm h.2),
        ih h.1, List.append_assoc]

/-- The line counts the line breaks in front of an offset, and the column starts behind the last
of them. -/
theorem lineCol_of_le {text : String} {offset : Nat} (h : offset ≤ text.length) :
    lineCol text offset =
      (1 + (text.toList.take offset).count '\n',
        (1 + offset - lineStart (text.toList.take offset) : Int)) := by
  rw [← String.length_toList] at h
  have hstart := lineStart_add_length_lastLine (text.toList.take offset)
  rw [List.length_take_of_le h] at hstart
  rw [lineCol, locate_splitLines h, Prod.mk.injEq]
  exact ⟨rfl, by omega⟩

/-- **Positions grow** with the offset: a line break in between leads to a later line, and without
one the column is larger. -/
theorem lineCol_lt_lineCol {text : String} {i j : Nat} (hij : i < j) (hj : j ≤ text.length) :
    toLex (lineCol text i) < toLex (lineCol text j) := by
  rw [← String.length_toList] at hj
  have hsplit : text.toList.take j = text.toList.take i ++ (text.toList.drop i).take (j - i) := by
    rw [← List.take_add, Nat.add_sub_cancel' (Nat.le_of_lt hij)]
  have hlength : ((text.toList.drop i).take (j - i)).length = j - i := by
    rw [List.length_take, List.length_drop]
    omega
  rw [lineCol, lineCol, locate_splitLines hj, locate_splitLines (by omega), hsplit,
    Prod.Lex.toLex_lt_toLex, List.count_append]
  by_cases hmem : '\n' ∈ (text.toList.drop i).take (j - i)
  · have hpos := List.count_pos_iff.2 hmem
    exact .inl (by omega)
  · refine .inr ⟨?_, ?_⟩
    · rw [List.count_eq_zero_of_not_mem hmem, Nat.add_zero]
    · rw [lastLine_append_of_notMem _ hmem, List.length_append, hlength]
      omega

/-- **The position of every offset.**  Up to the end of a text, the line of an offset is one more
than the number of line breaks in front of it, and the column counts from the last of them.  So
positions grow with the offset, by line and then by column, and different offsets have different
positions; past the end, all offsets have the position of the end. -/
theorem lineCol_exact (text : String) :
    (∀ offset : Nat, offset ≤ text.length → lineCol text offset =
      (1 + (text.toList.take offset).count '\n',
        (1 + offset - lineStart (text.toList.take offset) : Int))) ∧
    (∀ i j : Nat, i < j → j ≤ text.length →
      toLex (lineCol text i) < toLex (lineCol text j)) ∧
    (∀ i j : Nat, i ≤ text.length → j ≤ text.length → lineCol text i = lineCol text j → i = j) ∧
    ∀ offset : Int, text.length < offset → lineCol text offset = lineCol text text.length := by
  refine ⟨fun offset h => lineCol_of_le h, fun i j => lineCol_lt_lineCol, ?_, ?_⟩
  · intro i j hi hj heq
    rcases Nat.lt_trichotomy i j with hij | hij | hij
    · exact absurd (congrArg toLex heq) (lineCol_lt_lineCol hij hj).ne
    · exact hij
    · exact absurd (congrArg toLex heq) (lineCol_lt_lineCol hij hi).ne'
  · intro offset h
    rw [← String.length_toList] at h ⊢
    exact locate_of_length_le (Int.le_of_lt h) 1

/-- The theorem at a text with an empty line. -/
theorem lineCol_exact_empty_line :
    let text := "ab\n\nc"
    4 ≤ text.length ∧ text.length < 9 ∧ lineCol text 3 = (2, 1) ∧
    toLex (lineCol text 2) < toLex (lineCol text 3) ∧ lineCol text 3 ≠ lineCol text 4 ∧
    lineCol text 9 = (3, 2) := by
  intro text
  have hlength : text.length = 5 := by decide
  obtain ⟨hplace, hgrow, hinj, hpast⟩ := lineCol_exact text
  rw [hlength] at hplace hgrow hinj hpast
  have hend : lineCol text 5 = (3, 2) := (hplace 5 (by decide)).trans (by decide +kernel)
  refine ⟨by decide, by decide, (hplace 3 (by decide)).trans (by decide +kernel), ?_, ?_, ?_⟩
  · exact hgrow 2 3 (by decide) (by decide)
  · intro heq
    exact absurd (hinj 3 4 (by decide) (by decide) heq) (by decide)
  · exact (hpast 9 (by decide)).trans hend

end UntypedLambda
