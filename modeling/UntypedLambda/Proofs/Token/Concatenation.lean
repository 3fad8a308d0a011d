import UntypedLambda.Proofs.Shell.Submission
import UntypedLambda.Proofs.Token.Partition

/-!
# The tokens of a text behind another

A source keeps its tokens if a text is put behind it, and the text has the tokens that it has by
itself, as far to the right as the source is long.  There is one exception: a `:` at the end of
the source and a `=` at the start of the text make up a sign of their own.  A blank in between is
enough to keep the two apart, and the shell puts one behind every line that it goes on with.

* `tokenize_append_of` — the tokens of a source and of a text behind it.
* `tokenize_append_ne` — the exception.
* `tokenize_append_blanks` — blanks in between.
* `tokenize_append_iff` — all of this, also for what the shell goes on with.
-/

namespace UntypedLambda

/-- The tokens of a source and of a text behind it, unless the two make up a `:=` where they
meet. -/
theorem tokenize_append_of {s u : String}
    (h : ¬(s.toList.getLast? = some ':' ∧ u.toList.head? = some '=')) :
    tokenize (s ++ u) = tokenize s ++ (tokenize u).map (Token.shift s.length) := by
  unfold tokenize
  rw [String.toList_append, Token.readFrom_append 0 h, Token.readFrom_add, String.length_toList]

/-- A `:=` across the place where the two meet is a token of neither. -/
theorem tokenize_append_ne {s u : String} (hs : s.toList.getLast? = some ':')
    (hu : u.toList.head? = some '=') :
    tokenize (s ++ u) ≠ tokenize s ++ (tokenize u).map (Token.shift s.length) := by
  obtain ⟨front, hfront⟩ := List.getLast?_eq_some_iff.1 hs
  obtain ⟨tail, htail⟩ := List.head?_eq_some_iff.1 hu
  have hlength : s.length = front.length + 1 := by
    rw [← String.length_toList, hfront, List.length_append, List.length_singleton]
  have hsign : (⟨.assign, ⟨front.length, front.length + 2⟩⟩ : Token) ∈ tokenize (s ++ u) := by
    refine ((Token.divides_tokenize (s ++ u)).assign_mem_iff _).2 ⟨rfl, tail, ?_⟩
    simp [String.toList_append, hfront, htail, assignChars]
  intro heq
  rw [heq, List.mem_append, List.mem_map] at hsign
  rcases hsign with hleft | ⟨t, -, hright⟩
  · -- the sign ends behind the last character of `s`
    have hwithin := ((Token.divides_tokenize s).standsIn _ hleft).2.within.2
    rw [String.length_toList, hlength] at hwithin
    simp only at hwithin
    omega
  · -- the sign starts in front of the first character of `u`
    have hstart : t.span.start + s.length = front.length :=
      congrArg (fun t : Token => t.span.start) hright
    omega

/-- Blanks have no tokens, and keep what stands in front of them apart from what stands behind
them. -/
theorem tokenize_append_blanks {gap : String} (hne : gap ≠ "")
    (hgap : ∀ c ∈ gap.toList, isBlank c = true) (s u : String) :
    tokenize (s ++ gap ++ u) =
      tokenize s ++ (tokenize u).map (Token.shift (s.length + gap.length)) := by
  have hblank : ∀ c, isBlank c = false → c ∉ gap.toList := by
    intro c hc hmem
    rw [hgap c hmem] at hc
    cases hc
  have hlast : (s ++ gap).toList.getLast? ≠ some ':' := by
    intro hcolon
    rw [String.toList_append, List.getLast?_append_of_ne_nil _ (by simpa using hne)] at hcolon
    exact hblank ':' (by decide) (List.mem_of_getLast? hcolon)
  have hhead : gap.toList.head? ≠ some '=' := by
    intro hequals
    exact hblank '=' (by decide) (List.mem_of_mem_head? hequals)
  have hnone : tokenize gap = [] := Token.readFrom_of_blanks 0 hgap
  rw [tokenize_append_of (fun h => hlast h.1), tokenize_append_of (fun h => hhead h.2), hnone,
    List.map_nil, List.append_nil, String.length_append]

theorem isBlank_of_mem_space {c : Char} (h : c ∈ " ".toList) : isBlank c = true := by
  obtain rfl : c = ' ' := List.mem_singleton.1 h
  rfl

/-- What the shell goes on with ends in a blank. -/
theorem Shell.pending_submit {sh : Shell} {fuel : Nat} {line : String}
    (h : (sh.submit fuel line).state.prompt = .continuation) :
    (sh.submit fuel line).state.pending = sh.pending ++ line ++ " " := by
  rw [submit_eq rfl] at h ⊢
  split at h
  · next hmore => rw [if_pos hmore]
  · cases h

/-- **Reading tokens distributes over concatenation** of a source and a text, unless the source
ends in `:` and the text starts with `=`; then it does not.  So it always does if there are
blanks in between, and in particular for a line that the shell goes on with and whatever is
typed next. -/
theorem tokenize_append_iff (s u : String) :
    (tokenize (s ++ u) = tokenize s ++ (tokenize u).map (Token.shift s.length) ↔
      ¬(s.toList.getLast? = some ':' ∧ u.toList.head? = some '=')) ∧
    (∀ gap : String, gap ≠ "" → (∀ c ∈ gap.toList, isBlank c = true) →
      tokenize (s ++ gap ++ u) =
        tokenize s ++ (tokenize u).map (Token.shift (s.length + gap.length))) ∧
    ∀ (sh : Shell) (fuel : Nat) (line : String),
      (sh.submit fuel line).state.prompt = .continuation →
      tokenize ((sh.submit fuel line).state.pending ++ u) =
        tokenize (sh.pending ++ line) ++
          (tokenize u).map (Token.shift (sh.submit fuel line).state.pending.length) := by
  refine ⟨⟨fun heq h => tokenize_append_ne h.1 h.2 heq, tokenize_append_of⟩,
    fun gap hne hgap => tokenize_append_blanks hne hgap s u, ?_⟩
  intro sh fuel line hmore
  rw [Shell.pending_submit hmore, tokenize_append_blanks (by simp) fun _ => isBlank_of_mem_space,
    String.length_append (sh.pending ++ line)]

/-- The theorem at `(x:` and `=y)`, which together have another sign than by themselves, unless
the shell takes the second for a continuation of the first. -/
theorem tokenize_append_iff_colon :
    let sh := Shell.new (Session.new default false .none false Session.inputPath)
    tokenize ("(x:" ++ "=y)") ≠ tokenize "(x:" ++ (tokenize "=y)").map (Token.shift 3) ∧
    tokenize ("(x:" ++ " " ++ "=y)") = tokenize "(x:" ++ (tokenize "=y)").map (Token.shift 4) ∧
    (sh.submit 0 "(x:").state.prompt = .continuation ∧
    tokenize ((sh.submit 0 "(x:").state.pending ++ "=y)") =
      tokenize "(x:" ++ (tokenize "=y)").map (Token.shift 4) := by
  intro sh
  obtain ⟨hiff, hblanks, hshell⟩ := tokenize_append_iff "(x:" "=y)"
  have hsource : sh.pending ++ "(x:" = "(x:" := by decide
  have hearly : Line.EndsEarly (sh.pending ++ "(x:") := by
    rw [hsource]
    exact ⟨_, rfl, rfl⟩
  have hsubmit := sh.submit_of_endsEarly hearly 0
  have hmore : (sh.submit 0 "(x:").state.prompt = .continuation := by rw [hsubmit]
  have hpending : (sh.submit 0 "(x:").state.pending.length = 4 := by
    rw [hsubmit, hsource]
    decide
  have htokens := hshell sh 0 "(x:" hmore
  rw [hsource, hpending] at htokens
  exact ⟨fun heq => hiff.1 heq ⟨by decide, by decide⟩,
    hblanks " " (by decide) fun _ => isBlank_of_mem_space, hmore, htokens⟩

end UntypedLambda
