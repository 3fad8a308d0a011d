import UntypedLambda.Proofs.Session.StepLimit
import UntypedLambda.Proofs.Shell.Submission

/-!
# A dialogue with the shell

Whatever is typed into a shell, between two inputs it is idle or it awaits the rest of a line,
and the prompt, the text that is pending and the line known to the reporter all agree on which
it is.  There is one thing that interrupts it: a line that overflows the stack is reported, but
the definitions are listed where nothing is, so that one of them may be nested too deeply.

* `Shell.Idle`, `Shell.Awaits` — the two phases of a shell.
* `Shell.Orderly` — what holds of a shell between two inputs.
* `Shell.ListsTooDeep` — what interrupts a shell.
* `Shell.Orderly.submit`, `Shell.Orderly.input` — every input keeps it in order.
* `Shell.Reachable` — the states that a shell can get into.
* `Shell.dialogue_orderly` — what holds in all of them.
* `Shell.listing_interrupts` — an input that interrupts a shell.
-/

namespace UntypedLambda

/-- All definitions have hygienic terms. -/
def Environment.Listed (env : Environment) : Prop := ∀ d ∈ env.values, d.term.Hygienic

theorem Environment.Listed.extend {env : Environment} (h : env.Listed) {line : Line Term}
    (hline : ∀ v, line.term? = some v → v.Hygienic) : (env.extend line).Listed := by
  cases line with
  | empty => exact h
  | expression t => exact h
  | definition name t =>
      intro d hd
      rcases Table.mem_values_put hd with rfl | hd
      · exact hline t rfl
      · exact h d hd

/-- The value of an outcome that a sound session takes over is a value, and so are its
definitions. -/
theorem Session.Sound.of_accept {s : Session} {o : Outcome} (h : (s.accept o).Sound) :
    o.environment.Sound ∧ ∀ v, o.value? = some v → v.IsValue := by
  refine ⟨h.environment, fun v hv => ?_⟩
  have hmem : o ∈ (s.accept o).results := by simp [accept, hv]
  obtain ⟨w, hw, hvalue⟩ := h.results o hmem
  rw [hv] at hw
  cases hw
  exact hvalue

namespace Shell

variable {s₀ : Session} {sh : Shell}

/-! ## What holds between two inputs -/

/-- The shell awaits a new line. -/
structure Idle (sh : Shell) : Prop where
  /-- No text is pending. -/
  pending : sh.pending = ""
  /-- The prompt shows it. -/
  prompt : sh.prompt = .primary
  /-- No line is being evaluated. -/
  lines : sh.session.reporter.lines.get? sh.session.path = some ⟨none, none⟩

/-- The shell awaits the rest of a line. -/
structure Awaits (sh : Shell) (source : String) : Prop where
  /-- The line so far is pending, with a space behind it. -/
  pending : sh.pending = source ++ " "
  /-- The prompt shows it. -/
  prompt : sh.prompt = .continuation
  /-- The line so far ends too early. -/
  early : Line.EndsEarly source
  /-- The line so far is the one being evaluated. -/
  lines : sh.session.reporter.lines.get? sh.session.path = some ⟨some source, some sh.lineNumber⟩

/-- What holds between two inputs of a shell with the settings of `s₀`. -/
structure Orderly (s₀ : Session) (sh : Shell) : Prop where
  /-- Errors do not end the shell. -/
  lenient : sh.session.reporter.fatal = false
  /-- The path of the lines stays the same. -/
  path : sh.session.path = s₀.path
  /-- Whether undefined names are errors stays the same. -/
  strict : sh.session.strict = s₀.strict
  /-- The bound stays the same. -/
  maxSteps : sh.session.maxSteps = s₀.maxSteps
  /-- Names stand for values. -/
  environment : sh.session.environment.Sound
  /-- Definitions can be printed. -/
  listed : sh.session.environment.Listed
  /-- All results have been taken out. -/
  results : sh.session.results = []
  /-- The shell is in one of its phases. -/
  phase : sh.Idle ∨ ∃ source, sh.Awaits source

theorem Orderly.sound (h : Orderly s₀ sh) : sh.session.Sound where
  environment := h.environment
  results o ho := by simp [h.results] at ho

/-- A new shell awaits a line. -/
theorem orderly_new {reporter : Reporter} (hfatal : reporter.fatal = false) (strict : Bool)
    (maxSteps : Bound) (trace : Bool) (path : String) :
    Orderly (Session.new reporter strict maxSteps trace path)
      (Shell.new (Session.new reporter strict maxSteps trace path)) where
  lenient := hfatal
  path := rfl
  strict := rfl
  maxSteps := rfl
  environment := Environment.sound_empty
  listed d hd := by cases hd
  results := rfl
  phase := .inl ⟨rfl, rfl, reporter.get?_register path none none⟩

/-! ## Lines -/

section Submit

variable {fuel : Nat} {line printed : String} {stack : Stack}

/-- A line that fails is reported, or awaits its rest. -/
theorem Orderly.submit_refused (h : Orderly s₀ sh) {e : Error}
    (hadd : sh.session.add fuel (sh.pending ++ line) ↑(sh.lineNumber + 1) stack =
      ⟨printed, sh.session.registering (sh.pending ++ line) ↑(sh.lineNumber + 1),
        .error (.error e)⟩)
    (hparse : e.atEndOfInput = true → Line.parse (sh.pending ++ line) = .error e) :
    ∃ printed' sh', sh.submit fuel line stack = ⟨printed', sh', .ok .done⟩ ∧ Orderly s₀ sh' := by
  have hknown := sh.session.reporter.get?_register sh.session.path (some (sh.pending ++ line))
    (some ↑(sh.lineNumber + 1))
  cases he : e.atEndOfInput with
  | true =>
      refine ⟨_, _, submit_of_early hadd he, ?_⟩
      exact ⟨h.lenient, h.path, h.strict, h.maxSteps, h.environment, h.listed, h.results,
        .inr ⟨_, rfl, rfl, ⟨e, hparse he, he⟩, hknown⟩⟩
  | false =>
      refine ⟨_, _, submit_of_refused hadd he h.lenient, ?_⟩
      exact ⟨h.lenient, h.path, h.strict, h.maxSteps, h.environment, h.listed, h.results,
        .inl ⟨rfl, rfl, Reporter.get?_clearAll hknown⟩⟩

/-- After a line that succeeds, the shell awaits a new one, whether its value can be printed or
not. -/
theorem Orderly.submit_accepted (h : Orderly s₀ sh) {o : Outcome}
    (hadd : sh.session.add fuel (sh.pending ++ line) ↑(sh.lineNumber + 1) stack =
      ⟨printed, sh.session.accept o, .ok o⟩)
    (hlisted : (∀ v, o.value? = some v → v.Hygienic) → o.environment.Listed) :
    ∃ printed' sh', sh.submit fuel line stack = ⟨printed', sh', .ok .done⟩ ∧ Orderly s₀ sh' := by
  have hsound := h.sound.add fuel (sh.pending ++ line) ↑(sh.lineNumber + 1) stack
  rw [hadd] at hsound
  obtain ⟨henv, hvalue⟩ := hsound.of_accept
  have hprintable : ∀ v, o.value? = some v → v.Hygienic := fun v hv => (hvalue v hv).hygienic
  have hknown := sh.session.reporter.get?_register sh.session.path none none
  cases hholds : stack.holds o.printCalls with
  | true =>
      obtain ⟨text, htext⟩ := Session.exists_lineText hprintable
      refine ⟨_, _, submit_of_accepted hadd ((Session.lineText_of_holds hholds).trans htext), ?_⟩
      exact ⟨h.lenient, h.path, h.strict, h.maxSteps, henv, hlisted hprintable, h.results,
        .inl ⟨rfl, rfl, hknown⟩⟩
  | false =>
      refine ⟨_, _, submit_of_unprintable hadd (Session.lineText_of_overflows hholds) h.lenient, ?_⟩
      exact ⟨h.lenient, h.path, h.strict, h.maxSteps, henv, hlisted hprintable, h.results,
        .inl ⟨rfl, rfl, Reporter.get?_clearAll hknown⟩⟩

/-- **Every line** is dealt with and leaves the shell in order, unless it is cut short. -/
theorem Orderly.submit (h : Orderly s₀ sh) (hb : s₀.maxSteps ≠ .blank) (fuel : Nat)
    (line : String) (stack : Stack) :
    (∃ printed sh', sh.submit fuel line stack = ⟨printed, sh', .ok .done⟩ ∧ Orderly s₀ sh') ∨
      (sh.submit fuel line stack).result = .error .unfinished ∧
        (sh.session.add fuel (sh.pending ++ line) ↑(sh.lineNumber + 1) stack).result =
          .error .unfinished := by
  cases hholds : stack.holds (sh.session.addCalls fuel (sh.pending ++ line)) with
  | false =>
      obtain ⟨j, -, hadd⟩ := Session.add_of_overflows hholds ↑(sh.lineNumber + 1)
      exact .inl (h.submit_refused hadd fun he => by cases he)
  | true =>
      rw [← h.maxSteps] at hb
      have hadd := Session.add_of_holds hholds ↑(sh.lineNumber + 1)
      have hadds := Session.adds_add h.sound hb fuel (sh.pending ++ line) ↑(sh.lineNumber + 1)
      rw [← hadd] at hadds
      clear hadd
      generalize hadd :
        sh.session.add fuel (sh.pending ++ line) ↑(sh.lineNumber + 1) stack = a at hadds
      cases hadds with
      | refused htask =>
          exact .inl (h.submit_refused hadd fun he => Environment.parse_of_task_eq_refuse htask he)
      | skipped htask ho =>
          subst ho
          exact .inl (h.submit_accepted hadd fun _ => h.listed)
      | evaluated htask hend ho =>
          subst ho
          exact .inl (h.submit_accepted hadd fun hvalue => h.listed.extend hvalue)
      | exceeded htask hend => exact .inl (h.submit_refused hadd fun he => by cases he)
      | unfinished htask hend =>
          refine .inr ⟨?_, rfl⟩
          rw [submit_of_unfinished hadd]

end Submit

/-! ## Commands -/

/-- What is typed asks for the definitions, and one of them is nested too deeply to be printed. -/
def ListsTooDeep (sh : Shell) (typed : String) (stack : Stack) : Prop :=
  Command.ofLine? (strip typed) = some .env ∧
    ∃ d ∈ sh.session.environment.values, stack.holds d.line.printCalls = false

section Commands

variable (stack : Stack)

/-- Definitions with hygienic terms are listed if there is room for each of them, and otherwise
up to the first for which there is none. -/
theorem exists_listing {ds : List Definition} (h : ∀ d ∈ ds, d.term.Hygienic) (printed : String) :
    ∃ text, listing printed ds stack =
      (text, if ∃ d ∈ ds, stack.holds d.line.printCalls = false then .error .overflow
        else .ok .done) := by
  induction ds generalizing printed with
  | nil => exact ⟨printed, rfl⟩
  | cons d ds ih =>
      cases hholds : stack.holds d.line.printCalls with
      | false =>
          refine ⟨printed, ?_⟩
          rw [if_pos ⟨d, List.mem_cons_self .., hholds⟩, listing,
            Line.renderWithin_of_overflows hholds]
      | true =>
          have hline : ∀ v, d.line.term? = some v → v.Hygienic := by
            intro v hv
            cases hv
            exact h d (List.mem_cons_self ..)
          obtain ⟨text, htext⟩ := Line.exists_render hline
          have hprint : d.line.renderWithin stack = .ok text := by
            rw [Line.renderWithin, if_pos hholds, htext]
          obtain ⟨rest, hrest⟩ :=
            ih (fun d' hd' => h d' (List.mem_cons_of_mem _ hd')) (printed ++ text ++ "\n")
          refine ⟨rest, ?_⟩
          rw [listing, hprint]
          simpa [hholds] using hrest

/-- A command leaves everything as it is but whether contractions are printed.  It succeeds
unless a definition cannot be listed. -/
theorem exists_runCommand_eq (h : sh.session.environment.Listed) (c : Command) :
    (∃ printed trace reply, sh.runCommand c stack =
        ⟨printed, { sh with session := { sh.session with trace := trace } }, .ok reply⟩) ∨
      (c = .env ∧ ∃ d ∈ sh.session.environment.values, stack.holds d.line.printCalls = false) ∧
        ∃ printed, sh.runCommand c stack = ⟨printed, sh, .error .overflow⟩ := by
  cases c with
  | env =>
      obtain ⟨text, htext⟩ := exists_listing stack h ""
      by_cases hdeep : ∃ d ∈ sh.session.environment.values, stack.holds d.line.printCalls = false
      · rw [if_pos hdeep] at htext
        exact .inr ⟨⟨rfl, hdeep⟩, text, by rw [runCommand, htext]⟩
      · rw [if_neg hdeep] at htext
        exact .inl ⟨text, sh.session.trace, .done, by rw [runCommand, htext]⟩
  | trace => exact .inl ⟨_, !sh.session.trace, .done, rfl⟩
  | help => exact .inl ⟨_, sh.session.trace, .done, rfl⟩
  | eof => exact .inl ⟨_, sh.session.trace, .stop, rfl⟩
  | exit => exact .inl ⟨_, sh.session.trace, .stop, rfl⟩

end Commands

/-- Printing contractions or not makes no difference to the order. -/
theorem Orderly.setTrace (h : Orderly s₀ sh) (trace : Bool) :
    Orderly s₀ { sh with session := { sh.session with trace := trace } } := by
  refine ⟨h.lenient, h.path, h.strict, h.maxSteps, h.environment, h.listed, h.results, ?_⟩
  rcases h.phase with hidle | ⟨source, hawaits⟩
  · exact .inl ⟨hidle.pending, hidle.prompt, hidle.lines⟩
  · exact .inr ⟨source, hawaits.pending, hawaits.prompt, hawaits.early, hawaits.lines⟩

/-! ## All that is typed -/

/-- **Every input** leaves the shell in order, unless it is a line that is cut short.  It is dealt
with, unless it asks for a definition that is nested too deeply. -/
theorem Orderly.input (h : Orderly s₀ sh) (hb : s₀.maxSteps ≠ .blank) (fuel : Nat)
    (typed : String) (stack : Stack) :
    (∃ printed sh' reply, sh.input fuel typed stack = ⟨printed, sh', .ok reply⟩ ∧
        Orderly s₀ sh') ∨
      (sh.ListsTooDeep typed stack ∧
        ∃ printed, sh.input fuel typed stack = ⟨printed, sh, .error .overflow⟩) ∨
      (sh.input fuel typed stack).result = .error .unfinished ∧
        (sh.session.add fuel (sh.pending ++ strip typed) ↑(sh.lineNumber + 1) stack).result =
          .error .unfinished := by
  rcases sh.input_cases fuel typed stack with hblank | ⟨c, hc, hcommand⟩ | hline
  · exact .inl ⟨_, _, _, hblank, h⟩
  · rw [hcommand]
    rcases exists_runCommand_eq stack h.listed c with
      ⟨printed, trace, reply, heq⟩ | ⟨⟨rfl, hdeep⟩, hprinted⟩
    · exact .inl ⟨_, _, _, heq, h.setTrace trace⟩
    · exact .inr (.inl ⟨⟨hc, hdeep⟩, hprinted⟩)
  · rw [hline]
    rcases h.submit hb fuel (strip typed) stack with ⟨printed, sh', heq, h'⟩ | hcut
    · exact .inl ⟨_, _, _, heq, h'⟩
    · exact .inr (.inr hcut)

/-- A definition that is nested too deeply interrupts the shell, which stays as it is. -/
theorem Orderly.input_of_listsTooDeep (h : Orderly s₀ sh) {typed : String} {stack : Stack}
    (hdeep : sh.ListsTooDeep typed stack) (fuel : Nat) :
    ∃ printed, sh.input fuel typed stack = ⟨printed, sh, .error .overflow⟩ := by
  obtain ⟨text, htext⟩ := exists_listing stack h.listed ""
  rw [if_pos hdeep.2] at htext
  exact ⟨text, by rw [input_of_command hdeep.1, runCommand, htext]⟩

/-- What the session makes of a line decides what the shell does. -/
theorem input_congr {fuel fuel' : Nat} {typed : String} {stack : Stack}
    (h : sh.session.add fuel (sh.pending ++ strip typed) ↑(sh.lineNumber + 1) stack =
      sh.session.add fuel' (sh.pending ++ strip typed) ↑(sh.lineNumber + 1) stack) :
    sh.input fuel typed stack = sh.input fuel' typed stack := by
  have hsubmit : sh.submit fuel (strip typed) stack = sh.submit fuel' (strip typed) stack :=
    submit_congr rfl rfl h
  simp only [input, hsubmit]

/-- An input is dealt with as soon as its line is, unless it asks for a definition that is nested
too deeply. -/
theorem Orderly.settles_input (h : Orderly s₀ sh) (hb : s₀.maxSteps ≠ .blank) {typed : String}
    {stack : Stack} {bound : Nat} {added : Action Session Outcome}
    (hadd : Action.Settles
      (fun fuel => sh.session.add fuel (sh.pending ++ strip typed) ↑(sh.lineNumber + 1) stack)
      bound added) :
    ∃ a, Action.Settles (fun fuel => sh.input fuel typed stack) bound a ∧
      ((∃ reply, a.result = .ok reply) ∨ sh.ListsTooDeep typed stack) := by
  have heq : ∀ fuel ≥ bound, sh.input fuel typed stack = sh.input bound typed stack := fun fuel hle =>
    input_congr ((hadd.eq fuel hle).trans (hadd.eq bound (Nat.le_refl _)).symm)
  rcases h.input hb bound typed stack with
    ⟨printed, sh', reply, hinput, -⟩ | ⟨hdeep, printed, hinput⟩ | ⟨-, hcut⟩
  · exact ⟨_, ⟨by simp [hinput], heq⟩, .inl ⟨reply, by rw [hinput]⟩⟩
  · exact ⟨_, ⟨by simp [hinput, Interruption.overflow], heq⟩, .inr hdeep⟩
  · rw [hadd.eq bound (Nat.le_refl _)] at hcut
    exact absurd hcut hadd.done

/-- The states that a shell in state `sh₀` can get into, by inputs that are not cut short, each
within some stack. -/
inductive Reachable (sh₀ : Shell) : Shell → Prop
  /-- Nothing has been typed yet. -/
  | refl : Reachable sh₀ sh₀
  /-- Something is typed. -/
  | input {sh : Shell} (fuel : Nat) (typed : String) (stack : Stack) : Reachable sh₀ sh →
      (sh.input fuel typed stack).result ≠ .error .unfinished →
      Reachable sh₀ (sh.input fuel typed stack).state

theorem Reachable.orderly {sh₀ : Shell} (h : Reachable sh₀ sh) (h₀ : Orderly s₀ sh₀)
    (hb : s₀.maxSteps ≠ .blank) : Orderly s₀ sh := by
  induction h with
  | refl => exact h₀
  | input fuel typed stack _ hdone ih =>
      rcases ih.input hb fuel typed stack with
        ⟨printed, sh', reply, heq, h'⟩ | ⟨-, printed, heq⟩ | ⟨hcut, -⟩
      · rw [heq]
        exact h'
      · rw [heq]
        exact ih
      · exact absurd hcut hdone

/-- **A dialogue stays in order.**  Let a shell be given over a new session with any settings,
in which errors are not fatal, and let anything have been typed into it, within any stacks.  Then
no results are left; the prompt asks for the rest of a line exactly if some text is pending, and
exactly then the reporter knows a line.  A text that is pending is a line that ends too early and a
space, and the line is the one known to the reporter, under the latest number.  Commands and blank
lines change nothing but whether contractions are printed, and they succeed, with one exception: if
the definitions are asked for and one of them is nested too deeply to be printed, the shell is
interrupted.  Nothing else that is typed interrupts the shell, except that a line may be cut short;
and if there is a bound on the contractions, or the reduction of the line has an end, it is dealt
with as soon as enough contractions are allowed. -/
theorem dialogue_orderly (reporter : Reporter) (hfatal : reporter.fatal = false) (strict : Bool)
    (limit : Option Int) (trace : Bool) (path : String) (sh : Shell)
    (h : Reachable (Shell.new (Session.new reporter strict (.ofOption limit) trace path)) sh)
    (stack : Stack) :
    sh.session.results = [] ∧
    (sh.prompt = .continuation ↔ sh.pending ≠ "") ∧
    (sh.pending ≠ "" ↔ sh.session.reporter.lines.get? path ≠ some ⟨none, none⟩) ∧
    (sh.pending ≠ "" → ∃ source, sh.pending = source ++ " " ∧ Line.EndsEarly source ∧
      sh.session.reporter.lines.get? path = some ⟨some source, some sh.lineNumber⟩) ∧
    (∀ typed, strip typed = "" ∨ (∃ c, Command.ofLine? (strip typed) = some c) →
      ∀ fuel, (sh.ListsTooDeep typed stack ∨
          ∃ reply, (sh.input fuel typed stack).result = .ok reply) ∧
        ∃ trace', (sh.input fuel typed stack).state =
          { sh with session := { sh.session with trace := trace' } }) ∧
    (∀ typed, sh.ListsTooDeep typed stack →
      ∀ fuel, (sh.input fuel typed stack).result = .error .overflow) ∧
    (∀ typed, ¬sh.ListsTooDeep typed stack →
      (∀ fuel, (∃ reply, (sh.input fuel typed stack).result = .ok reply) ∨
        (sh.input fuel typed stack).result = .error .unfinished) ∧
      ((limit ≠ none ∨ ∀ line e t, Line.parse (sh.pending ++ strip typed) = .ok line →
          line.term? = some e → sh.session.environment.resolve strict e = .ok t →
          t.nameless.leftmostLength ≠ ⊤) →
        ∃ bound a reply, Action.Settles (fun fuel => sh.input fuel typed stack) bound a ∧
          a.result = .ok reply)) := by
  have hb : (Session.new reporter strict (.ofOption limit) trace path).maxSteps ≠ .blank :=
    Bound.ofOption_ne_blank limit
  have ho := h.orderly (orderly_new hfatal strict (.ofOption limit) trace path) hb
  have hpath : sh.session.path = path := ho.path
  refine ⟨ho.results, ?_, ?_, ?_, ?_, ?_, ?_⟩
  · rcases ho.phase with hidle | ⟨source, hawaits⟩
    · simp [hidle.prompt, hidle.pending]
    · simp [hawaits.prompt, hawaits.pending]
  · rw [← hpath]
    rcases ho.phase with hidle | ⟨source, hawaits⟩
    · simp [hidle.lines, hidle.pending]
    · simp [hawaits.lines, hawaits.pending]
  · rw [← hpath]
    intro hpending
    rcases ho.phase with hidle | ⟨source, hawaits⟩
    · exact absurd hidle.pending hpending
    · exact ⟨source, hawaits.pending, hawaits.early, hawaits.lines⟩
  · rintro typed (hblank | ⟨c, hc⟩) fuel
    · rw [input_of_blank hblank]
      exact ⟨.inr ⟨.idle, rfl⟩, sh.session.trace, rfl⟩
    · rw [input_of_command hc]
      rcases exists_runCommand_eq stack ho.listed c with
        ⟨printed, trace', reply, heq⟩ | ⟨⟨rfl, hdeep⟩, printed, heq⟩
      · rw [heq]
        exact ⟨.inr ⟨reply, rfl⟩, trace', rfl⟩
      · rw [heq]
        exact ⟨.inl ⟨hc, hdeep⟩, sh.session.trace, rfl⟩
  · intro typed hdeep fuel
    obtain ⟨printed, heq⟩ := ho.input_of_listsTooDeep hdeep fuel
    rw [heq]
  · intro typed hfits
    refine ⟨fun fuel => ?_, fun hfinite => ?_⟩
    · rcases ho.input hb fuel typed stack with
        ⟨printed, sh', reply, heq, -⟩ | ⟨hdeep, -⟩ | ⟨hcut, -⟩
      · exact .inl ⟨reply, by rw [heq]⟩
      · exact absurd hdeep hfits
      · exact .inr hcut
    · have hsettles : ∃ bound added, Action.Settles
          (fun fuel => sh.session.add fuel (sh.pending ++ strip typed) ↑(sh.lineNumber + 1))
          bound added := by
        rcases hfinite with hlimit | hfinite
        · obtain ⟨n, rfl⟩ := Option.ne_none_iff_exists'.1 hlimit
          exact ⟨_, Session.settles_of_number ho.sound ho.maxSteps _ _⟩
        · refine Session.settles_of_finite ho.sound (by rw [ho.maxSteps]; exact hb) ?_ _
          intro line t htask
          obtain ⟨e, hparse, hterm, hresolve⟩ := Environment.of_task_eq_reduce htask
          rw [ho.strict] at hresolve
          exact hfinite line e t hparse hterm hresolve
      obtain ⟨bound, added, hadd⟩ := hsettles
      obtain ⟨added', hwithin⟩ := Session.settles_within hadd stack
      obtain ⟨a, ha, ⟨reply, hreply⟩ | hdeep⟩ := ho.settles_input hb hwithin
      · exact ⟨bound, a, reply, ha, hreply⟩
      · exact absurd hdeep hfits

/-- The theorem at a shell that allows five contractions, after a group that is not closed, within
a stack of twenty calls. -/
theorem dialogue_orderly_open_group :
    ∃ sh, Reachable (Shell.new (Session.new (Reporter.new false .plain) false (.ofOption (some 5))
        false Session.inputPath)) sh ∧
      sh.pending = "(λx.x " ∧ sh.prompt = .continuation ∧
      sh.session.reporter.lines.get? Session.inputPath ≠ some ⟨none, none⟩ ∧
      (∃ source, sh.pending = source ++ " " ∧ Line.EndsEarly source) ∧
      ∃ bound a reply, Action.Settles (fun fuel => sh.input fuel ") y" ⟨some 20, 0⟩) bound a ∧
        a.result = .ok reply := by
  have hearly : Line.EndsEarly ("" ++ strip " (λx.x") := ⟨_, rfl, rfl⟩
  have hinput := (input_of_line (by decide) (by rfl)).trans (submit_of_endsEarly
    (Shell.new (Session.new (Reporter.new false .plain) false (.ofOption (some 5)) false
      Session.inputPath)) hearly 0)
  obtain ⟨sh, hreach, hpending⟩ : ∃ sh, Reachable (Shell.new (Session.new
      (Reporter.new false .plain) false (.ofOption (some 5)) false Session.inputPath)) sh ∧
      sh.pending = "(λx.x " :=
    ⟨_, .input 0 " (λx.x" .unlimited .refl (by simp [hinput]),
      congrArg (fun a => a.state.pending) hinput⟩
  have hne : sh.pending ≠ "" := by simp [hpending]
  have hword : Command.ofLine? (strip ") y") = none := by rfl
  have hfits : ¬sh.ListsTooDeep ") y" ⟨some 20, 0⟩ := fun hdeep => by
    simp [ListsTooDeep, hword] at hdeep
  obtain ⟨-, hprompt, hlines, hsource, -, -, hdone⟩ :=
    dialogue_orderly (Reporter.new false .plain) rfl false (some 5) false Session.inputPath sh
      hreach ⟨some 20, 0⟩
  obtain ⟨-, hsettles⟩ := hdone ") y" hfits
  obtain ⟨source, heq, hearly, -⟩ := hsource hne
  exact ⟨sh, hreach, hpending, hprompt.2 hne, hlines.1 hne, ⟨source, heq, hearly⟩,
    hsettles (.inl (by decide))⟩

/-- Nothing interrupts a shell but the listing of its definitions, and this does: with room for
four calls, the definition `x := yyy` is evaluated.  It is reported that it is nested too deeply to
be printed, and the shell goes on.  But if the definitions are then asked for, the shell is
interrupted. -/
theorem listing_interrupts :
    let sh := Shell.new (Session.new (Reporter.new false .plain) false (.ofOption (some 5)) false
      Session.inputPath)
    let stack : Stack := ⟨some 4, 0⟩
    let defined := sh.input 6 "x := yyy" stack
    defined.result = .ok .done ∧ Reachable sh defined.state ∧
      (defined.state.input 0 "env" stack).result = .error .overflow := by
  intro sh stack defined
  let y : Expr := .var "y"
  let free : Term := .var (.free "y")
  let value : Term := .app (.app free free) free
  have htask : sh.session.environment.task sh.session.strict "x := yyy" =
      .reduce (.definition "x" (.app (.app y y) y)) value := by rfl
  have hnormal : value.IsNormal := ⟨rfl, ⟨rfl, trivial, trivial⟩, trivial⟩
  have hholds : stack.holds (sh.session.addCalls 6 "x := yyy") = true := by
    rw [Session.addCalls, evaluateCalls_of_isNormal htask hnormal]
    decide +kernel
  have hadd := (Session.add_of_holds hholds 1).trans (Session.add_of_isNormal htask hnormal 6 1)
  have hdeep : stack.holds (Outcome.ofValue "x := yyy" sh.session.environment
      (.definition "x" (.app (.app y y) y)) value).printCalls = false := by rfl
  have hinput : defined = _ := (input_of_line (by decide) (by rfl)).trans
    (submit_of_unprintable hadd (Session.lineText_of_overflows hdeep) rfl)
  have hresult : defined.result = .ok .done := congrArg Action.result hinput
  have hreach : Reachable sh defined.state :=
    .input 6 _ stack .refl fun hcut => by cases hresult.symm.trans hcut
  have ho := hreach.orderly (orderly_new rfl ..) (Bound.ofOption_ne_blank (some 5))
  have hvalues : defined.state.session.environment.values = [⟨"x", value⟩] :=
    congrArg (fun a => a.state.session.environment.values) hinput
  have hlists : defined.state.ListsTooDeep "env" stack :=
    ⟨by rfl, ⟨"x", value⟩, by simp [hvalues], by rfl⟩
  obtain ⟨printed, heq⟩ := ho.input_of_listsTooDeep hlists 0
  exact ⟨hresult, hreach, by rw [heq]⟩

end Shell

end UntypedLambda
