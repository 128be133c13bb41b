import UntypedLambda.Proofs.ShellHistory
import UntypedLambda.Proofs.TrailOrder

/-!
# Between two lines

Whatever was typed into a shell, and whatever failed on the way, the shell asks for the rest of
a line exactly if it keeps one that is not closed, and no line is left registered. An activity
that is done forgets each line and each file that it has registered itself, however deep loads
nest; after a failure all lines are forgotten.

So every line that a later report names is one that is being executed then. This needs no
assumption on the files: where a file loads itself, only the line of the inner one is registered.
-/

namespace UntypedLambda

namespace Trail

/-- What is reported at some moment names no line but these: neither where a warning arises nor
    among the lines that led to an error. -/
structure NamesOnly (trail : Trail) (lines : Script.Nesting) : Prop where
  innermost : ∀ entry ∈ trail.innermost?, entry ∈ lines
  visible : ∀ entry ∈ trail.visible, entry ∈ lines

/-- Reports name registered lines only. -/
theorem NamesOnly.of_registered {trail : Trail} {lines : Script.Nesting}
    (registered : ∀ entry ∈ trail.registered, entry ∈ lines) : trail.NamesOnly lines where
  innermost entry isInnermost :=
    registered entry (List.mem_of_getLast? (trail.innermost?_eq ▸ isInnermost))
  visible entry isVisible := registered entry (List.mem_filter.mp (trail.visible_eq ▸ isVisible)).1

end Trail

namespace Script

/-- The lines that are being executed with the paths that they are registered for. A file without
    a path of its own stands for the session. -/
def located (own : String) (nesting : Nesting) : Nesting :=
  nesting.map fun (path, line) => (if path = "" then own else path, line)

/-- At every moment only lines that are being executed are registered, if no line was registered
    when the outermost one was typed. -/
theorem Underway.registered_located {files : Files} {depth left : Nat} {start session : Session}
    {typed : TrailLine} {nesting : Nesting} {focus : Focus}
    (unregistered : start.reporter.trail.registered = [])
    (underway : Underway files depth start typed left nesting session focus) :
    session.path = start.path ∧
      ∀ entry ∈ session.reporter.trail.registered, entry ∈ located start.path nesting := by
  induction underway with
  | typed =>
    refine ⟨rfl, fun entry registered => ?_⟩
    obtain rfl | ⟨_, before⟩ := (Trail.mem_registered_set_some ..).mp registered
    · simp [located]
    · exact absurd (unregistered ▸ before) List.not_mem_nil
  | @reached left _ session _ _ earlier _ _ _ _ executed inductionHypothesis =>
    have settles := session.executeAll_settles files left earlier
    rw [executed] at settles
    exact ⟨settles.path.trans inductionHypothesis.1, fun entry registered =>
      inductionHypothesis.2 entry (settles.registered _ rfl entry registered)⟩
  | @loaded left nesting session next path source text earlier later line _ _ _ _ executed _
      inductionHypothesis =>
    have settles := Session.runLines_settles files left
      (session.withReporter (·.registerFile path)) path earlier
    rw [executed] at settles
    have samePath : next.path = start.path := settles.path.trans inductionHypothesis.1
    refine ⟨samePath, fun entry registered => ?_⟩
    rw [located, List.map_append, List.mem_append]
    obtain rfl | ⟨_, before⟩ := (Trail.mem_registered_set_some ..).mp registered
    · exact .inr (by simp [samePath])
    · have outer := (Trail.mem_registered_set_none ..).mp
        (settles.registered next rfl entry before)
      exact .inl (inductionHypothesis.2 entry outer.2)

end Script

namespace Layout

/-- Nothing is left open in an empty text. -/
theorem isContinued_empty : isContinued "" = false := by
  decide +kernel

/-- A text that is left open is not empty. -/
theorem ne_empty_of_isContinued {text : String} (continued : isContinued text = true) :
    text ≠ "" := by
  rintro rfl
  exact Bool.false_ne_true (isContinued_empty.symm.trans continued)

end Layout

namespace Shell

/-- What the shell asks with agrees with what it keeps. -/
structure Prompted (shell : Shell) : Prop where
  continued : shell.prompt = .continued ↔ shell.pending ≠ ""
  opened : shell.pending ≠ "" ↔ Layout.isContinued shell.pending = true

/-- A shell that keeps nothing asks for a new line. -/
theorem prompted_fresh (session : Session) (lineNumber : Nat) :
    Prompted ⟨session, "", lineNumber, .fresh⟩ :=
  ⟨by simp, by simp [Layout.isContinued_empty]⟩

/-- However a line that is entered ends, the prompt is up to date. -/
theorem prompted_enter (load : String → Session → Outcome) (shell : Shell) (line : String) :
    Prompted (shell.enter load line).shell := by
  unfold enter
  dsimp only
  split
  · rename_i continued
    have nonempty := Layout.ne_empty_of_isContinued continued
    exact ⟨by simp [nonempty], by simp [nonempty, continued]⟩
  · split <;> exact prompted_fresh _ _

/-- In every shell that can be reached, the prompt is up to date. -/
theorem Reachable.prompted {shell : Shell} (reachable : Reachable shell) : Prompted shell := by
  induction reachable with
  | started => exact prompted_fresh _ 0
  | @typed shell _ files depth line prompted =>
    obtain ⟨text, entered⟩ | ⟨printed, verdict, answered⟩ :=
      shell.takeLine_cases (Script.run files depth) line
    · exact entered ▸ prompted_enter _ shell text
    · rw [answered]
      exact ⟨prompted.continued, prompted.opened⟩
  | flushed _ prompted => exact ⟨prompted.continued, prompted.opened⟩

/-- After every typed line, whether or not it failed, the shell asks for the rest of a line exactly
    if it keeps a text, and exactly if that text leaves a parenthesis open. Its reporter is not
    fatal, and no file on the trail has a line. So at every moment of a later line, and also when
    that line has failed, what is reported names only lines that are being executed. -/
theorem rests_between_lines {shell : Shell} (reachable : Reachable shell) :
    (shell.prompt = .continued ↔ shell.pending ≠ "") ∧
    (shell.pending ≠ "" ↔ Layout.isContinued shell.pending = true) ∧
    shell.session.reporter.fatal = false ∧
    (∀ entry ∈ shell.session.reporter.trail.entries, entry.2 = none) ∧
    ∀ (files : Files) (depth : Nat) (line : TrailLine),
      (∀ left nesting session focus,
        Script.Underway files depth shell.session line left nesting session focus →
        session.reporter.trail.NamesOnly (Script.located shell.session.path nesting)) ∧
      ∀ final failure,
        shell.session.add (Script.run files depth) line.text line.number "" =
          .failed final failure →
        ∃ left nesting focus,
          Script.Underway files depth shell.session line left nesting final focus ∧
          Script.Refused left focus failure ∧
          final.reporter.trail.NamesOnly (Script.located shell.session.path nesting) := by
  obtain ⟨lenient, unregistered⟩ := reachable.atRest
  refine ⟨reachable.prompted.continued, reachable.prompted.opened, lenient, ?_, ?_⟩
  · rintro ⟨path, _ | line⟩ member
    · rfl
    · have registered := (Trail.mem_registered ..).mpr ((OrderedMap.mem_entries_iff ..).mp member)
      exact absurd (unregistered ▸ registered) List.not_mem_nil
  · intro files depth line
    have names {left : Nat} {nesting : Script.Nesting} {session : Session} {focus : Script.Focus}
        (underway : Script.Underway files depth shell.session line left nesting session focus) :
        session.reporter.trail.NamesOnly (Script.located shell.session.path nesting) :=
      .of_registered (underway.registered_located unregistered).2
    refine ⟨fun _ _ _ _ underway => names underway, fun final failure fails => ?_⟩
    obtain ⟨left, nesting, focus, underway, refused⟩ := Script.Underway.exists_refused line fails
    exact ⟨left, nesting, focus, underway, refused, names underway⟩

/-- A file that fails inside of another one leaves both of them on the trail, but without a line.
    The line that is typed next is not closed; and when the first file is loaded again, only lines
    that are being executed then are named. -/
theorem rests_between_lines_after_failure : ∃ shell, Reachable shell ∧
    shell.pending = "(x" ∧ shell.prompt = .continued ∧ shell.session.reporter.fatal = false ∧
    shell.session.reporter.trail.entries = [("<in>", none), ("a.lc", none), ("b.lc", none)] ∧
    ∃ nesting session statement,
      Script.Underway Script.failingInside 2 shell.session ⟨":load \"a.lc\"", some 3⟩ 0
        nesting session
        (.statement statement) ∧
      session.reporter.trail.NamesOnly (Script.located shell.session.path nesting) := by
  have new := Reachable.started true false {} rfl (by with_unfolding_all rfl)
  obtain ⟨shell, reachable, pending, entries⟩ : ∃ shell, Reachable shell ∧ shell.pending = "(x" ∧
      shell.session.reporter.trail.entries = [("<in>", none), ("a.lc", none), ("b.lc", none)] :=
    ⟨_, (new.typed Script.failingInside 2 ":load \"a.lc\"").typed Script.failingInside 2 "(x",
      by with_unfolding_all rfl, by with_unfolding_all rfl⟩
  obtain ⟨prompt, _, lenient, _, later⟩ := rests_between_lines reachable
  obtain ⟨session, underway, _⟩ := Script.underway_failingInside shell.session (some 3)
  have names := (later Script.failingInside 2 _).1 _ _ _ _ underway
  exact ⟨shell, reachable, pending, prompt.mpr (by simp [pending]), lenient, entries, _, session, _,
    underway, names⟩

end Shell

end UntypedLambda
