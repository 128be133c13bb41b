import UntypedLambda.Script

/-!
# Files that load files

A statement that loads a file has the lines of that file executed before it is done, and
these may load files in turn. At every moment there is a line of each file that is being
executed, with the typed line outermost. Such a moment is reached by what was executed
before it, all of which has succeeded; and whatever fails in the end has failed at such a
moment, in a statement that loads nothing or in a line that cannot be read.
-/

namespace UntypedLambda

namespace Outcome

/-- Going on with the next activity is that activity if the first one is done, and the
    first one's failure if it is not. -/
theorem andThen_cases (outcome : Outcome) (next : Session → Outcome) :
    (∃ session, outcome = .done session ∧ outcome.andThen next = next session) ∨
    (∃ session failure, outcome = .failed session failure ∧
      outcome.andThen next = .failed session failure) := by
  obtain ⟨session, _ | failure⟩ := outcome
  · exact .inl ⟨session, rfl, rfl⟩
  · exact .inr ⟨session, failure, rfl, rfl⟩

/-- What is done is not failed. -/
theorem done_ne_failed {session other : Session} {failure : Failure} :
    done session ≠ failed other failure := by
  simp [done, failed]

/-- What is done is followed by what is next. -/
theorem done_andThen (session : Session) (next : Session → Outcome) :
    (done session).andThen next = next session :=
  rfl

/-- Nothing follows on a failure. -/
theorem andThen_of_failed {outcome : Outcome} {final : Session} {failure : Failure}
    (fails : outcome = .failed final failure) (next : Session → Outcome) :
    outcome.andThen next = .failed final failure := by
  rw [fails]
  rfl

/-- Two activities are done if both are. -/
theorem andThen_eq_done {outcome : Outcome} {next : Session → Outcome} {final : Session}
    (done : outcome.andThen next = .done final) :
    ∃ session, outcome = .done session ∧ next session = .done final := by
  obtain ⟨session, first, both⟩ | ⟨session, failure, _, both⟩ := andThen_cases outcome next
  · exact ⟨session, first, both ▸ done⟩
  · exact absurd (done.symm.trans both) done_ne_failed

/-- Two activities fail if the first one does, or if it is done and the second one fails. -/
theorem andThen_eq_failed {outcome : Outcome} {next : Session → Outcome} {final : Session}
    {failure : Failure} (failed : outcome.andThen next = .failed final failure) :
    outcome = .failed final failure ∨
      ∃ session, outcome = .done session ∧ next session = .failed final failure := by
  obtain ⟨session, first, both⟩ | ⟨session, other, first, both⟩ := andThen_cases outcome next
  · exact .inr ⟨session, first, both ▸ failed⟩
  · exact .inl (first.trans (both.symm.trans failed))

end Outcome

namespace Session

/-- What a statement leaves as it was unless it loads a file: the path of the session,
    whether its reporter is fatal, and the lines that are being executed. -/
structure SamePlace (session next : Session) : Prop where
  path : next.path = session.path
  fatal : next.reporter.fatal = session.reporter.fatal
  trail : next.reporter.trail = session.reporter.trail

/-- Announcing a reduction registers nothing. -/
theorem announce_place (reporter : Reporter) (reduction : Reduction) (quoted : String)
    (limit : Nat) :
    (announce reporter reduction quoted limit).fatal = reporter.fatal ∧
      (announce reporter reduction quoted limit).trail = reporter.trail := by
  unfold announce
  cases Numeral.number? reduction.term <;> cases reduction.exhausted <;> exact ⟨rfl, rfl⟩

/-- A statement loads a file, or it fails with a fault and changes nothing, or it is done
    in its place. -/
theorem execute_cases (load : String → Session → Outcome) (session : Session)
    (statement : Statement) :
    (∃ path, statement.action = .load path ∧ session.execute load statement = load path session) ∨
    (∃ fault, session.execute load statement = .failed session (.fault fault)) ∨
    (∃ next, session.execute load statement = .done next ∧ SamePlace session next) := by
  obtain ⟨action, source⟩ := statement
  cases action with
  | load path => exact .inl ⟨path, rfl, rfl⟩
  | evaluate term =>
    refine .inr ?_
    simp only [execute, evaluate]
    split
    · exact .inl ⟨_, rfl⟩
    · exact .inr ⟨_, rfl, rfl, (announce_place ..).1, (announce_place ..).2⟩
  | bind name term =>
    refine .inr ?_
    simp only [execute, bind]
    split
    · exact .inl ⟨_, rfl⟩
    · split <;> exact .inr ⟨_, rfl, rfl, rfl, rfl⟩
  | limit value => cases value <;> exact .inr (.inr ⟨_, rfl, rfl, rfl, rfl⟩)
  | strategy name =>
    refine .inr ?_
    cases name with
    | none => exact .inr ⟨_, rfl, rfl, rfl, rfl⟩
    | some name =>
      simp only [execute]
      split
      · exact .inl ⟨_, rfl⟩
      · exact .inr ⟨_, rfl, rfl, rfl, rfl⟩
  | listBindings => exact .inr (.inr ⟨_, rfl, rfl, rfl, rfl⟩)
  | exit => exact .inr (.inr ⟨_, rfl, rfl, rfl, rfl⟩)

/-- A statement that loads no file fails with a fault, and it changes nothing then. -/
theorem execute_eq_failed {load : String → Session → Outcome} {session final : Session}
    {statement : Statement} {failure : Failure} (plain : ∀ path, statement.action ≠ .load path)
    (fails : session.execute load statement = .failed final failure) :
    final = session ∧ ∃ fault, failure = .fault fault := by
  obtain ⟨path, loads, _⟩ | ⟨fault, executes⟩ | ⟨next, executes, _⟩ :=
    execute_cases load session statement
  · exact absurd loads (plain path)
  · cases executes.symm.trans fails
    exact ⟨rfl, fault, rfl⟩
  · exact absurd (executes.symm.trans fails) Outcome.done_ne_failed

/-- Statements are executed after those before them. -/
theorem executeAll_append (load : String → Session → Outcome) (session : Session)
    (earlier later : List Statement) :
    session.executeAll load (earlier ++ later) =
      (session.executeAll load earlier).andThen fun next => next.executeAll load later := by
  induction earlier generalizing session with
  | nil => rfl
  | cons statement earlier inductionHypothesis =>
    rw [List.cons_append, executeAll, executeAll]
    obtain ⟨next, executed, both⟩ | ⟨final, failure, executed, both⟩ :=
      (session.execute load statement).andThen_cases fun next => next.executeAll load earlier
    · rw [both, executed]
      exact inductionHypothesis next
    · rw [both, executed]
      rfl

/-- Statements that fail do so at one of them, after those before it are done. -/
theorem executeAll_eq_failed {load : String → Session → Outcome} {session final : Session}
    {statements : List Statement} {failure : Failure}
    (fails : session.executeAll load statements = .failed final failure) :
    ∃ earlier statement later next, statements = earlier ++ statement :: later ∧
      session.executeAll load earlier = .done next ∧
      next.execute load statement = .failed final failure := by
  induction statements generalizing session with
  | nil => exact absurd fails Outcome.done_ne_failed
  | cons statement statements inductionHypothesis =>
    obtain fails | ⟨next, first, fails⟩ := Outcome.andThen_eq_failed fails
    · exact ⟨[], statement, statements, session, rfl, rfl, fails⟩
    · obtain ⟨earlier, failing, later, last, split, done, fails⟩ := inductionHypothesis fails
      refine ⟨statement :: earlier, failing, later,
        last, by rw [split, List.cons_append], ?_, fails⟩
      rw [executeAll, first]
      exact done

/-- A session in which a line of a file is registered. A file without a path of its own
    stands for the session. -/
def enter (session : Session) (path : String) (line : TrailLine) : Session :=
  session.withReporter (·.registerLine (if path = "" then session.path else path) line)

/-- A line that cannot be read is registered, and nothing else happens. -/
theorem add_of_malformed {line : String} {error : SyntaxError}
    (parsed : Statement.parse line = .error error)
    (load : String → Session → Outcome) (session : Session) (number : Option Int) (path : String) :
    session.add load line number path =
      .failed (session.enter path ⟨line, number⟩) (.fault (.malformed error)) := by
  rw [add, parsed]
  rfl

/-- The statements of a line that can be read are executed while the line is registered. -/
theorem add_of_parsed {line : String} {statements : List Statement}
    (parsed : Statement.parse line = .ok statements) (load : String → Session → Outcome)
    (session : Session) (number : Option Int) (path : String) :
    session.add load line number path =
      ((session.enter path ⟨line, number⟩).executeAll load statements).andThen fun next =>
        .done (next.withReporter (·.forgetLine (if path = "" then session.path else path))) := by
  rw [add, parsed]
  rfl

/-- A line that fails cannot be read, or its statements fail. In both cases it stays
    registered. -/
theorem add_eq_failed {load : String → Session → Outcome} {session final : Session}
    {line path : String}
    {number : Option Int} {failure : Failure}
    (fails : session.add load line number path = .failed final failure) :
    (∃ error, Statement.parse line = .error error ∧ final = session.enter path ⟨line, number⟩ ∧
      failure = .fault (.malformed error)) ∨
    (∃ statements, Statement.parse line = .ok statements ∧
      (session.enter path ⟨line, number⟩).executeAll load statements = .failed final failure) := by
  cases parsed : Statement.parse line with
  | error error =>
    rw [add_of_malformed parsed] at fails
    cases fails
    exact .inl ⟨error, rfl, rfl, rfl⟩
  | ok statements =>
    rw [add_of_parsed parsed] at fails
    obtain fails | ⟨next, _, fails⟩ := Outcome.andThen_eq_failed fails
    · exact .inr ⟨statements, rfl, fails⟩
    · exact absurd fails Outcome.done_ne_failed

/-- A line that is done has been read, its statements are done, and it is not registered
    any more. -/
theorem add_eq_done {load : String → Session → Outcome} {session final : Session}
    {line path : String}
    {number : Option Int} (done : session.add load line number path = .done final) :
    ∃ statements next, Statement.parse line = .ok statements ∧
      (session.enter path ⟨line, number⟩).executeAll load statements = .done next ∧
      final = next.withReporter (·.forgetLine (if path = "" then session.path else path)) := by
  cases parsed : Statement.parse line with
  | error error =>
    rw [add_of_malformed parsed] at done
    exact absurd done.symm Outcome.done_ne_failed
  | ok statements =>
    rw [add_of_parsed parsed] at done
    obtain ⟨next, first, done⟩ := Outcome.andThen_eq_done done
    cases done
    exact ⟨statements, next, rfl, first, rfl⟩

end Session

namespace Script

/-- Lines of a file that fail do so at one of them, after those before it are done without
    leaving the session. -/
theorem runLines_eq_failed {load : String → Session → Outcome} {path : String}
    {session final : Session}
    {lines : List LogicalLine} {failure : Failure}
    (fails : runLines load path session lines = .failed final failure) :
    ∃ earlier line later next, lines = earlier ++ line :: later ∧
      runLines load path session earlier = .done next ∧ (earlier = [] ∨ next.exited = false) ∧
      next.add load line.text (some line.number) path = .failed final failure := by
  induction lines generalizing session with
  | nil => exact absurd fails Outcome.done_ne_failed
  | cons line lines inductionHypothesis =>
    obtain fails | ⟨next, first, fails⟩ := Outcome.andThen_eq_failed fails
    · exact ⟨[], line, lines, session, rfl, rfl, .inl rfl, fails⟩
    · cases exited : next.exited with
      | true =>
        rw [exited, if_pos rfl] at fails
        exact absurd fails Outcome.done_ne_failed
      | false =>
        rw [exited, if_neg Bool.false_ne_true] at fails
        obtain ⟨earlier, failing, later, last, split, done, stays, fails⟩ :=
          inductionHypothesis fails
        refine ⟨line :: earlier, failing, later, last, by rw [split, List.cons_append], ?_,
          .inr ?_, fails⟩
        · rw [runLines, first]
          exact (if_neg (Bool.eq_false_iff.mp exited)).trans done
        · obtain rfl | stays := stays
          · cases done
            exact exited
          · exact stays

/-- Lines of a file are executed after those before them, unless one of these leaves the
    session. -/
theorem runLines_append {load : String → Session → Outcome} {path : String} {session next : Session}
    {earlier : List LogicalLine} (executed : runLines load path session earlier = .done next)
    (stays : earlier = [] ∨ next.exited = false) (later : List LogicalLine) :
    runLines load path session (earlier ++ later) = runLines load path next later := by
  induction earlier generalizing session with
  | nil =>
    cases executed
    rfl
  | cons line earlier inductionHypothesis =>
    obtain ⟨middle, added, executed⟩ := Outcome.andThen_eq_done executed
    replace stays := stays.resolve_left (List.cons_ne_nil _ _)
    rw [List.cons_append, runLines, added]
    cases exited : middle.exited with
    | true =>
      rw [exited, if_pos rfl] at executed
      cases executed
      exact absurd exited (Bool.eq_false_iff.mp stays)
    | false =>
      rw [exited, if_neg Bool.false_ne_true] at executed
      exact (if_neg (Bool.eq_false_iff.mp exited)).trans (inductionHypothesis executed (.inr stays))

/-- A file that is done can be read, its lines are done, and it is not on the trail any more. -/
theorem run_eq_done {files : Files} {depth : Nat} {path : String} {session final : Session}
    (done : run files depth path session = .done final) :
    ∃ left text next, depth = left + 1 ∧ '\x00' ∉ path.toList ∧ files path = some text ∧
      runLines (run files left) path (session.withReporter (·.registerFile path))
        (logicalLines text) =
        .done next ∧
      final = next.withReporter (·.forgetFile path) := by
  cases depth with
  | zero => exact absurd done.symm Outcome.done_ne_failed
  | succ left =>
    unfold run runWith at done
    split at done
    · exact absurd done.symm Outcome.done_ne_failed
    rename_i plain
    split at done
    · exact absurd done.symm Outcome.done_ne_failed
    rename_i text found
    obtain ⟨next, executed, forgets⟩ := Outcome.andThen_eq_done done
    cases forgets
    exact ⟨left, text, next, rfl, plain, found, executed, rfl⟩

/-- A file whose lines have been executed is on the trail when it is taken off. -/
theorem contains_of_runLines {load : String → Session → Outcome} {path : String} (named : path ≠ "")
    {session next : Session} {lines : List LogicalLine}
    (present : path ∈ session.reporter.trail.keys)
    (done : runLines load path session lines = .done next) : path ∈ next.reporter.trail.keys := by
  induction lines generalizing session with
  | nil =>
    cases done
    exact present
  | cons line lines inductionHypothesis =>
    obtain ⟨last, added, rest⟩ := Outcome.andThen_eq_done done
    obtain ⟨statements, executed, _, _, rfl⟩ := Session.add_eq_done added
    rw [if_neg named] at rest
    have kept : path ∈ (executed.reporter.trail.set path none).keys :=
      (OrderedMap.mem_keys_setEntry ..).mpr (.inl rfl)
    split at rest
    · cases rest
      exact kept
    · exact inductionHypothesis kept rest

/-- A text asks for a file if one of its statements loads it. -/
def Asks (text path : String) : Prop :=
  ∃ statements, Statement.parse text = .ok statements ∧
    ∃ statement ∈ statements, statement.action = .load path

/-- A file loads another one if one of its logical lines asks for it. -/
def Loads (files : Files) (outer inner : String) : Prop :=
  ∃ text, files outer = some text ∧ ∃ line ∈ logicalLines text, Asks line.text inner

/-- The files that a text may load, with the number of files around them. -/
inductive Reaches (files : Files) (text : String) : Nat → String → Prop where
  | asked {path : String} (asks : Asks text path) : Reaches files text 0 path
  | loaded {count : Nat} {outer inner : String} (reaches : Reaches files text count outer)
      (loads : Loads files outer inner) : Reaches files text (count + 1) inner

/-- What is being dealt with: a line that is about to be read, or a statement that is about
    to be executed. -/
inductive Focus where
  | line (text : String)
  | statement (statement : Statement)

/-- What is being dealt with may load a file. -/
def Focus.Asks : Focus → String → Prop
  | .line text, path => Script.Asks text path
  | .statement asked, path => asked.action = .load path

/-- What comes of what is being dealt with. -/
def Focus.outcome (load : String → Session → Outcome) (session : Session) : Focus → Outcome
  | .line text =>
    match Statement.parse text with
    | .error error => .failed session (.fault (.malformed error))
    | .ok statements => session.executeAll load statements
  | .statement next => session.execute load next

/-- The lines that are being executed, the outermost one first, each with its file. -/
abbrev Nesting := List (String × TrailLine)

/-- The moments of executing a typed line. At each of them there are lines that are being
    executed, a session, and what is being dealt with; `left` says how deep loads may still
    nest. -/
inductive Underway (files : Files) (depth : Nat) (start : Session) (typed : TrailLine) :
    (left : Nat) → Nesting → Session → Focus → Prop where
  | typed : Underway files depth start typed depth [(start.path, typed)] (start.enter "" typed)
      (.line typed.text)
  | reached {left : Nat} {nesting : Nesting} {session next : Session} {text : String}
      {earlier later : List Statement} {statement : Statement}
      (underway : Underway files depth start typed left nesting session (.line text))
      (parsed : Statement.parse text = .ok (earlier ++ statement :: later))
      (executed : session.executeAll (run files left) earlier = .done next) :
      Underway files depth start typed left nesting next (.statement statement)
  | loaded {left : Nat} {nesting : Nesting} {session next : Session} {path source text : String}
      {earlier later : List LogicalLine} {line : LogicalLine}
      (underway : Underway files depth start typed (left + 1) nesting session
        (.statement ⟨.load path, source⟩))
      (pathIsPlain : '\x00' ∉ path.toList) (found : files path = some text)
      (grouped : logicalLines text = earlier ++ line :: later)
      (executed : runLines (run files left) path
        (session.withReporter (·.registerFile path)) earlier =
        .done next)
      (stays : earlier = [] ∨ next.exited = false) :
      Underway files depth start typed left (nesting ++ [(path, ⟨line.text, some line.number⟩)])
        (next.enter path ⟨line.text, some line.number⟩) (.line line.text)

/-- Why what is being dealt with fails there and then. -/
inductive Refused : (left : Nat) → Focus → Failure → Prop where
  | malformed {left : Nat} {text : String} {error : SyntaxError}
      (parsed : Statement.parse text = .error error) :
      Refused left (.line text) (.fault (.malformed error))
  | fault {left : Nat} (statement : Statement) (fault : Fault) :
      Refused left (.statement statement) (.fault fault)
  | nullInPath {left : Nat} {path source : String} (null : '\x00' ∈ path.toList) :
      Refused left (.statement ⟨.load path, source⟩) .nullInPath
  | tooDeep {path source : String} : Refused 0 (.statement ⟨.load path, source⟩) .tooDeep

namespace Underway

variable {files : Files} {depth : Nat} {start : Session} {typed : TrailLine}

/-- What is being dealt with loads only files that the typed line reaches, with as many
    files around them as there are lines around this one. -/
theorem reaches {left : Nat} {nesting : Nesting} {session : Session} {focus : Focus}
    (underway : Underway files depth start typed left nesting session focus) :
    ∃ count, nesting.length = count + 1 ∧ count + left = depth ∧
      ∀ path, focus.Asks path → Reaches files typed.text count path := by
  induction underway with
  | typed => exact ⟨0, rfl, Nat.zero_add depth, fun path asks => .asked asks⟩
  | reached _ parsed _ inductionHypothesis =>
    obtain ⟨count, length, total, reaches⟩ := inductionHypothesis
    refine ⟨count, length, total, fun path asks => reaches path ⟨_, parsed, _, ?_, asks⟩⟩
    exact List.mem_append_right _ List.mem_cons_self
  | loaded _ _ found grouped _ _ inductionHypothesis =>
    obtain ⟨count, length, total, reaches⟩ := inductionHypothesis
    refine ⟨count + 1, by rw [List.length_append, length]; rfl, by omega, fun path asks => ?_⟩
    refine .loaded (reaches _ rfl) ⟨_, found, _, ?_, asks⟩
    exact grouped ▸ List.mem_append_right _ List.mem_cons_self

/-- A line fails if what is being dealt with fails once it is registered. -/
theorem add_of_outcome {load : String → Session → Outcome} {session final : Session}
    (line : TrailLine) {path : String} {failure : Failure}
    (fails : Focus.outcome load (session.enter path line) (.line line.text) =
      .failed final failure) :
    session.add load line.text line.number path = .failed final failure := by
  unfold Focus.outcome at fails
  unfold Session.add
  cases parsed : Statement.parse line.text with
  | error error =>
    simp only [parsed] at fails ⊢
    exact fails
  | ok statements =>
    simp only [parsed] at fails ⊢
    exact Outcome.andThen_of_failed fails _

/-- Moments are real: whatever fails at one of them fails the typed line. -/
theorem add_eq_failed {left : Nat} {nesting : Nesting} {session final : Session} {focus : Focus}
    {failure : Failure} (underway : Underway files depth start typed left nesting session focus)
    (fails : focus.outcome (run files left) session = .failed final failure) :
    start.add (run files depth) typed.text typed.number "" = .failed final failure := by
  induction underway with
  | typed => exact add_of_outcome typed fails
  | reached _ parsed executed inductionHypothesis =>
    refine inductionHypothesis ?_
    simp only [Focus.outcome, parsed, Session.executeAll_append, executed, Outcome.done_andThen,
      Session.executeAll]
    exact Outcome.andThen_of_failed fails _
  | @loaded left _ session next path _ _ earlier later line _ plain found grouped executed stays
      inductionHypothesis =>
    refine inductionHypothesis ?_
    have added := add_of_outcome ⟨line.text, some line.number⟩ fails
    have lines : runLines (run files left) path (session.withReporter (·.registerFile path))
        (earlier ++ line :: later) = .failed final failure := by
      rw [runLines_append executed stays, runLines]
      exact Outcome.andThen_of_failed added _
    simp only [Focus.outcome, Session.execute, run, runWith, if_neg plain, found, grouped]
    exact Outcome.andThen_of_failed lines _

/-- Running a file fails at once, or in one of its lines. -/
theorem run_eq_failed {left : Nat} {path : String} {session final : Session} {failure : Failure}
    (fails : run files left path session = .failed final failure) :
    (final = session ∧ ((∃ fault, failure = .fault fault) ∨
      '\x00' ∈ path.toList ∧ failure = .nullInPath ∨ left = 0 ∧ failure = .tooDeep)) ∨
    ∃ before text, left = before + 1 ∧ '\x00' ∉ path.toList ∧ files path = some text ∧
      runLines (run files before) path (session.withReporter (·.registerFile path))
        (logicalLines text) = .failed final failure := by
  cases left with
  | zero =>
    cases fails
    exact .inl ⟨rfl, .inr (.inr ⟨rfl, rfl⟩)⟩
  | succ before =>
    unfold run runWith at fails
    split at fails
    · rename_i null
      cases fails
      exact .inl ⟨rfl, .inr (.inl ⟨null, rfl⟩)⟩
    · rename_i plain
      split at fails
      · cases fails
        exact .inl ⟨rfl, .inl ⟨_, rfl⟩⟩
      · rename_i text found
        obtain fails | ⟨next, _, fails⟩ := Outcome.andThen_eq_failed fails
        · exact .inr ⟨before, text, rfl, plain, found, fails⟩
        · exact absurd fails Outcome.done_ne_failed

/-- A line that fails ends at a moment of its execution, if that is known of the statements
    that it consists of. -/
theorem exists_refused_of_line {left : Nat} {nesting : Nesting} {session final : Session}
    {line : TrailLine} {path : String} {failure : Failure}
    (underway : Underway files depth start typed left nesting (session.enter path line)
      (.line line.text))
    (ofStatement : ∀ {nesting session statement},
      Underway files depth start typed left nesting session (.statement statement) →
      session.execute (run files left) statement = .failed final failure →
      ∃ left nesting focus, Underway files depth start typed left nesting final focus ∧
        Refused left focus failure)
    (fails : session.add (run files left) line.text line.number path = .failed final failure) :
    ∃ left nesting focus, Underway files depth start typed left nesting final focus ∧
      Refused left focus failure := by
  obtain ⟨error, parsed, rfl, rfl⟩ | ⟨statements, parsed, fails⟩ := Session.add_eq_failed fails
  · exact ⟨left, nesting, _, underway, .malformed parsed⟩
  · obtain ⟨earlier, statement, later, next, split, executed, fails⟩ :=
      Session.executeAll_eq_failed fails
    exact ofStatement (underway.reached (split ▸ parsed) executed) fails

/-- A statement that fails ends at a moment that is underway, and it fails for what is
    being dealt with there. -/
theorem exists_refused_of_statement {left : Nat} {nesting : Nesting} {session final : Session}
    {statement : Statement} {failure : Failure}
    (underway : Underway files depth start typed left nesting session (.statement statement))
    (fails : session.execute (run files left) statement = .failed final failure) :
    ∃ left nesting focus, Underway files depth start typed left nesting final focus ∧
      Refused left focus failure := by
  induction left using Nat.strongRecOn generalizing nesting session statement with
  | ind left inductionHypothesis =>
    obtain ⟨path, asks, executes⟩ | ⟨fault, executes⟩ | ⟨next, executes, _⟩ :=
      Session.execute_cases (run files left) session statement
    · obtain ⟨action, source⟩ := statement
      obtain rfl : action = .load path := asks
      obtain ⟨rfl, reason⟩ | ⟨before, text, rfl, plain, found, fails⟩ :=
        run_eq_failed (executes.symm.trans fails)
      · refine ⟨left, nesting, _, underway, ?_⟩
        obtain ⟨fault, rfl⟩ | ⟨null, rfl⟩ | ⟨rfl, rfl⟩ := reason
        · exact .fault _ fault
        · exact .nullInPath null
        · exact .tooDeep
      · obtain ⟨earlier, line, later, next, grouped, executed, stays, fails⟩ :=
          runLines_eq_failed fails
        exact exists_refused_of_line (underway.loaded plain found grouped executed stays)
          (fun inner => inductionHypothesis before (Nat.lt_succ_self before) inner) fails
    · cases executes.symm.trans fails
      exact ⟨left, nesting, _, underway, .fault statement fault⟩
    · exact absurd (executes.symm.trans fails) Outcome.done_ne_failed

/-- A typed line that fails ends at a moment of its execution, and it fails for what is being
    dealt with there. -/
theorem exists_refused (line : TrailLine) {session final : Session} {failure : Failure}
    (fails : session.add (run files depth) line.text line.number "" = .failed final failure) :
    ∃ left nesting focus, Underway files depth session line left nesting final focus ∧
      Refused left focus failure :=
  exists_refused_of_line .typed exists_refused_of_statement fails

end Underway

end Script

end UntypedLambda
