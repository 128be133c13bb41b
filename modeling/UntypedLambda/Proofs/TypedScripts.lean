import UntypedLambda.Proofs.FileLines
import UntypedLambda.Proofs.InlinedFiles
import UntypedLambda.Shell

/-!
# Typing the lines of a script

The lines of a script may be typed one by one instead. The shell waits for the rest of a
line where the script goes on with the group that it has begun, and it executes a line where
the group is closed; it stops after the line that leaves the session. So a script that does
not fail and the shell into which its lines are typed go on in step: the shell has performed
the same reductions, although it drops the results of every line, and its session is left
with the same bindings and settings.

The last group of such a script is closed, as a line that leaves a parenthesis open cannot be
read. So nothing is left pending in the shell.
-/

namespace UntypedLambda

namespace Shell

/-- Enter lines one by one, until the shell is to stop or something escapes. -/
def enterAll (load : String → Session → Outcome) (shell : Shell) : List String → Answer
  | [] => ⟨shell, .ok (some false)⟩
  | line :: lines =>
    let answer := shell.enter load line
    match answer.verdict with
    | .ok (some true) => answer
    | .ok _ => answer.shell.enterAll load lines
    | .error _ => answer

/-- The reductions that are performed when a line is entered: the results that it adds to those
    of the session, before they are dropped. -/
def performed (load : String → Session → Outcome) (shell : Shell)
    (line : String) : List Reduction :=
  let text := Layout.joined shell.pending line
  if Layout.isContinued text then []
  else
    (shell.session.add load text (some (shell.lineNumber + 1 : Nat)) "").session.results.drop
      shell.session.results.length

/-- The reductions that are performed when lines are entered one by one. -/
def performedAll (load : String → Session → Outcome) (shell : Shell) : List String → List Reduction
  | [] => []
  | line :: lines =>
    let answer := shell.enter load line
    shell.performed load line ++
      match answer.verdict with
      | .ok (some true) => []
      | .ok _ => answer.shell.performedAll load lines
      | .error _ => []

/-- A line that is not closed is kept, and nothing is performed. -/
theorem enter_of_continued (load : String → Session → Outcome) (shell : Shell) {line : String}
    (continued : Layout.isContinued (Layout.joined shell.pending line) = true) :
    shell.enter load line =
        ⟨⟨shell.session, Layout.joined shell.pending line, shell.lineNumber + 1, .continued⟩,
          .ok (some shell.session.exited)⟩ ∧
      shell.performed load line = [] := by
  constructor
  · rw [enter, if_pos continued]
  · rw [performed, if_pos continued]

/-- A line that is closed and done leaves nothing pending. -/
theorem enter_of_done {load : String → Session → Outcome} {shell : Shell} {line : String}
    {next : Session}
    (closed : Layout.isContinued (Layout.joined shell.pending line) = false)
    (done : shell.session.add load (Layout.joined shell.pending line)
      (some (shell.lineNumber + 1 : Nat)) "" = .done next) :
    shell.enter load line = ⟨⟨dropResults next, "", shell.lineNumber + 1, .fresh⟩,
      .ok (some next.exited)⟩ ∧
      shell.performed load line = next.results.drop shell.session.results.length := by
  have notContinued := Bool.eq_false_iff.mp closed
  constructor
  · rw [enter, if_neg notContinued, done]
    rfl
  · rw [performed, if_neg notContinued, done]
    rfl

/-- After a line that does not stop the shell, the other lines are entered. -/
theorem enterAll_of_goesOn {load : String → Session → Outcome} {shell next : Shell} {line : String}
    (goesOn : shell.enter load line = ⟨next, .ok (some false)⟩) (lines : List String) :
    shell.enterAll load (line :: lines) = next.enterAll load lines ∧
      shell.performedAll load (line :: lines) =
        shell.performed load line ++ next.performedAll load lines := by
  constructor
  · rw [enterAll, goesOn]
  · rw [performedAll, goesOn]

/-- After a line that stops the shell, no other lines are entered. -/
theorem enterAll_of_stops {load : String → Session → Outcome} {shell next : Shell} {line : String}
    (stops : shell.enter load line = ⟨next, .ok (some true)⟩) (lines : List String) :
    shell.enterAll load (line :: lines) = ⟨next, .ok (some true)⟩ ∧
      shell.performedAll load (line :: lines) = shell.performed load line := by
  constructor
  · rw [enterAll, stops]
  · rw [performedAll, stops, List.append_nil]

/-- A session of a script and a shell that go on in step. The shell waits for the rest of the
    group that the script has begun, if it has begun one, and it has no results left. -/
structure InStep (session : Session) (opened : Option LogicalLine) (shell : Shell) : Prop where
  environment : shell.session.environment = session.environment
  limit : shell.session.limit = session.limit
  strategy : shell.session.strategy = session.strategy
  exited : shell.session.exited = session.exited
  taken : shell.session.results = []
  pending : shell.pending = opened.elim "" LogicalLine.text
  continued : ∀ group ∈ opened, Layout.isContinued group.text = true

/-- The sessions of a script and of a shell that are in step agree. -/
theorem InStep.agrees {session : Session} {opened : Option LogicalLine} {shell : Shell}
    (inStep : InStep session opened shell) : session.Agrees session.results [] shell.session :=
  ⟨inStep.environment, inStep.limit, inStep.strategy, inStep.exited, [], by simp, inStep.taken⟩

/-- A line that is done leaves no parenthesis open. -/
theorem isContinued_of_done {load : String → Session → Outcome} {session final : Session}
    {line path : String}
    {number : Option Int} (done : session.add load line number path = .done final) :
    Layout.isContinued line = false := by
  obtain ⟨statements, _, parsed, _⟩ := Session.add_eq_done done
  exact Layout.isContinued_of_line
    ((Statement.parse_iff_derives line _).mp ⟨statements, parsed, rfl⟩)

/-- A line that leaves a parenthesis open begins or goes on with a group in both. -/
theorem InStep.opens {session : Session} {opened : Option LogicalLine} {shell : Shell}
    {line : String}
    (inStep : InStep session opened shell) (number : Nat)
    (continued : Layout.isContinued (Layout.joined shell.pending line) = true) :
    InStep session (some ⟨Layout.joined shell.pending line, number⟩)
      ⟨shell.session, Layout.joined shell.pending line, shell.lineNumber + 1, .continued⟩ := by
  refine ⟨inStep.environment, inStep.limit, inStep.strategy, inStep.exited, inStep.taken, rfl, ?_⟩
  rintro group ⟨rfl⟩
  exact continued

/-- A line that closes a group is executed in both. What the script adds to its results, the
    shell has performed before it drops its own. -/
theorem InStep.closes {files : Files} {left depth : Nat} (deep : left ≤ depth) {path line : String}
    {session middle : Session} {opened : Option LogicalLine} {shell : Shell} {number : Option Int}
    (inStep : InStep session opened shell) (stays : session.exited = false)
    (closed : Layout.isContinued (Layout.joined shell.pending line) = false)
    (added : session.add (Script.run files left) (Layout.joined shell.pending line) number path =
      .done middle) :
    ∃ next, shell.enter (Script.run files depth) line = ⟨next, .ok (some middle.exited)⟩ ∧
      InStep middle none next ∧
      middle.results = session.results ++ shell.performed (Script.run files depth) line := by
  have loads : Session.LoadsAgree session.results [] (Script.run files left)
      (Script.run files depth) :=
    Script.run_agrees (fun _ => .inl rfl) deep
  have agrees := inStep.agrees.add stays loads (Layout.joined shell.pending line) number
    (some (shell.lineNumber + 1 : Nat)) path ""
  rw [added] at agrees
  obtain ⟨typed, isTyped, sessions⟩ := agrees.exists_done
  obtain ⟨entered, performs⟩ := enter_of_done closed isTyped
  obtain ⟨since, isSince, isTypedSince⟩ := sessions.results
  have added : shell.performed (Script.run files depth) line = since := by
    rw [performs, inStep.taken, isTypedSince, List.nil_append, List.length_nil, List.drop_zero]
  refine ⟨_, sessions.exited ▸ entered, ⟨sessions.environment, sessions.limit, sessions.strategy,
    sessions.exited, rfl, rfl, by simp⟩, ?_⟩
  rw [added, isSince]

/-- A script that does not fail and the shell into which its lines are entered stay in step to the
    end. The group that is open at the end of a file is executed all the same, but it cannot be
    read, so there is none. -/
theorem enterAll_in_step {files : Files} {left depth : Nat} (deep : left ≤ depth) (path : String)
    {session final : Session} {opened : Option LogicalLine} {shell : Shell}
    (inStep : InStep session opened shell) (stays : session.exited = false) (number : Nat)
    (lines : List String)
    (done : Script.runLines (Script.run files left) path session
      (Script.groupFrom opened number lines) = .done final) :
    let answer := shell.enterAll (Script.run files depth) lines
    answer.verdict = .ok (some final.exited) ∧ InStep final none answer.shell ∧
      final.results = session.results ++ shell.performedAll (Script.run files depth) lines := by
  induction lines generalizing session opened shell number with
  | nil =>
    cases opened with
    | none =>
      cases done
      exact ⟨by rw [stays]; rfl, inStep, by simp [performedAll]⟩
    | some group =>
      obtain ⟨next, added, _⟩ := Outcome.andThen_eq_done done
      have continued := inStep.continued group rfl
      simp [isContinued_of_done added] at continued
  | cons line lines inductionHypothesis =>
    rw [Script.groupFrom_cons, ← inStep.pending] at done
    dsimp only at done
    cases continued : Layout.isContinued (Layout.joined shell.pending line) with
    | true =>
      rw [continued, if_pos rfl] at done
      obtain ⟨entered, nothing⟩ := enter_of_continued (Script.run files depth) shell continued
      rw [inStep.exited, stays] at entered
      obtain ⟨entersAll, performsAll⟩ := enterAll_of_goesOn entered lines
      rw [entersAll, performsAll, nothing, List.nil_append]
      exact inductionHypothesis (inStep.opens _ continued) stays (number + 1) done
    | false =>
      rw [continued, if_neg Bool.false_ne_true] at done
      obtain ⟨middle, added, rest⟩ := Outcome.andThen_eq_done done
      obtain ⟨next, entered, nextInStep, results⟩ := inStep.closes deep stays continued added
      cases leaves : middle.exited with
      | true =>
        rw [leaves, if_pos rfl] at rest
        cases rest
        rw [leaves] at entered
        obtain ⟨entersAll, performsAll⟩ := enterAll_of_stops entered lines
        rw [entersAll, performsAll, leaves]
        exact ⟨rfl, nextInStep, results⟩
      | false =>
        rw [leaves, if_neg Bool.false_ne_true] at rest
        rw [leaves] at entered
        obtain ⟨entersAll, performsAll⟩ := enterAll_of_goesOn entered lines
        rw [entersAll, performsAll, ← List.append_assoc, ← results]
        exact inductionHypothesis nextInStep leaves (number + 1) rest

/-- New sessions with the same limit, strategy and combinators agree in all that statements depend
    on. -/
theorem inStep_create {reporter otherReporter : Reporter} {settings otherSettings : Settings}
    {session other : Session} (creates : Session.create reporter settings = .ok session)
    (otherCreates : Session.create otherReporter otherSettings = .ok other)
    (limit : otherSettings.limit = settings.limit)
    (strategy : otherSettings.strategy = settings.strategy)
    (combinators : otherSettings.combinators = settings.combinators) :
    session.exited = false ∧ session.results = [] ∧ InStep session none (create other) := by
  obtain ⟨bound, first, checked, chosen, rfl⟩ := Session.exists_of_create creates
  obtain ⟨otherBound, otherFirst, otherChecked, otherChosen, rfl⟩ :=
    Session.exists_of_create otherCreates
  rw [limit, checked] at otherChecked
  rw [strategy, chosen] at otherChosen
  cases otherChecked
  cases otherChosen
  refine ⟨rfl, rfl, ?_, rfl, rfl, rfl, rfl, rfl, by simp⟩
  simp only [create, combinators]

/-- Lines that a script executes without a failure in a new session may be entered into a new shell
    one by one instead, until it is to stop. This leaves the same bindings, limit and strategy,
    and the session is left in both cases or in neither; the same reductions are performed, in
    the same order, and nothing is left pending. -/
theorem script_can_be_typed {reporter typedReporter : Reporter} {settings typedSettings : Settings}
    {session typedSession : Session} (creates : Session.create reporter settings = .ok session)
    (typedCreates : Session.create typedReporter typedSettings = .ok typedSession)
    (limit : typedSettings.limit = settings.limit)
    (strategy : typedSettings.strategy = settings.strategy)
    (combinators : typedSettings.combinators = settings.combinators)
    {lines : List String} (plain : ∀ line ∈ lines, '\n' ∉ line.toList ∧ '\r' ∉ line.toList)
    {files : Files} {path : String} (opens : Script.Opens files path (Lines.toFile lines))
    {depth typedDepth : Nat} (deep : depth ≤ typedDepth + 1) {final : Session}
    (done : Script.run files depth path session = .done final) :
    let load := Script.run files typedDepth
    let answer := (create typedSession).enterAll load lines
    answer.verdict = .ok (some final.exited) ∧ answer.shell.pending = "" ∧
      answer.shell.session.environment = final.environment ∧
      answer.shell.session.limit = final.limit ∧
      answer.shell.session.strategy = final.strategy ∧ answer.shell.session.exited = final.exited ∧
      (create typedSession).performedAll load lines = final.results := by
  intro load answer
  obtain ⟨stays, none, inStep⟩ := inStep_create creates typedCreates limit strategy combinators
  obtain ⟨left, text, next, rfl, _, found, executed, rfl⟩ := Script.run_eq_done done
  cases opens.2.symm.trans found
  rw [Script.logicalLines, Lines.ofFile_toFile plain] at executed
  have registered : InStep (session.withReporter (·.registerFile path)) .none
      (create typedSession) :=
    ⟨inStep.environment, inStep.limit, inStep.strategy, inStep.exited, inStep.taken, rfl, by simp⟩
  obtain ⟨verdict, inStepAgain, results⟩ :=
    enterAll_in_step (Nat.le_of_succ_le_succ deep) path registered stays 1 lines executed
  refine ⟨verdict, inStepAgain.pending, inStepAgain.environment, inStepAgain.limit,
    inStepAgain.strategy, inStepAgain.exited, ?_⟩
  change _ = next.results
  rw [results, show (session.withReporter (·.registerFile path)).results = [] from none,
    List.nil_append]

/-- A file with two logical lines before an exit. -/
def groupedScript : Files := fun path =>
  if path = "a.lc" then some (Lines.toFile ["x = y", "(x # first", " z)", ":exit", "w"]) else none

/-- If these lines are typed, one reduction is performed, and the shell stops at the exit. -/
theorem script_can_be_typed_until_exit :
    let session : Session :=
      ⟨consolePath, .empty, 1000, .normal, [], false,
        (Reporter.create false false).registerFile consolePath⟩
    let lines := ["x = y", "(x # first", " z)", ":exit", "w"]
    let answer := (create session).enterAll (Script.run groupedScript 1) lines
    answer.verdict = .ok (some true) ∧ answer.shell.pending = "" ∧
      (create session).performedAll (Script.run groupedScript 1) lines =
        [⟨.app (.var "y") (.var "z"), 0, false⟩] := by
  intro session lines answer
  let scripted : Session :=
    ⟨"a.lc", .empty, 1000, .normal, [], false, (Reporter.create true false).registerFile "a.lc"⟩
  let outcome := Script.run groupedScript 1 "a.lc" scripted
  have creates : Session.create (.create true false) { path := "a.lc", interactive := false } =
      .ok scripted := by with_unfolding_all rfl
  have typedCreates : Session.create (.create false false) {} = .ok session := by
    with_unfolding_all rfl
  have ends : outcome.failure = none := Option.isNone_iff_eq_none.mp (by decide +kernel)
  have done : Script.run groupedScript 1 "a.lc" scripted = .done outcome.session := by
    rw [Outcome.done, ← ends]
  have opens : Script.Opens groupedScript "a.lc" (Lines.toFile lines) := ⟨by decide, rfl⟩
  obtain ⟨verdict, pending, _, _, _, _, performs⟩ :=
    script_can_be_typed creates typedCreates rfl rfl rfl
    (by decide +kernel) opens (by decide : 1 ≤ 1 + 1) done
  have leaves : outcome.session.exited = true := by decide +kernel
  have results : outcome.session.results = [⟨.app (.var "y") (.var "z"), 0, false⟩] := by
    decide +kernel
  exact ⟨leaves ▸ verdict, pending, performs.trans results⟩

end Shell

end UntypedLambda
