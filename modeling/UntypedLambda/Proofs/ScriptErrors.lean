import UntypedLambda.Program
import UntypedLambda.Proofs.FileLines
import UntypedLambda.Proofs.LoadDepth
import UntypedLambda.Proofs.PrintedReports

/-!
# A script ends with its first error

The program runs a script with a reporter that is fatal. As soon as a line fails, in the script
or in a file that it loads, the failure is reported and the program exits with code one; if no
line fails, it ends well.

If the line that fails is one of the script itself and loads no file, then the lines before it
have been executed as they are in the script that has no others. So the output is that of the
shorter script, then what the statements of the line have printed before one of them failed,
and then one report.
-/

namespace UntypedLambda

namespace Session

/-- Announcing a reduction adds to what is printed. -/
theorem announce_prints (reporter : Reporter) (reduction : Reduction) (quoted : String)
    (limit : Nat) :
    reporter.output <+: (announce reporter reduction quoted limit).output := by
  unfold announce
  cases Numeral.number? reduction.term <;> cases reduction.exhausted <;>
    simp [noticeOf, Reporter.notice, Reporter.print, Reporter.warn]

/-- What comes of a session where no file is loaded: it stays in its place, and what is printed is
    added to what was printed before. -/
structure Prints (session next : Session) : Prop extends SamePlace session next where
  added : session.reporter.output <+: next.reporter.output

/-- What is done by one part after the other is printed one after the other. -/
theorem composes_prints :
    Script.Composes fun session outcome => ∀ next, outcome = .done next → Prints session next where
  nothing _ _ done := by
    cases done
    exact ⟨⟨rfl, rfl, rfl⟩, List.prefix_refl _⟩
  andThen first second next done := by
    have before := first _ rfl
    have after := second next done
    exact ⟨⟨after.path.trans before.path, after.fatal.trans before.fatal,
      after.trail.trans before.trail⟩, before.added.trans after.added⟩

/-- A statement that loads no file adds to what is printed. -/
theorem output_of_execute {load : String → Session → Outcome} {session next : Session}
    {statement : Statement} (plain : ∀ path, statement.action ≠ .load path)
    (done : session.execute load statement = .done next) :
    session.reporter.output <+: next.reporter.output := by
  obtain ⟨action, source⟩ := statement
  cases action with
  | load path => exact absurd rfl (plain path)
  | evaluate term =>
    simp only [execute, evaluate] at done
    split at done
    · exact absurd done.symm Outcome.done_ne_failed
    · rename_i resolved _
      cases done
      have traced : session.reporter.output <+:
          (session.reporter.print (session.tracedSteps resolved)).output := List.prefix_append _ _
      exact traced.trans (announce_prints ..)
  | bind name term =>
    simp only [execute, bind] at done
    split at done
    · exact absurd done.symm Outcome.done_ne_failed
    split at done <;> cases done
    · exact (List.prefix_append _ _).trans (List.prefix_append _ _)
    · exact List.prefix_append _ _
  | limit value =>
    cases value <;> cases done <;> exact List.prefix_append _ _
  | strategy name =>
    cases name with
    | none =>
      cases done
      exact List.prefix_append _ _
    | some name =>
      simp only [execute] at done
      split at done
      · exact absurd done.symm Outcome.done_ne_failed
      · cases done
        exact List.prefix_append _ _
  | listBindings =>
    cases done
    exact List.prefix_append _ _
  | exit =>
    cases done
    exact List.prefix_refl _

/-- A statement that loads no file stays in its place and adds to what is printed. -/
theorem execute_prints {load : String → Session → Outcome} {session next : Session}
    {statement : Statement} (plain : ∀ path, statement.action ≠ .load path)
    (done : session.execute load statement = .done next) : Prints session next := by
  obtain ⟨path, loads, _⟩ | ⟨_, fails⟩ | ⟨other, executes, place⟩ :=
    execute_cases load session statement
  · exact absurd loads (plain path)
  · exact absurd (done.symm.trans fails) Outcome.done_ne_failed
  · cases executes.symm.trans done
    exact ⟨place, output_of_execute plain done⟩

/-- Statements that load no file stay in their place and add to what is printed. -/
theorem executeAll_prints {load : String → Session → Outcome} {session final : Session}
    {statements : List Statement}
    (plain : ∀ statement ∈ statements, ∀ path, statement.action ≠ .load path)
    (done : session.executeAll load statements = .done final) : Prints session final :=
  composes_prints.executeAll
    (fun statement member _ _ executed => execute_prints (plain statement member) executed)
    session final done

/-- Where a statement fails that loads no file, the program itself is not to blame. -/
theorem external_of_execute {load : String → Session → Outcome} {session final : Session}
    {statement : Statement} {fault : Fault} (plain : ∀ path, statement.action ≠ .load path)
    (fails : session.execute load statement = .failed final (.fault fault)) :
    fault.report.internal = false := by
  obtain ⟨action, source⟩ := statement
  cases action with
  | load path => exact absurd rfl (plain path)
  | evaluate term =>
    simp only [execute, evaluate, resolve] at fails
    cases resolved : session.environment.resolve [] term with
    | error cycle =>
      rw [resolved] at fails
      cases fails
      rfl
    | ok _ =>
      rw [resolved] at fails
      exact absurd fails Outcome.done_ne_failed
  | bind name term =>
    simp only [execute, bind] at fails
    split at fails
    · cases fails
      rfl
    · split at fails <;> exact absurd fails Outcome.done_ne_failed
  | strategy name =>
    cases name with
    | none => exact absurd fails Outcome.done_ne_failed
    | some name =>
      simp only [execute, checkStrategy] at fails
      split at fails
      · rename_i fault checked
        split at checked <;> cases checked
        cases fails
        rfl
      · exact absurd fails Outcome.done_ne_failed
  | limit value => cases value <;> exact absurd fails Outcome.done_ne_failed
  | listBindings | exit => exact absurd fails Outcome.done_ne_failed

end Session

namespace Script

variable {files : Files}

/-- Where a line fails that loads no file: it cannot be read, or its statements up to one of them
    are done, and this one fails with a fault. -/
inductive Call.FailsAt (files : Files) (call : Call) : (final : Session) → Fault → Prop where
  | malformed {error : SyntaxError} (parsed : Statement.parse call.line.text = .error error) :
      FailsAt files call call.entered (.malformed error)
  | statement {earlier later : List Statement} {failing : Statement} {final : Session}
      {fault : Fault}
      (parsed : Statement.parse call.line.text = .ok (earlier ++ failing :: later))
      (executed : call.entered.executeAll (run files call.left) earlier = .done final)
      (fails : final.execute (run files call.left) failing = .failed final (.fault fault)) :
      FailsAt files call final fault

/-- A line that fails without loading a file does so at one place. It is registered then, and what
    its statements have printed before is added to what was printed. -/
theorem Call.exists_failsAt {call : Call} {final : Session} {failure : Failure}
    (fails : call.outcome files = .failed final failure)
    (plain : ∀ path, ¬ Asks call.line.text path) :
    ∃ fault, failure = .fault fault ∧ call.FailsAt files final fault ∧
      fault.report.internal = false ∧ Session.Prints call.entered final := by
  obtain ⟨error, parsed, rfl, rfl⟩ | ⟨statements, parsed, fails⟩ := Session.add_eq_failed fails
  · exact ⟨_, rfl, .malformed parsed, rfl, ⟨rfl, rfl, rfl⟩, List.prefix_refl _⟩
  have loadsNone : ∀ statement ∈ statements, ∀ path, statement.action ≠ .load path :=
    fun statement member path loads => plain path ⟨statements, parsed, statement, member, loads⟩
  obtain ⟨earlier, failing, later, next, rfl, executed, fails⟩ := Session.executeAll_eq_failed fails
  rw [List.forall_mem_append, List.forall_mem_cons] at loadsNone
  obtain ⟨rfl, fault, rfl⟩ := Session.execute_eq_failed loadsNone.2.1 fails
  exact ⟨fault, rfl, .statement parsed executed fails,
    Session.external_of_execute loadsNone.2.1 fails, Session.executeAll_prints loadsNone.1 executed⟩

/-- The lines before a line of a file are done when it is executed, and they have not left the
    session. -/
theorem runLines_of_callsOfLines {left : Nat} {path : String} {session : Session}
    {lines : List LogicalLine}
    {before after : List Call} {call : Call}
    (split : callsOfLines files left path session lines = before ++ call :: after) :
    runLines (run files left) path session (before.map Call.line) = .done call.session ∧
      (before = [] ∨ call.session.exited = false) := by
  induction lines generalizing session before with
  | nil => simp [callsOfLines] at split
  | cons line lines inductionHypothesis =>
    rw [callsOfLines] at split
    obtain ⟨rfl, isCall⟩ | ⟨others, rfl, rest⟩ := List.cons_eq_append_iff.mp split
    · obtain ⟨rfl, _⟩ := List.cons.inj isCall
      exact ⟨rfl, .inl rfl⟩
    cases stops : (Call.outcome files ⟨path, line, session, left⟩).stops with
    | true => simp [stops] at rest
    | false =>
      obtain ⟨next, isDone, stays⟩ := (Outcome.stops_eq_false_iff _).mp stops
      rw [stops, if_neg Bool.false_ne_true, isDone] at rest
      obtain ⟨executed, nextStays⟩ := inductionHypothesis rest
      have goesOn : runLines (run files left) path session
          ((⟨path, line, session, left⟩ :: others : List Call).map Call.line) =
            runLines (run files left) path next (others.map Call.line) := by
        rw [List.map_cons, runLines, show session.add _ _ _ _ = _ from isDone]
        exact if_neg (Bool.eq_false_iff.mp stays)
      refine ⟨goesOn.trans executed, .inr ?_⟩
      obtain rfl | nextStays := nextStays
      · cases executed
        exact stays
      · exact nextStays

/-- A line of a file that fails is what the file fails with. -/
theorem run_of_failing_call {path text : String} (opens : Opens files path text) {left : Nat}
    {session final : Session} {before after : List Call} {call : Call} {failure : Failure}
    (split : ownCalls files (left + 1) path session = before ++ call :: after)
    (fails : call.outcome files = .failed final failure) :
    run files (left + 1) path session = .failed final failure := by
  obtain ⟨outcome, executes, runs⟩ := executes_ownCalls opens left session
  rw [split] at executes
  obtain rfl := executes.later_eq_nil (Outcome.stops_of_failure (by simp [fails, Outcome.failed]))
  have isLast := executes.outcome
  rw [List.getLast?_concat, Option.elim, fails] at isLast
  rw [runs, isLast]
  rfl

/-- A line of a file that fails without loading a file is the last that is executed. -/
theorem allCalls_of_failing_call {path : String} {left : Nat} {session : Session}
    {before after : List Call} {call : Call}
    (split : ownCalls files (left + 1) path session = before ++ call :: after)
    (fails : (call.outcome files).failure ≠ none) (plain : ∀ inner, ¬ Asks call.line.text inner) :
    ∃ earlier, allCalls files (left + 1) path session = earlier ++ [call] := by
  obtain rfl := (endsLike_of_ownCalls split (Outcome.stops_of_failure fails)).1
  obtain ⟨_, nothing⟩ | ⟨inner, asks, _⟩ := call.inside_cases files
  · refine ⟨before.flatMap fun call => call :: call.inside files (allCalls files left), ?_⟩
    rw [allCalls, split, List.flatMap_append, List.flatMap_singleton, nothing]
  · exact absurd asks (plain inner)

/-- A file fails exactly if one of the lines fails that are executed in it or in a file that it
    comes to load. -/
theorem run_fails_iff {path text : String} (opens : Opens files path text) (left : Nat)
    (session : Session) : (run files (left + 1) path session).failure ≠ none ↔
      ∃ call ∈ allCalls files (left + 1) path session, (call.outcome files).failure ≠ none := by
  constructor
  · intro fails
    obtain ⟨outcome, executes, runs⟩ := executes_ownCalls opens left session
    rw [runs, (outcome.endsLike_withReporter _).1, executes.outcome] at fails
    cases isLast : (ownCalls files (left + 1) path session).getLast? with
    | none =>
      rw [isLast] at fails
      exact absurd rfl fails
    | some call =>
      rw [isLast] at fails
      exact ⟨call,
        List.mem_flatMap.mpr ⟨call, List.mem_of_getLast? isLast, List.mem_cons_self⟩, fails⟩
  · rintro ⟨call, member, fails⟩
    rw [(endsLike_of_allCalls member (Outcome.stops_of_failure fails)).1]
    exact fails

/-- The file that has only the physical lines before one of its logical lines executes these as the
    whole file does, and nothing else. The files that these lines have loaded have ended, so they
    do not come to load this file, and they are executed as before. -/
theorem run_of_truncated {path text truncated : String} (opens : Opens files path text) {left : Nat}
    {session : Session} {before after : List Call} {call : Call}
    (split : ownCalls files (left + 1) path session = before ++ call :: after)
    (lines : Lines.ofFile truncated = (Lines.ofFile text).take (call.line.number - 1)) :
    run (Function.update files path (some truncated)) (left + 1) path session =
      .done (call.session.withReporter (·.forgetFile path)) := by
  obtain ⟨groups, grouping⟩ := exists_grouping (Lines.ofFile text)
  have logical : logicalLines text = numbered 1 groups := grouping.groupFrom_eq 1
  obtain ⟨_, executes, _⟩ := executes_ownCalls opens left session
  have taken := executes.taken
  rw [split, logical, List.map_append, List.map_cons] at taken
  obtain ⟨rest, whole⟩ := taken
  rw [List.append_assoc, List.cons_append] at whole
  obtain ⟨earlier, group, later, rfl, isEarlier, isLine⟩ := exists_of_numbered_eq whole.symm
  have shorter : logicalLines truncated = before.map Call.line := by
    rw [isLine, Nat.add_sub_cancel_left, ← grouping.flatten_eq, List.flatten_append,
      List.take_left] at lines
    rw [logicalLines, lines, isEarlier]
    exact grouping.earlier.1.groupFrom_eq 1
  rw [opens.ownCalls_eq] at split
  obtain ⟨executed, stays⟩ := runLines_of_callsOfLines split
  have same : ∀ line ∈ before.map Call.line, ∀ inner, Asks line.text inner →
      run (Function.update files path (some truncated)) left inner = run files left inner := by
    intro line member inner asks
    have included : line ∈ logicalLines text := by
      rw [logical, ← whole]
      exact List.mem_append_left _ member
    have foreign := not_reaches_of_runLines opens.2 executed (stays.imp_left (congrArg _))
      member included asks
    refine run_congr (fun other reaches => ?_) left
    have different : other ≠ path := by
      rintro rfl
      exact foreign reaches
    exact Function.update_of_ne different (some truncated) files
  have shorterOpens : Opens (Function.update files path (some truncated)) path truncated :=
    ⟨opens.1, Function.update_self ..⟩
  rw [shorterOpens.run_eq, shorter, runLines_congr same, executed]
  rfl

end Script

namespace Program

/-- Printed lines, each with its end. -/
def shown (lines : List Markup) : Markup :=
  lines.flatMap (· ++ Markup.plain "\n")

/-- A run that ends well has shown what its session has printed. -/
theorem ended_done (session : Session) :
    ended [] (.done session) = ⟨shown session.reporter.output, "", none⟩ :=
  rfl

/-- A run that ends with a fault has shown what was printed before, and one report. -/
theorem ended_fault {final : Session} (fatal : final.reporter.fatal = true) (fault : Fault) :
    ended [] (.failed final (.fault fault)) =
      ⟨shown final.reporter.output ++
          shown (Reporter.errorLines final.reporter.trail fault.report),
        "", some (.exit (some 1))⟩ := by
  simp [ended, Outcome.guarded, Outcome.failed, Reporter.guard, Reporter.throw,
    Reporter.print, fatal, Session.flush, shown]

/-- A script that fails exits with code one. -/
theorem failure_of_ended {files : Files} {depth : Nat} {path : String} {session final : Session}
    {failure : Failure} (fails : Script.run files depth path session = .failed final failure)
    (fatal : final.reporter.fatal = true) :
    (ended [] (.failed final failure)).failure = some (.exit (some 1)) := by
  obtain ⟨fault, rfl⟩ | rfl | ⟨rfl, _⟩ := Script.failure_cases fails
  · rw [ended_fault fatal]
  · simp [ended, Outcome.guarded, Outcome.failed, Failure.nullInPath, Reporter.guard,
      Reporter.throw, Reporter.print, fatal]
  · simp [ended, Outcome.guarded, Outcome.failed, Reporter.guard, Reporter.throw,
      Reporter.print, fatal]

/-- The reporter of a script is fatal to the end. -/
theorem fatal_of_script {options : Options} {path : String} {session : Session}
    (named : options.file = some path)
    (creates : Session.create (reporter options) (settings options) = .ok session) (files : Files) :
    (Script.load files path session).session.reporter.fatal = true := by
  rw [Script.load, (Session.run_settles files Script.greatestDepth path session).fatal,
    (Session.reporter_of_create _ _ _ creates).1]
  simp [reporter, Reporter.create, settings, named]

/-- When a line of a script is executed, it is the only one that is registered. -/
theorem registered_of_own_call {files : Files} {options : Options} {path text : String}
    {session : Session} (named : options.file = some path)
    (creates : Session.create (reporter options) (settings options) = .ok session)
    (opens : Script.Opens files path text) {left : Nat} {before after : List Script.Call}
    {call : Script.Call}
    (split : Script.ownCalls files (left + 1) path session = before ++ call :: after) :
    call.entered.reporter.trail.registered =
      [(path, ⟨call.line.text, some call.line.number⟩)] := by
  obtain ⟨_, executes, _⟩ := Script.executes_ownCalls opens left session
  have isPath : call.path = path :=
    (executes.place call (split ▸ List.mem_append_right _ List.mem_cons_self)).1
  rw [opens.ownCalls_eq] at split
  have settles := Session.runLines_settles files left
    (session.withReporter (·.registerFile path)) path (before.map Script.Call.line)
  rw [(Script.runLines_of_callsOfLines split).1] at settles
  obtain ⟨_, _, _, _, isNew⟩ := Session.exists_of_create creates
  have own : session.path = path := by rw [isNew, settings, named]; rfl
  have new : session.reporter.trail.registered = [] := by
    rw [(Session.reporter_of_create _ _ _ creates).2]
    rfl
  have unregistered : call.session.reporter.trail.registered = [] :=
    settles.unregistered (Trail.registered_set_none new path)
  have trail : call.entered.reporter.trail =
      call.session.reporter.trail.set path (some ⟨call.line.text, some call.line.number⟩) := by
    have entry : (if path = "" then call.session.path else path) = path :=
      ite_eq_right_iff.mpr fun _ => settles.path.trans own
    rw [Script.Call.entered, isPath, Session.enter, entry]
    rfl
  rw [trail]
  exact Trail.registered_set_some unregistered path _

section Run

variable {files : Files} {arguments : List String} {options : Options} {path text : String}
  {session : Session}
  (reads : Options.read arguments = .ok options) (named : options.file = some path)
  (creates : Session.create (reporter options) (settings options) = .ok session)
include reads named creates

/-- A command line that names a script executes it in a new session. -/
theorem run_of_script (files : Files) (input : String) :
    run files arguments input = ended [] (Script.load files path session) := by
  simp only [run, reads, creates, named]

/-- A script that fails exits with code one, and one that does not fail ends well. -/
theorem failure_of_script (files : Files) (input : String) :
    ((Script.load files path session).failure ≠ none →
      (run files arguments input).failure = some (.exit (some 1))) ∧
    ((Script.load files path session).failure = none →
      (run files arguments input).failure = none) := by
  have fatal := fatal_of_script named creates files
  rw [run_of_script reads named creates]
  cases ends : Script.load files path session with
  | mk final failure =>
    constructor
    · intro isFailure
      obtain ⟨failure, rfl⟩ := Option.ne_none_iff_exists'.mp isFailure
      rw [ends] at fatal
      exact failure_of_ended ends fatal
    · rintro ⟨rfl⟩
      exact congrArg Run.failure (ended_done final)

variable (opens : Script.Opens files path text)
include opens

/-- A line of a script that fails without asking for a file fails at one of its statements, and the
    script fails with it. The output is that of the script that has only the physical lines
    before the line, then what the statements before have printed, and then the report of the
    fault, with the place of the line. -/
theorem output_of_failing_call (input : String) {call : Script.Call}
    (member : call ∈ Script.ownCalls files Script.greatestDepth path session)
    (callFails : (call.outcome files).failure ≠ none)
    (plain : ∀ inner, ¬ Script.Asks call.line.text inner) :
    ∃ final fault printed, call.FailsAt files final fault ∧
      Script.load files path session = .failed final (.fault fault) ∧
      final.reporter.output = call.session.reporter.output ++ printed ∧
      ∀ truncated, Lines.ofFile truncated = (Lines.ofFile text).take (call.line.number - 1) →
        let shorter := run (Function.update files path (some truncated)) arguments input
        shorter.failure = none ∧
          (run files arguments input).output = shorter.output ++ shown printed ++ shown
            ((Markup.bold (path ++ ":" ++ Decimal.text call.line.number ++ ": ") ++
              Markup.vivid .red "error: " ++ fault.report.message) ::
              if fault.report.subject ≠ "" ∧ fault.report.pointed = true then
                [fault.report.pointer .red] else []) := by
  obtain ⟨before, after, split⟩ := List.append_of_mem member
  cases ends : call.outcome files with
  | mk final failure =>
    rw [ends] at callFails
    obtain ⟨failure, rfl⟩ := Option.ne_none_iff_exists'.mp callFails
    obtain ⟨fault, rfl, failsAt, external, prints⟩ := Script.Call.exists_failsAt ends plain
    obtain ⟨printed, isPrinted⟩ := prints.added
    have whole : Script.load files path session = .failed final (.fault fault) :=
      Script.run_of_failing_call opens split ends
    refine ⟨final, fault, printed, failsAt, whole, isPrinted.symm, fun truncated lines => ?_⟩
    have fatal : final.reporter.fatal = true := by
      have stays := fatal_of_script named creates files
      rw [whole] at stays
      exact stays
    have origin : final.reporter.trail.origin = _ :=
      Trail.origin_of_registered (prints.trail ▸ registered_of_own_call named creates opens split)
    have shorter : Script.load (Function.update files path (some truncated)) path session =
        .done (call.session.withReporter (·.forgetFile path)) :=
      Script.run_of_truncated opens split lines
    rw [run_of_script reads named creates, run_of_script reads named creates, whole, shorter,
      ended_done, ended_fault fatal, Reporter.errorLines_of_external external, origin, ← isPrinted]
    constructor
    · rfl
    · change shown (call.session.reporter.output ++ printed) ++ _ =
        shown call.session.reporter.output ++ shown printed ++ _
      rw [shown, List.flatMap_append]
      rfl

end Run

/-- A script exits with code one if a line fails that is executed in it or in a file that it comes
    to load, and otherwise it ends well. If the line that fails is one of the script itself and
    asks for no file, then it is the last that is executed, and nothing is executed after the
    statement that fails. There is a script that has only the physical lines before it. The
    output is that of this script, then what the statements of the line have printed before,
    and then one report: the path and the number of the line, the message, and below it what
    the message is about with the span marked, if there is a span to be shown. -/
theorem script_fails_fast {files : Files} {arguments : List String} {options : Options}
    {path text : String} {session : Session} (reads : Options.read arguments = .ok options)
    (named : options.file = some path)
    (creates : Session.create (reporter options) (settings options) = .ok session)
    (opens : Script.Opens files path text) (input : String) :
    let calls := Script.allCalls files Script.greatestDepth path session
    ((∃ call ∈ calls, (call.outcome files).failure ≠ none) →
      (run files arguments input).failure = some (.exit (some 1))) ∧
    ((∀ call ∈ calls, (call.outcome files).failure = none) →
      (run files arguments input).failure = none) ∧
    ∀ call ∈ Script.ownCalls files Script.greatestDepth path session,
      (call.outcome files).failure ≠ none → (∀ inner, ¬ Script.Asks call.line.text inner) →
      (∃ earlier, calls = earlier ++ [call]) ∧
      (∃ truncated, Lines.ofFile truncated = (Lines.ofFile text).take (call.line.number - 1)) ∧
      ∃ final fault printed, call.FailsAt files final fault ∧
        Script.load files path session = .failed final (.fault fault) ∧
        final.reporter.output = call.session.reporter.output ++ printed ∧
        ∀ truncated, Lines.ofFile truncated = (Lines.ofFile text).take (call.line.number - 1) →
          let shorter := run (Function.update files path (some truncated)) arguments input
          shorter.failure = none ∧
            (run files arguments input).output = shorter.output ++ shown printed ++ shown
              ((Markup.bold (path ++ ":" ++ Decimal.text call.line.number ++ ": ") ++
                Markup.vivid .red "error: " ++ fault.report.message) ::
                if fault.report.subject ≠ "" ∧ fault.report.pointed = true then
                  [fault.report.pointer .red] else []) := by
  intro calls
  obtain ⟨exits, endsWell⟩ := failure_of_script reads named creates files input
  have fails : (Script.load files path session).failure ≠ none ↔
      ∃ call ∈ calls, (call.outcome files).failure ≠ none := Script.run_fails_iff opens 999 session
  refine ⟨fun someFails => exits (fails.mpr someFails), fun noneFails => endsWell ?_,
    fun call member callFails plain => ⟨?_, Lines.exists_ofFile_eq_take text _, ?_⟩⟩
  · by_contra isFailure
    obtain ⟨call, member, callFails⟩ := fails.mp isFailure
    exact callFails (noneFails call member)
  · obtain ⟨before, after, split⟩ := List.append_of_mem member
    exact Script.allCalls_of_failing_call split callFails plain
  · exact output_of_failing_call reads named creates opens input member callFails plain

/-- A script of which the second line fails in its second statement. -/
def failingScript : Files := fun path =>
  if path = "a.lc" then some "x = y\nf = z; g = (λh.h\n) g; w = v\nx" else none

/-- The new session in which this script is executed. -/
def failingSession : Session :=
  ⟨"a.lc", .empty, 1000, .normal, [], false, (Reporter.create true false).registerFile "a.lc"⟩

/-- What is printed when a name is bound for the first time. -/
def addedNotice (name : Name) : Markup :=
  Reporter.noticeLine (Markup.plain "binding " ++ Markup.bold name ++ Markup.plain " added")

/-- The last line of the script that is executed is the second, and it fails. Only the first has
    printed something before. -/
theorem exists_failing_call :
    ∃ call ∈ Script.ownCalls failingScript Script.greatestDepth "a.lc" failingSession,
    call.line = ⟨"f = z; g = (λh.h ) g; w = v", 2⟩ ∧
      call.session.reporter.output = [addedNotice "x"] ∧
      (call.outcome failingScript).failure ≠ none := by
  have calls : (Script.ownCalls failingScript Script.greatestDepth "a.lc" failingSession).map
      (fun call => (call.line, call.session.reporter.output,
        (call.outcome failingScript).failure.isSome)) =
        [(⟨"x = y", 1⟩, [], false),
          (⟨"f = z; g = (λh.h ) g; w = v", 2⟩, [addedNotice "x"], true)] := by
    decide +kernel
  obtain ⟨call, member, isCall⟩ :=
    List.mem_map.mp (calls ▸ List.mem_cons_of_mem _ List.mem_cons_self)
  simp only [Prod.mk.injEq, Option.isSome_iff_ne_none] at isCall
  exact ⟨call, member, isCall⟩

/-- The report of a failure that is a fault. -/
def faultReport? : Failure → Option Report
  | .fault fault => some fault.report
  | .exit _ | .interrupted | .tooDeep | .unforeseen _ _ => none

/-- The script fails as the second binding of its second line refers to itself, after the first has
    been added. -/
theorem load_failingScript {final : Session} {fault : Fault}
    (fails : Script.load failingScript "a.lc" failingSession = .failed final (.fault fault)) :
    final.reporter.output = [addedNotice "x"] ++ [addedNotice "f"] ∧
      fault.report = (Fault.recursiveBinding "g = (λh.h ) g" "g").report := by
  have loads : ((Script.load failingScript "a.lc" failingSession).session.reporter.output,
      (Script.load failingScript "a.lc" failingSession).failure.bind faultReport?) =
        ([addedNotice "x", addedNotice "f"],
          some (Fault.recursiveBinding "g = (λh.h ) g" "g").report) := by
    decide +kernel
  rw [fails] at loads
  obtain ⟨isOutput, isReport⟩ := Prod.mk.inj loads
  exact ⟨isOutput, Option.some.inj isReport⟩

/-- This script exits with code one, after it has printed what the script with only the first line
    prints, what the first binding of the second line prints, and one report. -/
theorem script_fails_fast_in_second_line :
    let whole := run failingScript ["a.lc"] ""
    let shorter := run (Function.update failingScript "a.lc" (some "x = y")) ["a.lc"] ""
    whole.failure = some (.exit (some 1)) ∧ shorter.failure = none ∧
      shorter.output.text = "info: binding x added\n" ∧
      whole.output.text = shorter.output.text ++ "info: binding f added\n" ++
        ("a.lc:2: error: 'g = (λh.h ) g' makes binding 'g' refer to itself, " ++
          "recursive bindings are not supported\n" ++
          "  g = (λh.h ) g\n" ++
          "  ^~~~~~~~~~~~~\n") := by
  intro whole shorter
  let options : Options := { file := some "a.lc" }
  have reads : Options.read ["a.lc"] = .ok options := by with_unfolding_all rfl
  have creates : Session.create (reporter options) (settings options) = .ok failingSession := by
    with_unfolding_all rfl
  have opens : Script.Opens failingScript "a.lc" _ := ⟨by decide, rfl⟩
  obtain ⟨call, member, line, before, callFails⟩ := exists_failing_call
  have plain : ∀ inner, ¬ Script.Asks call.line.text inner := by
    intro inner asks
    have none : Script.askedPaths "f = z; g = (λh.h ) g; w = v" = [] := by decide +kernel
    rw [line] at asks
    simpa [none] using Script.mem_askedPaths asks
  have truncated : Lines.ofFile "x = y" =
      (Lines.ofFile "x = y\nf = z; g = (λh.h\n) g; w = v\nx").take (call.line.number - 1) := by
    rw [line]
    decide +kernel
  obtain ⟨exits, _, output⟩ := script_fails_fast reads rfl creates opens ""
  obtain ⟨⟨earlier, isLast⟩, _, final, fault, printed, _, fails, isPrinted, prints⟩ :=
    output call member callFails plain
  obtain ⟨endsWell, both⟩ := prints "x = y" truncated
  obtain ⟨isOutput, isReport⟩ := load_failingScript fails
  obtain rfl : printed = [addedNotice "f"] := by
    rw [before] at isPrinted
    exact List.append_cancel_left (isPrinted.symm.trans isOutput)
  refine ⟨exits ⟨call, ?_, callFails⟩, endsWell, by decide +kernel, ?_⟩
  · rw [isLast]
    exact List.mem_append_right _ (List.mem_singleton_self call)
  · have bound : (shown [addedNotice "f"]).text = "info: binding f added\n" := by decide +kernel
    rw [isReport, line] at both
    refine (congrArg Markup.text both).trans ?_
    rw [Markup.text_append, Markup.text_append, bound]
    exact congrArg (shorter.output.text ++ "info: binding f added\n" ++ ·) (by decide +kernel)

end Program

end UntypedLambda
