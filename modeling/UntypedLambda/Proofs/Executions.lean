import UntypedLambda.Proofs.NestedLoads

/-!
# What all executions keep

Statements are executed one after the other, while their line is registered. The lines of a
file are executed one after the other, while the file is on the trail. A statement of such a
line may have the next file executed in the same way.

So a relation between a session and what becomes of it holds of every file, whatever the file
loads, if it holds of the smallest executions and is kept when executions are composed. The
relation may be another one for statements, for lines and for whole files, and it may depend
on the path of the file.
-/

namespace UntypedLambda

/-- Some line asks for an action. -/
def Action.Typed (action : Action) : Prop :=
  ∃ line statements, Statement.parse line = .ok statements ∧
    ∃ statement ∈ statements, statement.action = action

namespace Script

/-- A relation between a session and an outcome that holds where nothing is executed, and
    where one execution follows another one that is done. -/
structure Composes (holds : Session → Outcome → Prop) : Prop where
  nothing (session : Session) : holds session (.done session)
  andThen {session middle : Session} {outcome : Outcome} (first : holds session (.done middle))
    (second : holds middle outcome) : holds session outcome

namespace Composes

variable {holds : Session → Outcome → Prop} (composes : Composes holds)
include composes

/-- Going on keeps the relation if both parts do. -/
theorem of_andThen {session : Session} {outcome : Outcome} {next : Session → Outcome}
    (first : holds session outcome) (second : ∀ middle, holds middle (next middle)) :
    holds session (outcome.andThen next) := by
  obtain ⟨middle, rfl, both⟩ | ⟨final, failure, rfl, both⟩ := outcome.andThen_cases next
  · rw [both]
    exact composes.andThen first (second middle)
  · rw [both]
    exact first

/-- Statements keep the relation together if each of them does. -/
theorem executeAll {load : String → Session → Outcome} {statements : List Statement}
    (each : ∀ statement ∈ statements, ∀ session, holds session (session.execute load statement))
    (session : Session) : holds session (session.executeAll load statements) := by
  induction statements generalizing session with
  | nil => exact composes.nothing session
  | cons statement statements inductionHypothesis =>
    rw [List.forall_mem_cons] at each
    exact composes.of_andThen (each.1 session) fun middle => inductionHypothesis each.2 middle

/-- Lines keep the relation together if each of them does. -/
theorem runLines {load : String → Session → Outcome} {path : String} {lines : List LogicalLine}
    (each : ∀ line ∈ lines, ∀ session : Session,
      holds session (session.add load line.text (some line.number) path))
    (session : Session) : holds session (runLines load path session lines) := by
  induction lines generalizing session with
  | nil => exact composes.nothing session
  | cons line lines inductionHypothesis =>
    rw [List.forall_mem_cons] at each
    refine composes.of_andThen (each.1 session) fun middle => ?_
    split
    · exact composes.nothing middle
    · exact inductionHypothesis each.2 middle

end Composes

/-- What has to be known of the relations for the statements of a line, for the lines of a file
    and for a whole file, so that they hold of all executions: the first two compose; a
    statement keeps them if what it loads does; a line keeps them, whether it cannot be read
    or its statements keep them; and so does a file, whether it cannot be read or its lines
    keep them. -/
structure Steps (files : Files) (ofStatements ofLines ofFile : String → Session → Outcome → Prop) :
    Prop where
  composeStatements (path : String) : Composes (ofStatements path)
  composeLines (path : String) : Composes (ofLines path)
  statement {path : String} {load : String → Session → Outcome} {statement : Statement}
    (typed : statement.action.Typed) (session : Session)
    (loads : ∀ inner, statement.action = .load inner →
      ofStatements path session (load inner session)) :
    ofStatements path session (session.execute load statement)
  malformed (path : String) (session : Session) (line : TrailLine) (error : SyntaxError) :
    ofLines path session (.failed (session.enter path line) (.fault (.malformed error)))
  line {path : String} {session : Session} {line : TrailLine} {outcome : Outcome}
    (executed : ofStatements path (session.enter path line) outcome) :
    ofLines path session (outcome.andThen fun next =>
      .done (next.withReporter (·.forgetLine (if path = "" then session.path else path))))
  unread (path : String) (session : Session) (failure : Failure) :
    ofFile path session (.failed session failure)
  file {path text : String} {session : Session} {outcome : Outcome}
    (found : files path = some text)
    (executed : ofLines path (session.withReporter (·.registerFile path)) outcome) :
    ofFile path session (outcome.andThen fun next =>
      .done (next.withReporter (·.forgetFile path)))
  inner {path other : String} {session : Session} {outcome : Outcome}
    (loads : Loads files path other) (loaded : ofFile other session outcome) :
    ofStatements path session outcome

namespace Steps

variable {files : Files} {ofStatements ofLines ofFile : String → Session → Outcome → Prop}
  (steps : Steps files ofStatements ofLines ofFile)
include steps

/-- A line keeps the relation for lines if what it loads keeps the one for statements. -/
theorem add {load : String → Session → Outcome} {path line : String}
    (loads : ∀ inner, Asks line inner → ∀ session, ofStatements path session (load inner session))
    (session : Session) (number : Option Int) :
    ofLines path session (session.add load line number path) := by
  cases parsed : Statement.parse line with
  | error error =>
    rw [Session.add_of_malformed parsed]
    exact steps.malformed path session ⟨line, number⟩ error
  | ok statements =>
    rw [Session.add_of_parsed parsed]
    refine steps.line ((steps.composeStatements path).executeAll ?_ _)
    intro statement member session
    have typed : statement.action.Typed := ⟨line, statements, parsed, statement, member, rfl⟩
    refine steps.statement typed session fun inner asks => ?_
    exact loads inner ⟨statements, parsed, statement, member, asks⟩ session

/-- Lines of a file keep their relation if every file that is loaded keeps its own. -/
theorem runLines {load : String → Session → Outcome} {path text : String}
    (found : files path = some text) {lines : List LogicalLine}
    (included : ∀ line ∈ lines, line ∈ logicalLines text)
    (loads : ∀ inner session, ofFile inner session (load inner session)) (session : Session) :
    ofLines path session (runLines load path session lines) := by
  refine (steps.composeLines path).runLines (fun line member session => ?_) session
  refine steps.add (fun inner asks session => ?_) session _
  exact steps.inner ⟨text, found, line, included line member, asks⟩ (loads inner session)

/-- Every file keeps the relation for files, however deep loads nest. -/
theorem run (depth : Nat) (path : String) (session : Session) :
    ofFile path session (run files depth path session) := by
  induction depth generalizing path session with
  | zero => exact steps.unread path session .tooDeep
  | succ depth inductionHypothesis =>
    unfold Script.run runWith
    split
    · exact steps.unread path session .nullInPath
    split
    · exact steps.unread path session _
    · rename_i text found
      exact steps.file found (steps.runLines found (fun _ member => member) inductionHypothesis _)

end Steps

end Script

end UntypedLambda
