import UntypedLambda.Program
import UntypedLambda.Proofs.Executions
import UntypedLambda.Proofs.RegisteredLines
import UntypedLambda.Proofs.SessionInvariant

/-!
# What a shell has been through

A shell is reached from a new one by typing lines, whatever files there are and however
deep loads may nest, and whatever failed on the way. Its reporter has never become fatal,
and between two lines no line is registered: what is done is not registered any more, and
after a failure everything is forgotten.
-/

namespace UntypedLambda

/-- What becomes of a session's path, of its reporter and of the registered lines in an
    activity. If it is done, no other lines are registered than before. -/
structure Session.Settles (session : Session) (outcome : Outcome) : Prop where
  path : outcome.session.path = session.path
  fatal : outcome.session.reporter.fatal = session.reporter.fatal
  registered : ∀ next, outcome = .done next →
    ∀ entry ∈ next.reporter.trail.registered, entry ∈ session.reporter.trail.registered

namespace Session

/-- A failure settles in a session with the same path and the same kind of reporter. -/
theorem settles_failed {session final : Session} {failure : Failure}
    (path : final.path = session.path)
    (fatal : final.reporter.fatal = session.reporter.fatal) :
    Settles session (.failed final failure) :=
  ⟨path, fatal, fun _ done => absurd done.symm Outcome.done_ne_failed⟩

/-- What is done settles if no other lines are registered than before. -/
theorem settles_done {session next : Session} (path : next.path = session.path)
    (fatal : next.reporter.fatal = session.reporter.fatal)
    (registered : ∀ entry ∈ next.reporter.trail.registered,
      entry ∈ session.reporter.trail.registered) : Settles session (.done next) :=
  ⟨path, fatal, fun _ done => by cases done; exact registered⟩

/-- Where nothing was registered before what is done, nothing is registered after it. -/
theorem Settles.unregistered {session next : Session} (settles : Settles session (.done next))
    (unregistered : session.reporter.trail.registered = []) :
    next.reporter.trail.registered = [] := by
  rw [List.eq_nil_iff_forall_not_mem]
  intro entry registered
  exact absurd (unregistered ▸ settles.registered next rfl entry registered) List.not_mem_nil

/-- Two activities settle, one after the other, if both do. -/
theorem composes_settles : Script.Composes Settles where
  nothing _ := settles_done rfl rfl fun _ => id
  andThen {_ middle _} first second :=
    ⟨second.path.trans first.path, second.fatal.trans first.fatal,
      fun final done entry registered =>
        first.registered middle rfl entry (second.registered final done entry registered)⟩

/-- A statement settles if what it loads does. -/
theorem execute_settles {load : String → Session → Outcome} (session : Session)
    {statement : Statement}
    (loads : ∀ path, statement.action = .load path → Settles session (load path session)) :
    Settles session (session.execute load statement) := by
  obtain ⟨path, asks, executes⟩ | ⟨fault, executes⟩ | ⟨next, executes, place⟩ :=
    execute_cases load session statement
  · exact executes ▸ loads path asks
  · exact executes ▸ settles_failed rfl rfl
  · exact executes ▸ settles_done place.path place.fatal fun entry => place.trail ▸ id

/-- A line that is registered settles if its statements do. If it is done, it is not registered
    any more. -/
theorem settles_line {path : String} {session : Session} {line : TrailLine} {outcome : Outcome}
    (executed : Settles (session.enter path line) outcome) :
    Settles session (outcome.andThen fun next =>
      .done (next.withReporter (·.forgetLine (if path = "" then session.path else path)))) := by
  obtain ⟨next, rfl, both⟩ | ⟨final, failure, rfl, both⟩ := outcome.andThen_cases _ <;> rw [both]
  · refine settles_done executed.path executed.fatal fun entry registered => ?_
    obtain ⟨different, registered⟩ := (Trail.mem_registered_set_none ..).mp registered
    obtain rfl | ⟨_, before⟩ :=
      (Trail.mem_registered_set_some ..).mp (executed.registered next rfl entry registered)
    · exact absurd rfl different
    · exact before
  · exact settles_failed executed.path executed.fatal

/-- A file that is put on the trail settles if its lines do. If it is done, it is not on the trail
    any more. -/
theorem settles_file {path : String} {session : Session} {outcome : Outcome}
    (executed : Settles (session.withReporter (·.registerFile path)) outcome) :
    Settles session (outcome.andThen fun next =>
      .done (next.withReporter (·.forgetFile path))) := by
  obtain ⟨next, rfl, both⟩ | ⟨final, failure, rfl, both⟩ := outcome.andThen_cases _ <;> rw [both]
  · refine settles_done executed.path executed.fatal fun entry registered => ?_
    change entry ∈ Trail.registered (next.reporter.trail.erase path) at registered
    rw [OrderedMap.erase_eq_without, Trail.mem_registered_without] at registered
    have before := executed.registered next rfl entry registered.2
    exact ((Trail.mem_registered_set_none ..).mp before).2
  · exact settles_failed executed.path executed.fatal

/-- Statements, lines and files settle. -/
theorem settles_steps (files : Files) :
    Script.Steps files (fun _ => Settles) (fun _ => Settles) (fun _ => Settles) where
  composeStatements _ := composes_settles
  composeLines _ := composes_settles
  statement _ session loads := session.execute_settles loads
  malformed _ _ _ _ := settles_failed rfl rfl
  line := settles_line
  unread _ _ _ := settles_failed rfl rfl
  file _ := settles_file
  inner _ loaded := loaded

variable (files : Files) (depth : Nat)

/-- Loading a file settles, however deep loads nest. -/
theorem run_settles (path : String) (session : Session) :
    Settles session (Script.run files depth path session) :=
  (settles_steps files).run depth path session

/-- A line settles, whatever files it loads. -/
theorem add_settles (session : Session) (line : String) (number : Option Int) (path : String) :
    Settles session (session.add (Script.run files depth) line number path) :=
  (settles_steps files).add (fun inner _ => run_settles files depth inner) session number

/-- All statements of a line together settle. -/
theorem executeAll_settles (session : Session) (statements : List Statement) :
    Settles session (session.executeAll (Script.run files depth) statements) :=
  composes_settles.executeAll
    (fun _ _ session => session.execute_settles fun path _ => run_settles files depth path session)
    session

/-- The logical lines of a file settle. -/
theorem runLines_settles (session : Session) (path : String) (lines : List LogicalLine) :
    Settles session (Script.runLines (Script.run files depth) path session lines) :=
  composes_settles.runLines (fun _ _ session => add_settles files depth session _ _ path) session

/-- A new session has its own path registered. Its reporter is as fatal as it was before, but
    never in an interactive session. -/
theorem reporter_of_create (reporter : Reporter) (settings : Settings) (session : Session)
    (creates : create reporter settings = .ok session) :
    session.reporter.fatal = (reporter.fatal && !settings.interactive) ∧
      session.reporter.trail = reporter.trail.set settings.path none := by
  obtain ⟨limit, strategy, _, _, rfl⟩ := exists_of_create creates
  exact ⟨rfl, rfl⟩

end Session

/-- A reporter that is not fatal forgets all lines after an error. -/
theorem Reporter.throw_of_lenient (reporter : Reporter) (report : Report)
    (lenient : reporter.fatal = false) :
    reporter.throw report =
      ((reporter.print (errorLines reporter.trail report)).forgetLines, none) := by
  simp [Reporter.throw, lenient]

/-- A reporter that is not fatal forgets all lines after whatever can fail in a typed line. It
    deals with all of it but a path that has a null character. -/
theorem Script.Refused.guard {left : Nat} {focus : Focus} {failure : Failure}
    (refused : Refused left focus failure) (reporter : Reporter)
    (lenient : reporter.fatal = false) :
    (reporter.guard failure).1.fatal = false ∧
    (reporter.guard failure).1.trail = reporter.trail.mapValues (fun _ => none) ∧
    ((reporter.guard failure).2 = none ∨
      failure = .nullInPath ∧ (reporter.guard failure).2 = some .nullInPath) := by
  cases refused <;>
    simp [Reporter.guard, Failure.nullInPath, reporter.throw_of_lenient _ lenient,
      Reporter.forgetLines, Reporter.print, lenient]

namespace Shell

/-- The shells that can be reached by typing lines into a new one, and by printing in between. -/
inductive Reachable : Shell → Prop where
  | started (fatal traced : Bool) (settings : Settings) (interactive : settings.interactive = true)
      {session : Session}
      (creates : Session.create (Reporter.create fatal traced) settings = .ok session) :
      Reachable (create session)
  | typed {shell : Shell} (reachable : Reachable shell) (files : Files) (depth : Nat)
      (line : String) :
      Reachable (shell.takeLine (Script.run files depth) line).shell
  | flushed {shell : Shell} (reachable : Reachable shell) :
      Reachable { shell with session := shell.session.flush.2 }

/-- Between two lines the reporter is not fatal, and no line is registered. -/
structure AtRest (session : Session) : Prop where
  lenient : session.reporter.fatal = false
  unregistered : session.reporter.trail.registered = []

/-- A closed line that fails is not kept, and the reporter deals with the failure. -/
theorem enter_of_failed {load : String → Session → Outcome} {shell : Shell} {line : String}
    {final : Session} {failure : Failure}
    (closed : Layout.isContinued (Layout.joined shell.pending line) = false)
    (fails : shell.session.add load (Layout.joined shell.pending line)
      (some (shell.lineNumber + 1 : Nat)) "" = .failed final failure) :
    shell.enter load line =
      ⟨⟨{ final with reporter := (final.reporter.guard failure).1 }, "", shell.lineNumber + 1,
        .fresh⟩, match (final.reporter.guard failure).2 with
        | none => .ok (some final.exited)
        | some remaining => .error remaining⟩ := by
  rw [enter, if_neg (Bool.eq_false_iff.mp closed), fails]
  dsimp only
  rw [Outcome.andThen_of_failed rfl]
  cases remaining : (final.reporter.guard failure).2 <;>
    simp [Outcome.guarded, Outcome.failed, remaining]

/-- A line of the term language is kept for later, or it is executed, or it fails and the
    reporter deals with that. -/
theorem enter_cases (load : String → Session → Outcome) (shell : Shell) (line : String) :
    (∃ text, shell.enter load line = ⟨⟨shell.session, text, shell.lineNumber + 1, .continued⟩,
      .ok (some shell.session.exited)⟩) ∨
    (∃ next, shell.session.add load (Layout.joined shell.pending line)
      (some (shell.lineNumber + 1 : Nat)) "" =
        .done next ∧
      shell.enter load line = ⟨⟨dropResults next, "", shell.lineNumber + 1, .fresh⟩,
        .ok (some next.exited)⟩) ∨
    (∃ final failure, shell.session.add load (Layout.joined shell.pending line)
        (some (shell.lineNumber + 1 : Nat)) "" = .failed final failure ∧
      shell.enter load line =
        ⟨⟨{ final with reporter := (final.reporter.guard failure).1 }, "", shell.lineNumber + 1,
          .fresh⟩, match (final.reporter.guard failure).2 with
          | none => .ok (some final.exited)
          | some remaining => .error remaining⟩) := by
  cases continued : Layout.isContinued (Layout.joined shell.pending line) with
  | true => exact .inl ⟨Layout.joined shell.pending line, by rw [enter, if_pos continued]⟩
  | false =>
    cases ended : shell.session.add load (Layout.joined shell.pending line)
      (some (shell.lineNumber + 1 : Nat)) "" with | mk next failure
    cases failure with
    | none =>
      refine .inr (.inl ⟨next, rfl, ?_⟩)
      rw [enter, if_neg (Bool.eq_false_iff.mp continued), ended]
      rfl
    | some failure => exact .inr (.inr ⟨next, failure, rfl, enter_of_failed continued ended⟩)

/-- A typed line is entered, or it leaves the session as it is but for what is printed. -/
theorem takeLine_cases (load : String → Session → Outcome) (shell : Shell) (line : String) :
    (∃ text, shell.takeLine load line = shell.enter load text) ∨
    (∃ printed verdict, shell.takeLine load line =
      ⟨{ shell with session := shell.session.withReporter (·.print printed) }, .ok verdict⟩) := by
  have silent : { shell with session := shell.session.withReporter (·.print []) } = shell := by
    simp [Session.withReporter, Reporter.print]
  have command (characters : List Char) :
      (∃ text, shell.command load characters = shell.enter load text) ∨
      (∃ printed verdict, shell.command load characters =
        ⟨{ shell with session := shell.session.withReporter (·.print printed) }, .ok verdict⟩) := by
    simp only [Shell.command]
    split
    · split
      · exact .inr ⟨_, none, rfl⟩
      · exact .inl ⟨_, rfl⟩
    split
    · split
      · exact .inr ⟨[], some true, by rw [silent]⟩
      · exact .inl ⟨_, rfl⟩
    split
    · exact .inr ⟨_, some true, rfl⟩
    · exact .inl ⟨_, rfl⟩
  unfold takeLine
  split
  · exact .inr ⟨[], some false, by rw [silent]⟩
  · exact command _
  · exact .inl ⟨_, rfl⟩
  · exact command _

/-- A typed line that is entered finds the session at rest and leaves it at rest. -/
theorem AtRest.enter {shell : Shell} (rest : AtRest shell.session) (files : Files) (depth : Nat)
    (line : String) : AtRest (shell.enter (Script.run files depth) line).shell.session := by
  have settles := Session.add_settles files depth shell.session
    (Layout.joined shell.pending line) (some (shell.lineNumber + 1 : Nat)) ""
  obtain ⟨text, entered⟩ | ⟨next, added, entered⟩ | ⟨final, failure, added, entered⟩ :=
    shell.enter_cases (Script.run files depth) line
  · rw [entered]
    exact rest
  · rw [entered]
    rw [added] at settles
    exact ⟨settles.fatal.trans rest.lenient, settles.unregistered rest.unregistered⟩
  · rw [added] at settles
    obtain ⟨left, _, focus, _, refused⟩ := Script.Underway.exists_refused
      ⟨Layout.joined shell.pending line, some (shell.lineNumber + 1 : Nat)⟩ added
    have guarded := refused.guard final.reporter (settles.fatal.trans rest.lenient)
    rw [entered]
    exact ⟨guarded.1, guarded.2.1 ▸ Trail.registered_forgotten _⟩

/-- Between two lines, every shell that can be reached is at rest. -/
theorem Reachable.atRest {shell : Shell} (reachable : Reachable shell) : AtRest shell.session := by
  induction reachable with
  | started fatal traced settings interactive creates =>
    obtain ⟨isFatal, trail⟩ := Session.reporter_of_create _ settings _ creates
    exact ⟨by simp [create, isFatal, interactive], trail ▸ rfl⟩
  | typed _ files depth line rest =>
    rename_i shell _
    obtain ⟨text, entered⟩ | ⟨printed, verdict, answered⟩ :=
      shell.takeLine_cases (Script.run files depth) line
    · exact entered ▸ rest.enter files depth text
    · rw [answered]
      exact ⟨rest.lenient, rest.unregistered⟩
  | flushed _ rest => exact ⟨rest.lenient, rest.unregistered⟩

end Shell

end UntypedLambda
