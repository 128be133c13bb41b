import UntypedLambda.Proofs.ScriptCalls

/-!
# Sessions that agree

What statements do depends on the bindings, the limit and the strategy of a session, and on
nothing that it has printed or registered, on no path and on no number of a line. So lines
of the same texts have the same effect on sessions that agree in these, wherever the lines
stand: both sessions get the same results, and they agree again afterwards, or both fail
for the same reason. Loads have to agree for this, but no others than the lines ask for.

Loads that nest too deep are left out, as there may be room for them in one place and not
in the other.
-/

namespace UntypedLambda

variable {before otherBefore : List Reduction}

/-- Sessions that agree in all that statements depend on, and that have got the same results
    since each of them had some given ones. -/
structure Session.Agrees (before otherBefore : List Reduction)
    (session other : Session) : Prop where
  environment : other.environment = session.environment
  limit : other.limit = session.limit
  strategy : other.strategy = session.strategy
  exited : other.exited = session.exited
  results : ∃ since, session.results = before ++ since ∧ other.results = otherBefore ++ since

/-- Unless loads nest too deep in the first place, the activities fail for the same reason or
    both are done, in sessions that agree. -/
def Outcome.Agrees (before otherBefore : List Reduction) (outcome other : Outcome) : Prop :=
  outcome.failure ≠ some .tooDeep →
    other.failure = outcome.failure ∧ outcome.session.Agrees before otherBefore other.session

namespace Outcome

/-- Activities that are done agree if their sessions do. -/
theorem agrees_done {session other : Session} (agrees : session.Agrees before otherBefore other) :
    (done session).Agrees before otherBefore (done other) :=
  fun _ => ⟨rfl, agrees⟩

/-- Activities that fail for the same reason agree if their sessions do. -/
theorem agrees_failed {session other : Session} (agrees : session.Agrees before otherBefore other)
    (failure : Failure) :
    (failed session failure).Agrees before otherBefore (failed other failure) :=
  fun _ => ⟨rfl, agrees⟩

/-- An activity that fails since loads nest too deep agrees with all others. -/
theorem agrees_tooDeep (session : Session) (other : Outcome) :
    (failed session .tooDeep).Agrees before otherBefore other :=
  fun ends => absurd rfl ends

/-- What agrees with an activity that is done is done. -/
theorem Agrees.exists_done {session : Session} {other : Outcome}
    (agrees : (done session).Agrees before otherBefore other) :
    ∃ otherSession, other = .done otherSession ∧
      session.Agrees before otherBefore otherSession := by
  obtain ⟨otherSession, otherFailure⟩ := other
  obtain ⟨rfl, sessions⟩ := agrees (by simp [done])
  exact ⟨otherSession, rfl, sessions⟩

/-- Going on agrees if both parts do. -/
theorem Agrees.andThen {outcome other : Outcome} (agrees : outcome.Agrees before otherBefore other)
    {next otherNext : Session → Outcome}
    (goesOn : ∀ session otherSession, session.Agrees before otherBefore otherSession →
      (next session).Agrees before otherBefore (otherNext otherSession)) :
    (outcome.andThen next).Agrees before otherBefore (other.andThen otherNext) := by
  obtain ⟨session, isDone, both⟩ | ⟨session, failure, fails, both⟩ := outcome.andThen_cases next
  · rw [both]
    subst isDone
    obtain ⟨otherSession, rfl, sessions⟩ := agrees.exists_done
    exact goesOn session otherSession sessions
  · rw [both]
    subst fails
    intro ends
    obtain ⟨otherSession, otherFailure⟩ := other
    obtain ⟨rfl, sessions⟩ := agrees ends
    exact ⟨rfl, sessions⟩

/-- Going on unless the session was left agrees if both parts do. -/
theorem Agrees.unlessExited {outcome other : Outcome}
    (agrees : outcome.Agrees before otherBefore other)
    {next otherNext : Session → Outcome}
    (goesOn : ∀ session otherSession, session.Agrees before otherBefore otherSession →
      session.exited = false → (next session).Agrees before otherBefore (otherNext otherSession)) :
    (outcome.andThen fun session => if session.exited then .done session else next session).Agrees
      before otherBefore
      (other.andThen fun session =>
        if session.exited then .done session else otherNext session) := by
  refine agrees.andThen fun session otherSession sessions => ?_
  rw [sessions.exited]
  cases exited : session.exited with
  | true => exact agrees_done sessions
  | false => exact goesOn session otherSession sessions exited

/-- What is printed or registered after the first of two activities does not matter. -/
theorem Agrees.withReporter_left {outcome other : Outcome}
    (agrees : outcome.Agrees before otherBefore other) (change : Reporter → Reporter) :
    (outcome.andThen fun next => .done (next.withReporter change)).Agrees
      before otherBefore other := by
  obtain ⟨session, failure⟩ := outcome
  cases failure with
  | some failure => exact agrees
  | none =>
    intro ends
    obtain ⟨failure, environment, limit, strategy, exited, results⟩ := agrees ends
    exact ⟨failure, environment, limit, strategy, exited, results⟩

end Outcome

namespace Session

/-- A session agrees with itself. -/
theorem Agrees.refl (session : Session) : session.Agrees session.results session.results session :=
  ⟨rfl, rfl, rfl, rfl, [], by simp, by simp⟩

/-- Sessions agree whatever is printed or registered in them. -/
theorem Agrees.withReporter {session other : Session}
    (agrees : session.Agrees before otherBefore other)
    (change otherChange : Reporter → Reporter) :
    (session.withReporter change).Agrees before otherBefore (other.withReporter otherChange) :=
  ⟨agrees.environment, agrees.limit, agrees.strategy, agrees.exited, agrees.results⟩

/-- A statement that loads no file has the same effect on sessions that agree. -/
theorem Agrees.execute {session other : Session} (agrees : session.Agrees before otherBefore other)
    (load otherLoad : String → Session → Outcome) {statement : Statement}
    (plain : ∀ path, statement.action ≠ .load path) :
    (session.execute load statement).Agrees before otherBefore
      (other.execute otherLoad statement) := by
  obtain ⟨environment, limit, strategy, exited, since, isSince, isOther⟩ := id agrees
  obtain ⟨action, source⟩ := statement
  cases action with
  | load path => exact absurd rfl (plain path)
  | evaluate term =>
    have resolves : other.resolve term [] = session.resolve term [] := by
      rw [resolve, resolve, environment]
    simp only [Session.execute, evaluate, resolves, strategy, limit]
    cases session.resolve term [] with
    | error fault => exact Outcome.agrees_failed agrees _
    | ok resolved =>
      apply Outcome.agrees_done
      refine ⟨environment, rfl, rfl, exited,
        since ++ [session.strategy.reduce session.limit resolved], ?_, ?_⟩
      · rw [isSince, List.append_assoc]
      · rw [isOther, List.append_assoc]
  | bind name term =>
    have reaches : other.dependencies term = session.dependencies term := by
      rw [dependencies, dependencies, environment]
    simp only [Session.execute, bind, reaches, environment]
    split
    · exact Outcome.agrees_failed agrees _
    · split <;> exact Outcome.agrees_done ⟨rfl, limit, strategy, exited, since, isSince, isOther⟩
  | limit value =>
    cases value with
    | none => exact Outcome.agrees_done (agrees.withReporter _ _)
    | some value => exact Outcome.agrees_done ⟨environment, rfl, strategy, exited, since,
        isSince, isOther⟩
  | strategy name =>
    cases name with
    | none => exact Outcome.agrees_done (agrees.withReporter _ _)
    | some name =>
      simp only [Session.execute]
      split
      · exact Outcome.agrees_failed agrees _
      · exact Outcome.agrees_done ⟨environment, limit, rfl, exited, since, isSince, isOther⟩
  | listBindings => exact Outcome.agrees_done (agrees.withReporter _ _)
  | exit => exact Outcome.agrees_done ⟨environment, limit, strategy, rfl, since, isSince, isOther⟩

/-- Statements that load no file have the same effect on sessions that agree. -/
theorem Agrees.executeAll {session other : Session}
    (agrees : session.Agrees before otherBefore other)
    (load otherLoad : String → Session → Outcome) {statements : List Statement}
    (plain : ∀ statement ∈ statements, ∀ path, statement.action ≠ .load path) :
    (session.executeAll load statements).Agrees before otherBefore
      (other.executeAll otherLoad statements) := by
  induction statements generalizing session other with
  | nil => exact Outcome.agrees_done agrees
  | cons statement statements inductionHypothesis =>
    rw [List.forall_mem_cons] at plain
    exact (agrees.execute load otherLoad plain.1).andThen fun _ _ sessions =>
      inductionHypothesis sessions plain.2

/-- Loading files agrees, in sessions that have not been left. -/
def LoadsAgree (before otherBefore : List Reduction)
    (load otherLoad : String → Session → Outcome) : Prop :=
  ∀ path session other, session.Agrees before otherBefore other → session.exited = false →
    (load path session).Agrees before otherBefore (otherLoad path other)

/-- A line has the same effect on sessions that agree, whatever its number and its file. -/
theorem Agrees.add {session other : Session} (agrees : session.Agrees before otherBefore other)
    (stays : session.exited = false) {load otherLoad : String → Session → Outcome}
    (loads : LoadsAgree before otherBefore load otherLoad) (line : String)
    (number otherNumber : Option Int) (path otherPath : String) :
    (session.add load line number path).Agrees before otherBefore
      (other.add otherLoad line otherNumber otherPath) := by
  have entered := agrees.withReporter
    (·.registerLine (if path = "" then session.path else path) ⟨line, number⟩)
    (·.registerLine (if otherPath = "" then other.path else otherPath) ⟨line, otherNumber⟩)
  by_cases asks : ∃ inner, Script.Asks line inner
  · obtain ⟨inner, asks⟩ := asks
    rw [add_of_asks asks, add_of_asks asks]
    exact (loads inner _ _ entered stays).andThen fun _ _ sessions =>
      Outcome.agrees_done (sessions.withReporter _ _)
  · rw [Session.add, Session.add]
    cases parsed : Statement.parse line with
    | error error => exact Outcome.agrees_failed entered _
    | ok statements =>
      refine (entered.executeAll load otherLoad fun statement member inner isLoad => ?_).andThen
        fun _ _ sessions => Outcome.agrees_done (sessions.withReporter _ _)
      exact asks ⟨inner, statements, parsed, statement, member, isLoad⟩

/-- Lines of the same texts have the same effect on sessions that agree and have not been left,
    whatever their numbers and their files. -/
theorem Agrees.runLines {session other : Session} (agrees : session.Agrees before otherBefore other)
    (stays : session.exited = false) {load otherLoad : String → Session → Outcome}
    (loads : LoadsAgree before otherBefore load otherLoad) (path otherPath : String)
    {lines otherLines : List LogicalLine}
    (same : otherLines.map LogicalLine.text = lines.map LogicalLine.text) :
    (Script.runLines load path session lines).Agrees before otherBefore
      (Script.runLines otherLoad otherPath other otherLines) := by
  induction lines generalizing session other otherLines with
  | nil =>
    obtain rfl := List.map_eq_nil_iff.mp same
    exact Outcome.agrees_done agrees
  | cons line lines inductionHypothesis =>
    obtain ⟨otherLine, otherRest, rfl, sameText, sameRest⟩ := List.map_eq_cons_iff.mp same
    have added := agrees.add stays loads line.text (some line.number) (some otherLine.number)
      path otherPath
    rw [Script.runLines, Script.runLines, sameText]
    exact added.unlessExited fun _ _ sessions goesOn => inductionHypothesis sessions goesOn sameRest

end Session

end UntypedLambda
