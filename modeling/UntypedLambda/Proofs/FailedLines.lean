import UntypedLambda.Proofs.AgreeingSessions

/-!
# What a failed line leaves behind

A line that cannot be read does nothing, whatever it begins with. Of a line that can be read, the
statements up to the first that fails have been executed, and a statement that fails changes
nothing by itself: a binding is refused before it is made, a term is resolved before its reduction
is queued, and a strategy is looked up before it is chosen. None of this needs an acyclic
environment.

Only a statement that loads a file may fail after it has changed something, namely what the lines
before the failure have changed.
-/

namespace UntypedLambda.Session

/-- Sessions with the same bindings, settings and results, of which both have been left or neither
    has. What was printed or registered in them may differ. -/
structure SameContents (session other : Session) : Prop where
  environment : other.environment = session.environment
  limit : other.limit = session.limit
  strategy : other.strategy = session.strategy
  exited : other.exited = session.exited
  results : other.results = session.results

/-- A session has the same contents whatever is printed or registered in it. -/
theorem SameContents.withReporter {session other : Session} (same : session.SameContents other)
    (change : Reporter → Reporter) : session.SameContents (other.withReporter change) :=
  ⟨same.environment, same.limit, same.strategy, same.exited, same.results⟩

/-- Sessions that agree and had the same results before have the same contents. -/
theorem Agrees.sameContents {before : List Reduction} {session other : Session}
    (agrees : session.Agrees before before other) : session.SameContents other := by
  obtain ⟨since, results, otherResults⟩ := agrees.results
  exact ⟨agrees.environment, agrees.limit, agrees.strategy, agrees.exited,
    otherResults.trans results.symm⟩

/-- Statements that load no file never fail since loads nest too deep. -/
theorem executeAll_not_tooDeep {load : String → Session → Outcome} {session : Session}
    {statements : List Statement}
    (plain : ∀ statement ∈ statements, ∀ path, statement.action ≠ .load path) :
    (session.executeAll load statements).failure ≠ some .tooDeep := by
  intro tooDeep
  have fails : session.executeAll load statements =
      .failed (session.executeAll load statements).session .tooDeep := by
    rw [Outcome.failed, ← tooDeep]
  obtain ⟨earlier, failing, later, next, rfl, _, fails⟩ := executeAll_eq_failed fails
  have isPlain := plain failing (List.mem_append_right _ List.mem_cons_self)
  obtain ⟨_, fault, isFault⟩ := execute_eq_failed isPlain fails
  cases isFault

/-- A line does what its statements do, if none of them loads a file. -/
theorem add_sameContents {line : String} {statements : List Statement}
    (parsed : Statement.parse line = .ok statements)
    (plain : ∀ statement ∈ statements, ∀ path, statement.action ≠ .load path)
    (load : String → Session → Outcome) (session : Session) (number : Option Int) (path : String) :
    (session.add load line number path).failure = (session.executeAll load statements).failure ∧
      (session.executeAll load statements).session.SameContents
        (session.add load line number path).session := by
  have entered : session.Agrees session.results session.results
      (session.enter path ⟨line, number⟩) :=
    ⟨rfl, rfl, rfl, rfl, [], by simp, by simp [enter, withReporter]⟩
  obtain ⟨failure, agrees⟩ := entered.executeAll load load plain (executeAll_not_tooDeep plain)
  rw [add_of_parsed parsed]
  refine ⟨(Outcome.endsLike_withReporter _ _).1.trans failure, ?_⟩
  obtain ⟨next, executed, both⟩ | ⟨final, _, executed, both⟩ := Outcome.andThen_cases
    ((session.enter path ⟨line, number⟩).executeAll load statements) fun next =>
      .done (next.withReporter (·.forgetLine (if path = "" then session.path else path)))
  · rw [both]
    rw [executed] at agrees
    exact agrees.sameContents.withReporter (·.forgetLine (if path = "" then session.path else path))
  · rw [both]
    rw [executed] at agrees
    exact agrees.sameContents

/-- Statements up to the first that fails decide what comes of all of them. -/
theorem executeAll_of_fails {load : String → Session → Outcome} {session alone final : Session}
    {earlier : List Statement} {failing : Statement} {failure : Failure}
    (executed : session.executeAll load earlier = .done alone)
    (fails : alone.execute load failing = .failed final failure) (later : List Statement) :
    session.executeAll load (earlier ++ failing :: later) = .failed final failure := by
  rw [executeAll_append, executed, Outcome.done_andThen, executeAll]
  exact Outcome.andThen_of_failed fails _

/-- In a line with several statements none loads a file. -/
theorem plain_of_fails {line : String} {earlier later : List Statement} {failing : Statement}
    (parsed : Statement.parse line = .ok (earlier ++ failing :: later))
    (plain : ∀ path, failing.action ≠ .load path) :
    ∀ statement ∈ earlier ++ failing :: later, ∀ path, statement.action ≠ .load path := by
  intro statement member path loads
  have alone := Statement.alone_of_load parsed member loads
  have among : failing ∈ earlier ++ failing :: later := List.mem_append_right _ List.mem_cons_self
  rw [alone, List.mem_singleton] at among
  exact plain path (among ▸ loads)

/-- A line that cannot be read fails for that reason and leaves all contents of the session as they
    were. Of a line that can be read, let a statement fail that loads no file, after those before
    it are done. Then the line fails for the same reason, and the contents are those that the
    statements before it leave behind. If no statement of a line loads a file, either one of them is
    the first to fail, or the line is done and the contents are those that all statements leave
    behind. -/
theorem failed_line_keeps_contents (load : String → Session → Outcome) (session : Session)
    (line : String) (number : Option Int) (path : String) :
    (∀ error, Statement.parse line = .error error →
      ∃ final, session.add load line number path = .failed final (.fault (.malformed error)) ∧
        session.SameContents final) ∧
    (∀ earlier failing later alone stopped failure,
      Statement.parse line = .ok (earlier ++ failing :: later) →
      (∀ file, failing.action ≠ .load file) →
      session.executeAll load earlier = .done alone →
      alone.execute load failing = .failed stopped failure →
      ∃ final, session.add load line number path = .failed final failure ∧
        alone.SameContents final) ∧
    (∀ statements, Statement.parse line = .ok statements →
      (∀ statement ∈ statements, ∀ file, statement.action ≠ .load file) →
      (∃ earlier failing later alone failure, statements = earlier ++ failing :: later ∧
        session.executeAll load earlier = .done alone ∧
        alone.execute load failing = .failed alone failure) ∨
      ∃ alone final, session.executeAll load statements = .done alone ∧
        session.add load line number path = .done final ∧ alone.SameContents final) := by
  refine ⟨?_, ?_, ?_⟩
  · intro error parsed
    exact ⟨_, add_of_malformed parsed load session number path, rfl, rfl, rfl, rfl, rfl⟩
  · intro earlier failing later alone stopped failure parsed plain executed fails
    obtain ⟨rfl, _⟩ := execute_eq_failed plain fails
    obtain ⟨reason, same⟩ :=
      add_sameContents parsed (plain_of_fails parsed plain) load session number path
    rw [executeAll_of_fails executed fails later] at reason same
    exact ⟨_, congrArg (Outcome.mk _) reason, same⟩
  · intro statements parsed plain
    obtain ⟨reason, same⟩ := add_sameContents parsed plain load session number path
    cases ended : session.executeAll load statements with | mk alone failure
    cases failure with
    | none =>
      rw [ended] at reason same
      exact .inr ⟨alone, _, rfl, congrArg (Outcome.mk _) reason, same⟩
    | some failure =>
      obtain ⟨earlier, failing, later, next, rfl, executed, fails⟩ := executeAll_eq_failed ended
      have isPlain := plain failing (List.mem_append_right _ List.mem_cons_self)
      obtain ⟨rfl, _⟩ := execute_eq_failed isPlain fails
      exact .inl ⟨earlier, failing, later, alone, failure, rfl, executed, fails⟩

/-- The bindings of this session form a cycle. A line that begins with a binding cannot be read and
    binds nothing; of three bindings the second refers to itself, so that only the first is made;
    and a term that runs into the cycle leaves the queue of results as it was. -/
theorem failed_line_keeps_contents_cyclic :
    let session : Session := {
      path := consolePath, environment := .ofList [("a", .var "b"), ("b", .var "a")], limit := 1000
      strategy := .normal, results := [⟨.var "z", 0, false⟩], exited := false
      reporter := Reporter.create true false }
    let load := Script.run (fun _ => none) 1
    let extended := { session with environment := session.environment.set "c" (.var "y") }
    (∃ error final, session.add load "c = y; c )" none "" =
      .failed final (.fault (.malformed error)) ∧
      session.SameContents final) ∧
    (∃ final, session.add load "c = y; d = d; e = y" none "" =
        .failed final (.fault (.recursiveBinding "d = d" "d")) ∧ extended.SameContents final) ∧
    ∃ final, session.add load "a" none "" =
      .failed final (.fault (.cyclicBinding "a" ["a", "b", "a"])) ∧
      session.SameContents final := by
  intro session load extended
  refine ⟨?_, ?_, ?_⟩
  · obtain ⟨malformed, _, _⟩ := failed_line_keeps_contents load session "c = y; c )" none ""
    cases parsed : Statement.parse "c = y; c )" with
    | ok statements =>
      have unread : (Statement.parse "c = y; c )").toOption = none := by with_unfolding_all rfl
      rw [parsed] at unread
      cases unread
    | error error => exact ⟨error, malformed error parsed⟩
  · obtain ⟨_, stops, _⟩ := failed_line_keeps_contents load session "c = y; d = d; e = y" none ""
    have parsed : Statement.parse "c = y; d = d; e = y" =
        .ok ([⟨.bind "c" (.var "y"), "c = y"⟩] ++ ⟨.bind "d" (.var "d"), "d = d"⟩ ::
          [⟨.bind "e" (.var "y"), "e = y"⟩]) := by with_unfolding_all rfl
    have executed : session.executeAll load [⟨.bind "c" (.var "y"), "c = y"⟩] =
        .done (extended.withReporter (noticeOf "binding " "c" " added")) := by
          with_unfolding_all rfl
    obtain ⟨final, fails, same⟩ :=
      stops _ _ _ _ _ _ parsed (by simp) executed (by with_unfolding_all rfl)
    exact ⟨final, fails, same.environment, same.limit, same.strategy, same.exited, same.results⟩
  · obtain ⟨_, stops, _⟩ := failed_line_keeps_contents load session "a" none ""
    have parsed : Statement.parse "a" = .ok ([] ++ ⟨.evaluate (.var "a"), "a"⟩ :: []) := by
      with_unfolding_all rfl
    exact stops _ _ _ _ _ _ parsed (by simp) rfl (by with_unfolding_all rfl)

end UntypedLambda.Session
