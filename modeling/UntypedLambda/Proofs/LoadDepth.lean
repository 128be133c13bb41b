import Mathlib.Logic.Relation
import UntypedLambda.Proofs.EscapedFailures
import UntypedLambda.Proofs.ScriptCalls

/-!
# How deep loads nest

Loading a file fails because loads nest too deep only if there are loads of files, each in
the one before, as many as are allowed. So if no loads nest forever below a file, then from
some depth on it does not fail for this reason. Conversely, a file that is executed to its
end has executed all files that its lines ask for; so loads nest below it less deep than
is allowed, and it is not among the files that it loads.

Loading a file depends on no other files than those that it comes to load.
-/

namespace UntypedLambda

namespace Script

variable {files : Files}

/-- A file fails with a fault, or because of a path with a null character, or because loads nest
    too deep. In the last case it begins loads that nest as deep as is allowed. -/
theorem failure_cases {depth : Nat} {path : String} {session final : Session} {failure : Failure}
    (fails : run files depth path session = .failed final failure) :
    (∃ fault, failure = .fault fault) ∨ failure = .nullInPath ∨
      failure = .tooDeep ∧ Chain files path depth := by
  induction depth generalizing path session with
  | zero =>
    cases fails
    exact .inr (.inr ⟨rfl, .none path⟩)
  | succ depth inductionHypothesis =>
    obtain ⟨_, isFault | ⟨_, isNull⟩ | ⟨isZero, _⟩⟩ |
        ⟨before, text, isDepth, plain, found, fails⟩ :=
      Underway.run_eq_failed fails
    · exact .inl isFault
    · exact .inr (.inl isNull)
    · cases isZero
    obtain rfl : depth = before := Nat.succ.inj isDepth
    obtain ⟨earlier, line, later, next, grouped, _, _, fails⟩ := runLines_eq_failed fails
    obtain ⟨error, _, _, isFault⟩ | ⟨statements, parsed, fails⟩ := Session.add_eq_failed fails
    · exact .inl ⟨_, isFault⟩
    obtain ⟨others, statement, rest, entered, split, _, fails⟩ := Session.executeAll_eq_failed fails
    obtain ⟨inner, loads, executes⟩ | ⟨fault, executes⟩ | ⟨after, executes, _⟩ :=
      Session.execute_cases (run files depth) entered statement
    · obtain isFault | isNull | ⟨isDeep, chain⟩ := inductionHypothesis (executes.symm.trans fails)
      · exact .inl isFault
      · exact .inr (.inl isNull)
      · refine .inr (.inr ⟨isDeep, .loads ⟨text, found, line, by simp [grouped], ?_⟩ chain⟩)
        exact ⟨statements, parsed, statement, by simp [split], loads⟩
    · cases executes.symm.trans fails
      exact .inl ⟨fault, rfl⟩
    · cases executes.symm.trans fails

/-- If no loads nest forever below a file, then from some depth on it does not fail because
    loads nest too deep. -/
theorem exists_depth_of_run {path : String}
    (ends : Acc (fun inner outer => Loads files outer inner) path) :
    ∃ bound, ∀ depth, bound ≤ depth → ∀ session,
      (run files depth path session).failure ≠ some .tooDeep := by
  obtain ⟨bound, isBound⟩ := Chain.exists_bound ends
  refine ⟨bound, fun depth deep session fails => ?_⟩
  cases ends : run files depth path session with
  | mk final failure =>
    rw [ends] at fails
    subst fails
    obtain ⟨_, isFault⟩ | isNull | ⟨_, chain⟩ := failure_cases ends
    · cases isFault
    · cases isNull
    · exact absurd (isBound depth chain) (Nat.not_lt.mpr deep)

/-- If lines are executed to their end without leaving the session, then each of them is done, and
    it has not left the session. -/
theorem add_of_runLines {load : String → Session → Outcome} {path : String}
    {session final : Session}
    {lines : List LogicalLine} (done : runLines load path session lines = .done final)
    (stays : final.exited = false) : ∀ line ∈ lines, ∃ before next,
      Session.add load before line.text (some line.number) path = .done next ∧
        next.exited = false := by
  induction lines generalizing session with
  | nil => simp
  | cons line lines inductionHypothesis =>
    obtain ⟨next, added, rest⟩ := Outcome.andThen_eq_done done
    cases exited : next.exited with
    | true =>
      rw [exited, if_pos rfl] at rest
      cases rest
      simp [stays] at exited
    | false =>
      rw [exited, if_neg Bool.false_ne_true] at rest
      exact List.forall_mem_cons.mpr ⟨⟨session, next, added, exited⟩, inductionHypothesis rest⟩

/-- If lines are executed to their end without leaving the session, then so are the files that they
    ask for. -/
theorem run_of_runLines {load : String → Session → Outcome} {path : String}
    {session final : Session}
    {lines : List LogicalLine} (done : runLines load path session lines = .done final)
    (stays : final.exited = false) {line : LogicalLine} (member : line ∈ lines) {inner : String}
    (asks : Asks line.text inner) :
    ∃ before next, load inner before = .done next ∧ next.exited = false := by
  obtain ⟨before, next, added, nextStays⟩ := add_of_runLines done stays line member
  rw [Session.add_of_asks asks] at added
  obtain ⟨after, loaded, forgets⟩ := Outcome.andThen_eq_done added
  cases forgets
  exact ⟨_, after, loaded, nextStays⟩

/-- If a file is executed to its end without leaving the session, then no loads nest forever below
    it. All its lines were executed, and so were those that ask for other files. -/
theorem acc_of_run {depth : Nat} {path : String} {session final : Session}
    (done : run files depth path session = .done final) (stays : final.exited = false) :
    Acc (fun inner outer => Loads files outer inner) path := by
  induction depth generalizing path session final with
  | zero => exact absurd done.symm Outcome.done_ne_failed
  | succ depth inductionHypothesis =>
    obtain ⟨_, text, next, ⟨rfl⟩, _, found, executed, rfl⟩ := run_eq_done done
    refine ⟨path, fun inner loads => ?_⟩
    obtain ⟨_, same, line, member, asks⟩ := loads
    cases found.symm.trans same
    obtain ⟨_, _, loaded, loadedStays⟩ := run_of_runLines executed stays member asks
    exact inductionHypothesis loaded loadedStays

/-- A file below which no loads nest forever is not among the files that it loads. -/
theorem acyclic_of_acc {path : String}
    (ends : Acc (fun inner outer => Loads files outer inner) path) :
    ¬ Relation.TransGen (Loads files) path path := by
  induction ends with
  | intro outer _ inductionHypothesis =>
    intro cycle
    obtain ⟨inner, loads, back⟩ := Relation.TransGen.head'_iff.mp cycle
    exact inductionHypothesis inner loads (.tail' back loads)

/-- The files that have been loaded by lines of a file, all of which are done without leaving the
    session, do not come to load that file. -/
theorem not_reaches_of_runLines {path text : String} (found : files path = some text) {left : Nat}
    {session final : Session} {lines : List LogicalLine}
    (done : runLines (run files left) path session lines = .done final)
    (stays : lines = [] ∨ final.exited = false) {line : LogicalLine} (member : line ∈ lines)
    (included : line ∈ logicalLines text) {inner : String} (asks : Asks line.text inner) :
    ¬ Relation.ReflTransGen (Loads files) inner path := by
  intro back
  obtain ⟨_, _, loaded, loadedStays⟩ :=
    run_of_runLines done (stays.resolve_left (List.ne_nil_of_mem member)) member asks
  exact acyclic_of_acc (acc_of_run loaded loadedStays)
    (.tail' back ⟨text, found, line, included, asks⟩)

end Script

namespace Session

/-- Statements have the same effect whatever loads a file, as long as the files that they load are
    loaded alike. -/
theorem executeAll_congr {load otherLoad : String → Session → Outcome} {statements : List Statement}
    (same : ∀ statement ∈ statements, ∀ path, statement.action = .load path →
      otherLoad path = load path)
    (session : Session) :
    session.executeAll otherLoad statements = session.executeAll load statements := by
  induction statements generalizing session with
  | nil => rfl
  | cons statement statements inductionHypothesis =>
    rw [List.forall_mem_cons] at same
    have executes : session.execute otherLoad statement = session.execute load statement := by
      unfold execute
      split <;> try rfl
      rename_i path loads
      rw [same.1 path loads]
    rw [executeAll, executeAll, executes]
    exact congrArg _ (funext (inductionHypothesis same.2))

/-- A line has the same effect whatever loads a file, as long as the files that it asks for are
    loaded alike. -/
theorem add_congr {load otherLoad : String → Session → Outcome} {line : String}
    (same : ∀ path, Script.Asks line path → otherLoad path = load path)
    (session : Session) (number : Option Int) (path : String) :
    session.add otherLoad line number path = session.add load line number path := by
  unfold add
  cases parsed : Statement.parse line with
  | error error => rfl
  | ok statements =>
    have executes (entered : Session) :
        entered.executeAll otherLoad statements = entered.executeAll load statements :=
      executeAll_congr (fun statement member inner loads =>
        same inner ⟨statements, parsed, statement, member, loads⟩) entered
    simp only [executes]

end Session

namespace Script

variable {files otherFiles : Files}

/-- Lines have the same effect whatever loads a file, as long as the files that they ask for are
    loaded alike. -/
theorem runLines_congr {load otherLoad : String → Session → Outcome} {lines : List LogicalLine}
    (same : ∀ line ∈ lines, ∀ path, Asks line.text path → otherLoad path = load path)
    (path : String) (session : Session) :
    runLines otherLoad path session lines = runLines load path session lines := by
  induction lines generalizing session with
  | nil => rfl
  | cons line lines inductionHypothesis =>
    rw [List.forall_mem_cons] at same
    rw [runLines, runLines, Session.add_congr same.1]
    simp only [inductionHypothesis same.2]

/-- Loading a file depends on no other files than itself and those that it comes to load. -/
theorem run_congr {path : String}
    (same : ∀ other, Relation.ReflTransGen (Loads files) path other →
      otherFiles other = files other)
    (depth : Nat) : run otherFiles depth path = run files depth path := by
  funext session
  induction depth generalizing path session with
  | zero => rfl
  | succ depth inductionHypothesis =>
    unfold run runWith
    rw [same path .refl]
    split
    · rfl
    cases found : files path with
    | none => rfl
    | some text =>
      have loads : ∀ line ∈ logicalLines text, ∀ inner, Asks line.text inner →
          run otherFiles depth inner = run files depth inner := by
        intro line member inner asks
        funext entered
        refine inductionHypothesis (fun other reaches => same other ?_) entered
        exact .head ⟨text, found, line, member, asks⟩ reaches
      simp only [runLines_congr loads]

end Script

end UntypedLambda
