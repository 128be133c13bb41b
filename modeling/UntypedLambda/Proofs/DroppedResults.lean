import UntypedLambda.Proofs.FailedLines
import UntypedLambda.Proofs.SessionChanges
import UntypedLambda.Proofs.ShellHistory
import UntypedLambda.Proofs.TypedScripts

/-!
# Results that the shell drops

The shell drops all results as soon as a line is done, since they have been printed by then. A line
that fails is not done. If it loads no file, nothing has been reduced before it fails. But a file
may have reduced terms before one of its lines fails, and what was reduced then stays in the queue
until some later line is done.
-/

namespace UntypedLambda

namespace Session

/-- Binding queues no result. -/
theorem results_bind (session : Session) (name : Name) (term : Term) (source : String) :
    (session.bind name term source).session.results = session.results := by
  unfold bind
  split
  · rfl
  · split <;> rfl

/-- Bindings queue no result, whether or not one of them is refused. -/
theorem results_executeAll_of_binds (load : String → Session → Outcome) (session : Session)
    {statements : List Statement}
    (binds : ∀ statement ∈ statements, ∃ name term, statement.action = .bind name term) :
    (session.executeAll load statements).session.results = session.results := by
  induction statements generalizing session with
  | nil => rfl
  | cons statement statements inductionHypothesis =>
    rw [List.forall_mem_cons] at binds
    obtain ⟨⟨name, term, isBind⟩, others⟩ := binds
    have first : (session.execute load statement).session.results = session.results := by
      rw [execute, isBind]
      exact session.results_bind name term statement.source
    rw [executeAll]
    obtain ⟨next, executed, both⟩ | ⟨final, failure, executed, both⟩ :=
      (session.execute load statement).andThen_cases fun next => next.executeAll load statements
    · rw [both, inductionHypothesis next others, ← first, executed]
      rfl
    · rw [both, ← first, executed]

/-- A line that fails without loading a file has reduced nothing: what stands before another
    statement is a binding, as anything else has a line to itself. -/
theorem results_of_plain_failure {load : String → Session → Outcome} {session final : Session}
    {line path : String} {number : Option Int} {failure : Failure}
    (fails : session.add load line number path = .failed final failure)
    (plain : ∀ file, ¬ Script.Asks line file) : final.results = session.results := by
  obtain ⟨_, _, rfl, _⟩ | ⟨statements, parsed, fails⟩ := add_eq_failed fails
  · rfl
  obtain ⟨earlier, failing, later, next, rfl, executed, fails⟩ := executeAll_eq_failed fails
  have among : failing ∈ earlier ++ failing :: later := List.mem_append_right _ List.mem_cons_self
  have noLoad : ∀ file, failing.action ≠ .load file :=
    fun file loads => plain file ⟨_, parsed, failing, among, loads⟩
  obtain ⟨rfl, _⟩ := execute_eq_failed noLoad fails
  have binds : ∀ statement ∈ earlier, ∃ name term, statement.action = .bind name term := by
    intro statement member
    by_contra other
    push Not at other
    have alone := Statement.alone_unless_binds parsed (List.mem_append_left _ member) other
    have length := congrArg List.length alone
    have positive : 0 < earlier.length := List.length_pos_of_mem member
    simp only [List.length_append, List.length_cons, List.length_nil] at length
    omega
  have kept := results_executeAll_of_binds load (session.enter path ⟨line, number⟩) binds
  rw [executed] at kept
  exact kept

end Session

namespace Shell

/-- What comes of executing the pending text with a line joined to it. -/
def executed (load : String → Session → Outcome) (shell : Shell) (line : String) : Outcome :=
  shell.session.add load (Layout.joined shell.pending line) (some (shell.lineNumber + 1 : Nat)) ""

/-- A typed line fails while it loads a file, after terms have been reduced. -/
def Strands (load : String → Session → Outcome) (shell : Shell) (line : String) : Prop :=
  ∃ text path, shell.takeLine load line = shell.enter load text ∧
    Script.Asks (Layout.joined shell.pending text) path ∧
    (shell.executed load text).failure ≠ none ∧ shell.performed load text ≠ []

/-- The shells after each of some typed lines. Files may change from one line to the next. -/
def afterEach (depth : Nat) (shell : Shell) : List (Files × String) → List Shell
  | [] => []
  | (files, line) :: lines =>
    let next := (shell.takeLine (Script.run files depth) line).shell
    next :: next.afterEach depth lines

/-- None of some typed lines fails while it loads a file, after terms have been reduced. -/
def StrandsNone (depth : Nat) (shell : Shell) : List (Files × String) → Prop
  | [] => True
  | (files, line) :: lines =>
    ¬ shell.Strands (Script.run files depth) line ∧
      (shell.takeLine (Script.run files depth) line).shell.StrandsNone depth lines

/-- A line that is closed and fails leaves the results that it found and those that it has added. -/
theorem results_enter_of_failed {files : Files} {depth : Nat} {shell : Shell} {line : String}
    {final : Session} {failure : Failure}
    (closed : Layout.isContinued (Layout.joined shell.pending line) = false)
    (fails : shell.executed (Script.run files depth) line = .failed final failure) :
    (shell.enter (Script.run files depth) line).shell.session.results = final.results ∧
      final.results = shell.session.results ++ shell.performed (Script.run files depth) line := by
  have evolves : Session.Evolves shell.session
      (shell.executed (Script.run files depth) line).session :=
    Session.evolves_add files depth ..
  rw [fails] at evolves
  constructor
  · rw [enter_of_failed closed fails]
  · unfold executed at fails
    rw [performed, if_neg (Bool.eq_false_iff.mp closed), fails]
    exact (List.prefix_iff_eq_append.mp evolves.results_prefix).symm

/-- If the queue is empty before a line is entered and not empty afterwards, the line has failed
    while it was loading a file, after terms were reduced. -/
theorem exists_asks_of_results_enter {files : Files} {depth : Nat} {shell : Shell} {line : String}
    (empty : shell.session.results = [])
    (left : (shell.enter (Script.run files depth) line).shell.session.results ≠ []) :
    ∃ path, Script.Asks (Layout.joined shell.pending line) path ∧
      (shell.executed (Script.run files depth) line).failure ≠ none ∧
      shell.performed (Script.run files depth) line ≠ [] := by
  cases continued : Layout.isContinued (Layout.joined shell.pending line) with
  | true =>
    rw [(enter_of_continued _ shell continued).1] at left
    exact absurd empty left
  | false =>
    cases ended : shell.executed (Script.run files depth) line with | mk final failure
    cases failure with
    | none =>
      rw [(enter_of_done continued ended).1] at left
      exact absurd rfl left
    | some failure =>
      obtain ⟨results, added⟩ := results_enter_of_failed continued ended
      rw [results] at left
      by_cases asks : ∃ path, Script.Asks (Layout.joined shell.pending line) path
      · obtain ⟨path, asks⟩ := asks
        refine ⟨path, asks, Option.some_ne_none failure, fun none => left ?_⟩
        rw [added, empty, none, List.append_nil]
      · refine absurd ?_ left
        rw [Session.results_of_plain_failure ended fun path isAsked => asks ⟨path, isAsked⟩, empty]

/-- If the queue is empty before a typed line, it is empty after the line unless the line fails
    while it loads a file, after terms have been reduced. -/
theorem results_takeLine_eq_nil_iff (files : Files) (depth : Nat) (shell : Shell) (line : String)
    (empty : shell.session.results = []) :
    (shell.takeLine (Script.run files depth) line).shell.session.results = [] ↔
      ¬ shell.Strands (Script.run files depth) line := by
  constructor
  · rintro dropped ⟨text, path, entered, _, fails, performs⟩
    rw [entered] at dropped
    have closed : Layout.isContinued (Layout.joined shell.pending text) = false := by
      by_contra continued
      exact performs (enter_of_continued _ shell (eq_true_of_ne_false continued)).2
    cases ended : shell.executed (Script.run files depth) text with | mk final failure
    cases failure with
    | none => exact fails (by rw [ended])
    | some failure =>
      obtain ⟨results, added⟩ := results_enter_of_failed closed ended
      rw [results, added, empty, List.nil_append] at dropped
      exact performs dropped
  · intro strandsNone
    obtain ⟨text, entered⟩ | ⟨printed, verdict, answered⟩ :=
      shell.takeLine_cases (Script.run files depth) line
    · by_contra left
      rw [entered] at left
      obtain ⟨path, strands⟩ := exists_asks_of_results_enter empty left
      exact strandsNone ⟨text, path, entered, strands⟩
    · rw [answered]
      exact empty

/-- Let the queue of results be empty, and let any lines be typed, whatever files there are and
    whether or not the lines fail. The queue is empty after each of them exactly if none of them
    fails while it loads a file, after terms have been reduced. Whatever is in the queue, a line
    that is executed and done leaves it empty, and one that fails adds to it what was reduced. -/
theorem results_are_dropped (depth : Nat) (shell : Shell) :
    (∀ lines, shell.session.results = [] →
      ((∀ next ∈ shell.afterEach depth lines, next.session.results = []) ↔
        shell.StrandsNone depth lines)) ∧
    ∀ files line text, shell.takeLine (Script.run files depth) line =
        shell.enter (Script.run files depth) text →
      Layout.isContinued (Layout.joined shell.pending text) = false →
      (∀ next, shell.executed (Script.run files depth) text = .done next →
        (shell.takeLine (Script.run files depth) line).shell.session.results = []) ∧
      (∀ final failure, shell.executed (Script.run files depth) text = .failed final failure →
        (shell.takeLine (Script.run files depth) line).shell.session.results =
          shell.session.results ++ shell.performed (Script.run files depth) text) := by
  constructor
  · intro lines empty
    induction lines generalizing shell with
    | nil => simp [afterEach, StrandsNone]
    | cons typed lines inductionHypothesis =>
      obtain ⟨files, line⟩ := typed
      rw [afterEach, StrandsNone, List.forall_mem_cons, ← results_takeLine_eq_nil_iff files depth
        shell line empty]
      exact and_congr_right fun dropped => inductionHypothesis _ dropped
  · intro files line text entered closed
    rw [entered]
    constructor
    · intro next done
      rw [(enter_of_done closed done).1]
      rfl
    · intro final failure fails
      obtain ⟨results, added⟩ := results_enter_of_failed closed fails
      exact results.trans added

/-- A file whose first line is reduced before its second one fails, and a file that does not
    fail. -/
def strandingScript : Files := fun path =>
  if path = "a.lc" then some "x\ny )" else if path = "b.lc" then some "x\ny" else none

/-- Loading a file that does not fail leaves nothing in the queue, nor do lines that fail otherwise.
    A line that is done empties a queue that was not empty. -/
theorem results_are_dropped_after_load :
    let session : Session :=
      ⟨consolePath, .empty, 1000, .normal, [], false,
        (Reporter.create false false).registerFile consolePath⟩
    let kept := { session with results := [⟨.var "x", 0, false⟩] }
    let load := Script.run strandingScript 1
    let lines := ["x", ":load \"b.lc\"", "x )", ":load \"c.lc\"", "(x", "y)"].map fun line =>
      (strandingScript, line)
    (∀ next ∈ (create session).afterEach 1 lines, next.session.results = []) ∧
      (create session).StrandsNone 1 lines ∧
      ((create kept).takeLine load "y").shell.session.results = [] := by
  intro session kept load lines
  obtain ⟨dropped, _⟩ := results_are_dropped 1 (create session)
  have empty : ∀ next ∈ (create session).afterEach 1 lines, next.session.results = [] := by
    decide +kernel
  obtain ⟨_, executes⟩ := results_are_dropped 1 (create kept)
  have entered : (create kept).takeLine load "y" = (create kept).enter load "y" := by
    have stripped : Blank.strip "y".toList = ['y'] := by decide +kernel
    rw [takeLine, stripped]
    simp [command, isWordChar]
  have ends : ((create kept).executed load "y").failure = none :=
    Option.isNone_iff_eq_none.mp (by decide +kernel)
  have done : (create kept).executed load "y" =
      .done ((create kept).executed load "y").session := by
    rw [Outcome.done, ← ends]
  exact ⟨empty, (dropped lines rfl).mp empty,
    (executes strandingScript "y" "y" entered (by decide +kernel)).1 _ done⟩

/-- A file that fails leaves what it has reduced in the queue of a new shell. -/
theorem failing_load_strands_result : ∃ shell, Reachable shell ∧ shell.session.results = [] ∧
    (shell.takeLine (Script.run strandingScript 1) ":load \"a.lc\"").shell.session.results =
      [⟨.var "x", 0, false⟩] := by
  refine ⟨_, .started true false {} rfl (by with_unfolding_all rfl), rfl, ?_⟩
  decide +kernel

end Shell

end UntypedLambda
