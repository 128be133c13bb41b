import UntypedLambda.Proofs.ShellHistory

/-!
# What escapes a typed line

Whatever is typed, executing it ends well or with a fault, which the reporter deals with, so
that the shell goes on. There is one exception: a path with a null character is never looked
for among the files. Loading it fails with something that is no fault, and that is what ends
the shell, whether the path was typed or stands in a file that is loaded.
-/

namespace UntypedLambda

namespace Script

/-- The files that a text asks for. -/
def askedPaths (text : String) : List String :=
  match Statement.parse text with
  | .error _ => []
  | .ok statements => statements.filterMap fun statement =>
    match statement.action with
    | .load path => some path
    | _ => none

/-- A text asks for no other files. -/
theorem mem_askedPaths {text path : String} (asks : Asks text path) : path ∈ askedPaths text := by
  obtain ⟨statements, parsed, statement, member, loads⟩ := asks
  simp only [askedPaths, parsed]
  exact List.mem_filterMap.mpr ⟨statement, member, by rw [loads]⟩

/-- A file loads no others than those that its logical lines ask for. -/
theorem mem_of_loads {files : Files} {outer inner : String} (loads : Loads files outer inner) :
    inner ∈ ((files outer).elim [] logicalLines).flatMap fun line => askedPaths line.text := by
  obtain ⟨text, found, line, member, asks⟩ := loads
  rw [found]
  exact List.mem_flatMap.mpr ⟨line, member, mem_askedPaths asks⟩

/-- Loads that nest a number of times below a file. -/
inductive Chain (files : Files) : String → Nat → Prop where
  | none (path : String) : Chain files path 0
  | loads {outer inner : String} {count : Nat} (loads : Loads files outer inner)
      (chain : Chain files inner count) : Chain files outer (count + 1)

/-- What bounds each of finitely many sets of numbers bounds all of them. -/
theorem exists_common_bound (holds : String → Nat → Prop) (paths : List String)
    (bounded : ∀ path ∈ paths, ∃ bound, ∀ count, holds path count → count < bound) :
    ∃ bound, ∀ path ∈ paths, ∀ count, holds path count → count < bound := by
  induction paths with
  | nil => exact ⟨0, by simp⟩
  | cons path paths inductionHypothesis =>
    rw [List.forall_mem_cons] at bounded
    obtain ⟨⟨first, isFirst⟩, others⟩ := bounded
    obtain ⟨rest, isRest⟩ := inductionHypothesis others
    refine ⟨first + rest, List.forall_mem_cons.mpr ⟨fun count held => ?_,
      fun other member count held => ?_⟩⟩
    · exact Nat.lt_add_right rest (isFirst count held)
    · exact Nat.lt_add_left first (isRest other member count held)

/-- If no loads nest forever below a file, then they nest only so deep, as every file loads
    finitely many others. -/
theorem Chain.exists_bound {files : Files} {path : String}
    (ends : Acc (fun inner outer => Loads files outer inner) path) :
    ∃ bound, ∀ count, Chain files path count → count < bound := by
  induction ends with
  | intro outer _ inductionHypothesis =>
    have each (inner : String) :
        ∃ bound, ∀ count, Loads files outer inner ∧ Chain files inner count → count < bound := by
      by_cases loads : Loads files outer inner
      · obtain ⟨bound, isBound⟩ := inductionHypothesis inner loads
        exact ⟨bound, fun count held => isBound count held.2⟩
      · exact ⟨0, fun count held => absurd held.1 loads⟩
    obtain ⟨bound, isBound⟩ := exists_common_bound
      (fun inner count => Loads files outer inner ∧ Chain files inner count)
      (((files outer).elim [] logicalLines).flatMap fun line => askedPaths line.text)
        fun inner _ => each inner
    refine ⟨bound + 1, fun count chain => ?_⟩
    cases chain with
    | none => exact Nat.succ_pos bound
    | loads loads chain =>
      exact Nat.succ_lt_succ (isBound _ (mem_of_loads loads) _ ⟨loads, chain⟩)

/-- What a text comes to load stands at the end of loads that nest below a file that it asks for. -/
theorem Reaches.exists_chain {files : Files} {text path : String} {count more : Nat}
    (reaches : Reaches files text count path) (chain : Chain files path more) :
    ∃ first ∈ askedPaths text, Chain files first (count + more) := by
  induction reaches generalizing more with
  | asked asks => exact ⟨_, mem_askedPaths asks, by rwa [Nat.zero_add]⟩
  | loaded _ loads inductionHypothesis =>
    obtain ⟨first, member, whole⟩ := inductionHypothesis (.loads loads chain)
    exact ⟨first, member, by rwa [Nat.add_right_comm]⟩

/-- If no loads nest forever, then those of a text nest only so deep. -/
theorem exists_depth {files : Files} (ends : WellFounded fun inner outer => Loads files outer inner)
    (text : String) : ∃ bound, ∀ count path, Reaches files text count path → count < bound := by
  obtain ⟨bound, isBound⟩ := exists_common_bound (Chain files) (askedPaths text) fun path _ =>
    Chain.exists_bound (ends.apply path)
  refine ⟨bound, fun count path reaches => ?_⟩
  obtain ⟨first, member, chain⟩ := reaches.exists_chain (.none path)
  exact isBound first member count chain

end Script

/-- A text may come to load a path with a null character. -/
def Script.ReachesNull (files : Files) (text : String) : Prop :=
  ∃ count path, Reaches files text count path ∧ '\x00' ∈ path.toList

/-- A typed line that fails does so with a fault, or because it comes to load a path with a null
    character, or because its loads nest as deep as is allowed. -/
theorem Script.Refused.classified {files : Files} {depth left : Nat} {start session : Session}
    {typed : TrailLine} {nesting : Nesting} {focus : Focus} {failure : Failure}
    (underway : Underway files depth start typed left nesting session focus)
    (refused : Refused left focus failure) :
    (∃ fault, failure = .fault fault) ∨ (failure = .nullInPath ∧ ReachesNull files typed.text) ∨
    (failure = .tooDeep ∧ ∃ path, Reaches files typed.text depth path) := by
  obtain ⟨count, _, total, reaches⟩ := underway.reaches
  cases refused with
  | malformed parsed => exact .inl ⟨_, rfl⟩
  | fault statement fault => exact .inl ⟨fault, rfl⟩
  | nullInPath null => exact .inr (.inl ⟨rfl, count, _, reaches _ rfl, null⟩)
  | tooDeep =>
    obtain rfl : count = depth := total
    exact .inr (.inr ⟨rfl, _, reaches _ rfl⟩)

namespace Shell

/-- What escapes a typed line is a path with a null character that the line comes to load. -/
theorem verdict_of_takeLine {shell : Shell} (rest : AtRest shell.session) (files : Files)
    (depth : Nat) (line : String) :
    (∃ stop, (shell.takeLine (Script.run files depth) line).verdict = .ok stop) ∨
    (shell.takeLine (Script.run files depth) line).verdict = .error .nullInPath ∧
      ∃ text, shell.takeLine (Script.run files depth) line =
        shell.enter (Script.run files depth) text ∧
        Script.ReachesNull files (Layout.joined shell.pending text) := by
  obtain ⟨text, entered⟩ | ⟨printed, verdict, answered⟩ :=
    shell.takeLine_cases (Script.run files depth) line
  · obtain ⟨_, answered⟩ | ⟨next, _, answered⟩ | ⟨final, failure, added, answered⟩ :=
      shell.enter_cases (Script.run files depth) text
    · exact .inl ⟨_, by rw [entered, answered]⟩
    · exact .inl ⟨_, by rw [entered, answered]⟩
    have settles := Session.add_settles files depth shell.session
      (Layout.joined shell.pending text) (some (shell.lineNumber + 1 : Nat)) ""
    rw [added] at settles
    obtain ⟨left, _, focus, underway, refused⟩ := Script.Underway.exists_refused
      ⟨Layout.joined shell.pending text, some (shell.lineNumber + 1 : Nat)⟩ added
    obtain remaining | ⟨rfl, remaining⟩ :=
      (refused.guard final.reporter (settles.fatal.trans rest.lenient)).2.2
    · exact .inl ⟨_, by rw [entered, answered, remaining]⟩
    · refine .inr ⟨by rw [entered, answered, remaining], text, entered, ?_⟩
      obtain ⟨_, isFault⟩ | ⟨_, reaches⟩ | ⟨isDepth, _⟩ := refused.classified underway
      · cases isFault
      · exact reaches
      · cases isDepth
  · exact .inl ⟨verdict, by rw [answered]⟩

/-- In a shell that was reached by typing lines, a line that fails does so with a fault, unless it
    comes to load a path with a null character or its loads nest as deep as is allowed, and
    that is impossible from some depth on if no loads nest forever. A moment at which such a
    path is to be loaded does end the line. So the shell goes on after every line that comes
    to load no such path. A file is on the trail when it is taken off. -/
theorem only_faults_arise {shell : Shell} (reachable : Reachable shell) (files : Files)
    (depth : Nat) :
    (∀ text number final failure,
      shell.session.add (Script.run files depth) text number "" = .failed final failure →
      (∃ fault, failure = .fault fault) ∨ (failure = .nullInPath ∧ Script.ReachesNull files text) ∨
      (failure = .tooDeep ∧ ∃ path, Script.Reaches files text depth path)) ∧
    (WellFounded (fun inner outer => Script.Loads files outer inner) → ∀ text,
      ∃ bound, ∀ count path, Script.Reaches files text count path → count < bound) ∧
    (∀ typed left nesting session path source,
      Script.Underway files depth shell.session typed (left + 1) nesting session
        (.statement ⟨.load path, source⟩) →
      '\x00' ∈ path.toList →
      shell.session.add (Script.run files depth) typed.text typed.number "" =
        .failed session .nullInPath) ∧
    (∀ line, (∃ stop, (shell.takeLine (Script.run files depth) line).verdict = .ok stop) ∨
      (shell.takeLine (Script.run files depth) line).verdict = .error .nullInPath ∧
        ∃ text, shell.takeLine (Script.run files depth) line =
            shell.enter (Script.run files depth) text ∧
          Script.ReachesNull files (Layout.joined shell.pending text)) ∧
    (∀ path (session : Session) lines next, path ≠ "" →
      Script.runLines (Script.run files depth) path
        (session.withReporter (·.registerFile path)) lines =
        .done next →
      path ∈ next.reporter.trail.keys) := by
  refine ⟨?_, Script.exists_depth, ?_, verdict_of_takeLine reachable.atRest files depth, ?_⟩
  · intro text number final failure fails
    obtain ⟨_, _, _, underway, refused⟩ := Script.Underway.exists_refused ⟨text, number⟩ fails
    exact refused.classified underway
  · intro typed left nesting session path source underway null
    refine underway.add_eq_failed ?_
    simp only [Script.Focus.outcome, Session.execute, Script.run, Script.runWith, if_pos null]
  · intro path session lines next named done
    exact Script.contains_of_runLines named ((OrderedMap.mem_keys_setEntry ..).mpr (.inl rfl)) done

/-- Where there are no files, a new shell goes on after every line but one that has a path with
    a null character in it. -/
theorem only_faults_arise_without_files : ∃ shell, Reachable shell ∧
    ∀ line, (∃ stop, (shell.takeLine (Script.run (fun _ => none) 1) line).verdict = .ok stop) ∨
      ∃ text path, Script.Asks (Layout.joined "" text) path ∧ '\x00' ∈ path.toList := by
  refine ⟨_, .started true false {} rfl (by with_unfolding_all rfl), fun line => ?_⟩
  have reachable := Reachable.started true false {} rfl (by with_unfolding_all rfl)
  obtain goesOn | ⟨_, text, _, count, path, reaches, null⟩ :=
    (only_faults_arise reachable (fun _ => none) 1).2.2.2.1 line
  · exact .inl goesOn
  · cases reaches with
    | asked asks => exact .inr ⟨text, path, asks, null⟩
    | loaded _ loads =>
      obtain ⟨_, found, _⟩ := loads
      cases found

/-- A null character in a typed path escapes from a new shell. -/
theorem null_in_path_escapes : ∃ shell, Reachable shell ∧
    (shell.takeLine (Script.run (fun _ => none) 1) ":load \"a\x00b\"").verdict =
      .error .nullInPath := by
  refine ⟨_, .started true false {} rfl (by with_unfolding_all rfl), ?_⟩
  with_unfolding_all rfl

end Shell

end UntypedLambda
