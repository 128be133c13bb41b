import UntypedLambda.Proofs.AgreeingSessions
import UntypedLambda.Proofs.LoadDepth

/-!
# Loading a file is inlining it

A line that loads a file has the lines of the file executed, and then the file that it
stands in goes on. So the line may be replaced by the lines of the file, provided that they
leave no parenthesis open. What has failed or was left inside the loaded file has failed or
was left in the file that loads it, since the line does nothing else.

Inlining spares one level of nested loads. So the two scripts are compared as long as loads
do not nest too deep in the one that loads the file.
-/

namespace UntypedLambda

open Layout (bare together Closes isContinued)

/-- A string is one word of a text, whatever follows it. -/
theorem Token.Splits.string {inner following : List Char} {words : List Word}
    (unquoted : '"' ∉ inner)
    (rest : Splits following words) :
    Splits ('"' :: (inner ++ ['"']) ++ following)
      (⟨.string, '"' :: (inner ++ ['"'])⟩ :: words) := by
  have shaped : Shaped '"' (inner ++ ['"']) .string := ⟨rfl, inner, rfl, unquoted⟩
  exact .cons '"' (inner ++ ['"']) (shaped.lexeme_append trivial) rest

namespace Script

/-- The line that loads a file. -/
def loadLine (path : String) : String :=
  ":load \"" ++ path ++ "\""

section LoadLine

variable {path : String} (unquoted : '"' ∉ path.toList)
include unquoted

/-- The words of the line that loads a file, blanks among them. -/
theorem splits_loadLine : Token.Splits (loadLine path).toList
    [⟨.colon, [':']⟩, ⟨.name, "load".toList⟩, ⟨.blank, [' ']⟩,
      ⟨.string, '"' :: (path.toList ++ ['"'])⟩] := by
  have quoted := Token.Splits.string unquoted .nil
  have spaced := Token.Splits.space (by decide) quoted
  have named := Token.Splits.name (show Name.Valid "load" by decide)
    (by rintro c ⟨rfl⟩; decide) spaced
  have whole := Token.Splits.mark (show (':', TokenKind.colon) ∈ Token.punctuation by decide) named
  have characters : (loadLine path).toList =
      ':' :: ("load".toList ++ ' ' :: ('"' :: (path.toList ++ ['"']) ++ [])) := by
    simp [loadLine]
  exact characters ▸ whole

/-- The line that loads a file is a command to load it. -/
theorem derives_loadLine : Grammar.Line (Token.words (loadLine path)) [.load path] := by
  have words := (splits_loadLine unquoted).words_eq
  have command := Grammar.Command.load ⟨.name, "load".toList⟩
    ⟨.string, '"' :: (path.toList ++ ['"'])⟩
    rfl rfl rfl
  have content : String.ofList (List.drop 1 ('"' :: (path.toList ++ ['"']))).dropLast = path := by
    simp
  rw [content] at command
  rw [words]
  exact .command ⟨.colon, [':']⟩ rfl command

/-- The line that loads a file asks for it. -/
theorem asks_loadLine : Asks (loadLine path) path := by
  obtain ⟨statements, parsed, actions⟩ :=
    (Statement.parse_iff_derives _ _).mpr (derives_loadLine unquoted)
  obtain ⟨statement, rfl, loads⟩ := List.map_eq_singleton_iff.mp actions
  exact ⟨_, parsed, statement, List.mem_singleton_self statement, loads⟩

/-- There is no comment on the line that loads a file, and no blank at its ends. -/
theorem bare_loadLine : bare (loadLine path) = loadLine path := by
  have words := (splits_loadLine unquoted).map_word_scanFrom 0
  have uncommented : ∀ word ∈ (Token.scan (loadLine path)).map Token.word,
      word.kind ≠ .comment := by
    rw [Token.scan, words]
    simp
  have none : (Token.scan (loadLine path)).find? (·.kind = .comment) = none := by
    rw [List.find?_eq_none]
    intro token member
    simpa [Token.word] using uncommented token.word (List.mem_map_of_mem member)
  have trimmed : Blank.Trimmed (loadLine path) := by
    have characters : (loadLine path).toList =
        ':' :: ("load \"".toList ++ path.toList ++ ['"']) := by
      simp [loadLine]
    constructor
    · rw [characters]
      rintro c ⟨rfl⟩
      decide
    · rw [characters, ← List.cons_append, List.getLast?_concat]
      rintro c ⟨rfl⟩
      decide
  rw [bare, Layout.withoutComment, none, trimmed.stripped_eq]

/-- The line that loads a file is a logical line of its own. -/
theorem closes_loadLine : Closes [loadLine path] ∧ together [loadLine path] = loadLine path := by
  have nonempty : loadLine path ≠ "" := by simp [loadLine]
  have text : together [loadLine path] = loadLine path := by
    simp [together, bare_loadLine unquoted, nonempty]
  refine ⟨⟨List.cons_ne_nil _ _, ?_, ?_⟩, text⟩
  · intro first starts some
    exact absurd (List.prefix_nil.mp starts) some
  · rw [text]
    exact Layout.isContinued_of_line (derives_loadLine unquoted)

end LoadLine

/-- Lines that are executed after others, unless one of these leaves the session. -/
theorem runLines_append_unlessExited (load : String → Session → Outcome) (path : String)
    {session : Session} (stays : session.exited = false) (earlier later : List LogicalLine) :
    runLines load path session (earlier ++ later) = (runLines load path session earlier).andThen
      fun next => if next.exited then .done next else runLines load path next later := by
  induction earlier generalizing session with
  | nil => exact (if_neg (Bool.eq_false_iff.mp stays)).symm
  | cons line earlier inductionHypothesis =>
    rw [List.cons_append, runLines, runLines]
    obtain ⟨session, failure⟩ := session.add load line.text (some line.number) path
    cases failure with
    | some failure => rfl
    | none =>
      change (if session.exited then Outcome.done session
          else runLines load path session (earlier ++ later)) =
        (if session.exited then Outcome.done session
          else runLines load path session earlier).andThen _
      cases exited : session.exited with
      | true => simp [Outcome.done_andThen, exited]
      | false => exact inductionHypothesis exited

/-- The texts of logical lines do not depend on where they stand. -/
theorem map_text_groupFrom (number other : Nat) (lines : List String) :
    (groupFrom none number lines).map LogicalLine.text =
      (groupFrom none other lines).map LogicalLine.text := by
  have texts (first : Nat) (groups : List (List String)) :
      (numbered first groups).map LogicalLine.text = groups.map together := by
    induction groups generalizing first with
    | nil => rfl
    | cons group groups inductionHypothesis => simp [numbered, inductionHypothesis]
  obtain ⟨groups, grouping⟩ := exists_grouping lines
  rw [grouping.groupFrom_eq, grouping.groupFrom_eq, texts, texts]

/-- One text arises from another one by replacing a line that loads a file, which is a logical
    line of its own, by the lines of that file, the last of which is closed. -/
inductive Inlines (files : Files) (original inlined : String) : Prop where
  | intro {before after : List String} {inner text : String} (settled : Settled before)
      (unquoted : '"' ∉ inner.toList) (opens : Opens files inner text)
      (closed : Settled (Lines.ofFile text))
      (isOriginal : Lines.ofFile original = before ++ loadLine inner :: after)
      (isInlined : Lines.ofFile inlined = before ++ (Lines.ofFile text ++ after)) :
      Inlines files original inlined

variable {files otherFiles : Files} {before otherBefore : List Reduction}

/-- Executing the line that loads a file agrees with executing the lines of the file, if loading
    files agrees below it. -/
theorem load_agrees {inner text : String} (unquoted : '"' ∉ inner.toList)
    (opens : Opens files inner text)
    {left otherLeft : Nat}
    (loads : ∀ depth < left,
      Session.LoadsAgree before otherBefore (run files depth) (run otherFiles otherLeft))
    {session other : Session} (agrees : session.Agrees before otherBefore other)
    (stays : session.exited = false) (number otherNumber : Nat) (path otherPath : String) :
    (session.add (run files left) (loadLine inner) (some number) path).Agrees before otherBefore
      (runLines (run otherFiles otherLeft) otherPath other
        (groupFrom none otherNumber (Lines.ofFile text))) := by
  rw [Session.add_of_asks (asks_loadLine unquoted)]
  cases left with
  | zero => exact Outcome.agrees_tooDeep _ _
  | succ left =>
    rw [opens.run_eq left]
    apply Outcome.Agrees.withReporter_left
    apply Outcome.Agrees.withReporter_left
    have entered := agrees.withReporter (fun reporter =>
      (reporter.registerLine (if path = "" then session.path else path)
        ⟨loadLine inner, some number⟩).registerFile inner) id
    exact entered.runLines stays (loads left (Nat.lt_succ_self left)) inner otherPath
      (map_text_groupFrom otherNumber 1 (Lines.ofFile text))

/-- Executing a text agrees with executing it with a file inlined, if loading files agrees. Where
    both have executed the lines before, the one loads the file and the other has its lines. -/
theorem Inlines.lines_agree {original inlined : String} (inlines : Inlines files original inlined)
    {left otherLeft : Nat}
    (loads : ∀ depth ≤ left,
      Session.LoadsAgree before otherBefore (run files depth) (run otherFiles otherLeft))
    {session other : Session} (agrees : session.Agrees before otherBefore other)
    (stays : session.exited = false) (path otherPath : String) :
    (runLines (run files left) path session (logicalLines original)).Agrees before otherBefore
      (runLines (run otherFiles otherLeft) otherPath other (logicalLines inlined)) := by
  obtain ⟨settled, unquoted, opens, closed, isOriginal, isInlined⟩ := inlines
  have here := loads left (Nat.le_refl left)
  obtain ⟨closes, isText⟩ := closes_loadLine unquoted
  rw [logicalLines, logicalLines, isOriginal, isInlined, settled.groupFrom_append,
    settled.groupFrom_append, closed.groupFrom_append, ← List.singleton_append,
    groupFrom_closes _ closes, isText,
    runLines_append_unlessExited _ _ stays,
    runLines_append_unlessExited _ _ (agrees.exited.trans stays)]
  refine (agrees.runLines stays here path otherPath rfl).unlessExited
    fun middle otherMiddle sessions goesOn => ?_
  rw [runLines, runLines_append_unlessExited _ _ (sessions.exited.trans goesOn)]
  refine (load_agrees unquoted opens (fun depth less => loads depth (Nat.le_of_lt less))
    sessions goesOn _ _ path otherPath).unlessExited
    fun last otherLast lastSessions stillGoesOn => ?_
  exact lastSessions.runLines stillGoesOn here path otherPath (map_text_groupFrom _ _ _)

/-- Files of which some have others inlined. -/
def InlinedIn (files otherFiles : Files) : Prop :=
  ∀ path, otherFiles path = files path ∨
    ∃ original inlined, files path = some original ∧ otherFiles path = some inlined ∧
      Inlines files original inlined

/-- A file with another one inlined agrees with it, and so do all files that load it, as long as
    loads do not nest too deep. The lines of an inlined file were nested one level deeper, so the
    induction is on any smaller depth of the loads below them. -/
theorem run_agrees (inlined : InlinedIn files otherFiles) {depth otherDepth : Nat}
    (deep : depth ≤ otherDepth) :
    Session.LoadsAgree before otherBefore (run files depth) (run otherFiles otherDepth) := by
  induction depth using Nat.strongRecOn generalizing otherDepth with
  | ind depth inductionHypothesis =>
    intro path session other agrees stays
    obtain _ | left := depth
    · exact Outcome.agrees_tooDeep _ _
    obtain ⟨otherLeft, rfl⟩ := Nat.exists_eq_succ_of_ne_zero (Nat.ne_zero_of_lt deep)
    have loads (inner : Nat) (less : inner ≤ left) :
        Session.LoadsAgree before otherBefore (run files inner) (run otherFiles otherLeft) :=
      inductionHypothesis inner (Nat.lt_succ_of_le less) (less.trans (Nat.le_of_succ_le_succ deep))
    have entered := agrees.withReporter (·.registerFile path) (·.registerFile path)
    unfold run runWith
    split
    · exact Outcome.agrees_failed agrees _
    obtain same | ⟨original, text, found, otherFound, inlines⟩ := inlined path
    · rw [same]
      cases files path with
      | none => exact Outcome.agrees_failed agrees _
      | some text =>
        exact (entered.runLines stays (loads left (Nat.le_refl left)) path path rfl).andThen
          fun _ _ sessions => Outcome.agrees_done (sessions.withReporter _ _)
    · rw [found, otherFound]
      exact (inlines.lines_agree loads entered stays path path).andThen
        fun _ _ sessions => Outcome.agrees_done (sessions.withReporter _ _)

/-- Executing a script has the same effect as executing it with a file inlined, for every session
    that has not been left: both fail for the same reason or both are done, with the same
    bindings, limit, strategy and results, and both have left the session or neither has. This
    holds as long as loads do not nest too deep in the script, and if no loads nest forever
    below it, they do not from some depth on. -/
theorem inlined_file_has_same_effect {path otherPath original inlined : String}
    (inlines : Inlines files original inlined) (opens : Opens files path original)
    (otherOpens : Opens otherFiles otherPath inlined)
    (others : ∀ other, otherFiles other = files other ∨
      other = path ∧ otherFiles other = some inlined) :
    (∀ depth session, session.exited = false →
      (run files depth path session).failure ≠ some .tooDeep →
      let outcome := run files depth path session
      let other := run otherFiles depth otherPath session
      other.failure = outcome.failure ∧ other.session.environment = outcome.session.environment ∧
        other.session.limit = outcome.session.limit ∧
        other.session.strategy = outcome.session.strategy ∧
        other.session.exited = outcome.session.exited ∧
        other.session.results = outcome.session.results) ∧
    (Acc (fun inner outer => Loads files outer inner) path →
      ∃ bound, ∀ depth, bound ≤ depth → ∀ session,
        (run files depth path session).failure ≠ some .tooDeep) := by
  refine ⟨?_, exists_depth_of_run⟩
  intro depth session stays ends outcome other
  have inlinedIn : InlinedIn files otherFiles := by
    intro candidate
    obtain same | ⟨rfl, otherFound⟩ := others candidate
    · exact .inl same
    · exact .inr ⟨original, inlined, opens.2, otherFound, inlines⟩
  have agrees : outcome.Agrees session.results session.results other := by
    cases depth with
    | zero => exact Outcome.agrees_tooDeep _ _
    | succ left =>
      have loads (inner : Nat) (less : inner ≤ left) :
          Session.LoadsAgree session.results session.results (run files inner)
            (run otherFiles left) :=
        run_agrees inlinedIn less
      have entered := (Session.Agrees.refl session).withReporter (·.registerFile path)
        (·.registerFile otherPath)
      simp only [outcome, other]
      rw [opens.run_eq, otherOpens.run_eq]
      exact (inlines.lines_agree loads entered stays path otherPath).andThen
        fun _ _ sessions => Outcome.agrees_done (sessions.withReporter _ _)
  obtain ⟨failure, environment, limit, strategy, exited, since, isSince, isOther⟩ := agrees ends
  exact ⟨failure, environment, limit, strategy, exited, isOther.trans isSince.symm⟩

/-- Two files, the first of which loads the second. -/
def loadingInside : Files := fun path =>
  if path = "a.lc" then some "x = y\n:load \"b.lc\"\nf x"
  else if path = "b.lc" then some "f = λq.q\n(f\n f)" else none

/-- The first of the files, with the second one inlined. -/
def inlinedInside : Files := fun path =>
  if path = "a.lc" then some "x = y\nf = λq.q\n(f\n f)\nf x" else loadingInside path

/-- With the second file inlined, the first has the same two results. -/
theorem inlined_file_has_same_effect_twice :
    let session : Session := ⟨"a.lc", .empty, 10, .normal, [], false, .create true false⟩
    let outcome := run loadingInside 2 "a.lc" session
    let other := run inlinedInside 2 "a.lc" session
    outcome.failure = none ∧ other.failure = none ∧ outcome.session.results.length = 2 ∧
      other.session.results = outcome.session.results := by
  intro session outcome other
  have settled : Settled ["x = y"] := by decide +kernel
  have inside : Opens loadingInside "b.lc" "f = λq.q\n(f\n f)" := ⟨by decide, rfl⟩
  have closed : Settled (Lines.ofFile "f = λq.q\n(f\n f)") := by decide +kernel
  have isOriginal : Lines.ofFile "x = y\n:load \"b.lc\"\nf x" =
      ["x = y"] ++ loadLine "b.lc" :: ["f x"] := by
    decide +kernel
  have isInlined : Lines.ofFile "x = y\nf = λq.q\n(f\n f)\nf x" =
      ["x = y"] ++ (Lines.ofFile "f = λq.q\n(f\n f)" ++ ["f x"]) := by
    decide +kernel
  have inlines := Inlines.intro settled (by decide) inside closed isOriginal isInlined
  have opens : Opens loadingInside "a.lc" _ := ⟨by decide, rfl⟩
  have otherOpens : Opens inlinedInside "a.lc" _ := ⟨by decide, rfl⟩
  have done : outcome.failure = none := Option.isNone_iff_eq_none.mp (by decide +kernel)
  have same := (inlined_file_has_same_effect inlines opens otherOpens ?_).1 2 session rfl ?_
  · exact ⟨done, same.1.trans done, by decide +kernel, same.2.2.2.2.2⟩
  · intro path
    by_cases first : path = "a.lc"
    · subst first
      exact .inr ⟨rfl, rfl⟩
    · exact .inl (if_neg first)
  · rw [show (run loadingInside 2 "a.lc" session).failure = none from done]
    simp

end Script

end UntypedLambda
