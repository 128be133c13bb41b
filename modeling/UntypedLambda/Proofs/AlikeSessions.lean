import UntypedLambda.Proofs.KeyOrder
import UntypedLambda.Proofs.LayoutWords
import UntypedLambda.Proofs.SessionInvariant
import UntypedLambda.Proofs.StatementReading
import UntypedLambda.Shell

/-!
# Sessions that differ in what they have printed

Messages quote what was typed, blanks included, and nothing else of a session depends on
these blanks. So two lines of the same words have the same effect on a session, and on
sessions that differ only in what they have printed, as long as they load nothing: either
both are unfinished, or both fail, or both are done, with the same bindings and results.
-/

namespace UntypedLambda

/-- A reporter without what it has printed, and without the texts of the lines that it has
    registered. -/
def Reporter.silenced (reporter : Reporter) : Reporter :=
  { reporter.forgetLines with output := [] }

/-- Sessions that differ at most in what their reporters have printed and registered. -/
def Session.Alike (session other : Session) : Prop :=
  ∃ reporter : Reporter, reporter.silenced = session.reporter.silenced ∧
    other = { session with reporter }

/-- Outcomes in sessions that are alike. Both are done, or both have failed with a fault. -/
structure Outcome.Alike (outcome other : Outcome) : Prop where
  session : outcome.session.Alike other.session
  failure : outcome.failure = none ∧ other.failure = none ∨
    ∃ fault otherFault, outcome.failure = some (.fault fault) ∧
      other.failure = some (.fault otherFault)

namespace Reporter

/-- Silenced reporters are the same if they agree in their settings and in the files that
    they know. -/
theorem silenced_eq_iff (reporter other : Reporter) : other.silenced = reporter.silenced ↔
    other.fatal = reporter.fatal ∧ other.traced = reporter.traced ∧
      other.forgetLines.trail = reporter.forgetLines.trail := by
  simp [silenced, forgetLines]

/-- Announcing a reduction only prints. -/
theorem silenced_announce (reporter : Reporter) (reduction : Reduction) (quoted : String)
    (limit : Nat) :
    (Session.announce reporter reduction quoted limit).silenced = reporter.silenced := by
  unfold Session.announce
  cases Numeral.number? reduction.term <;> cases reduction.exhausted <;> rfl

/-- Which line of a file is registered, if any, does not matter to a silenced reporter. -/
theorem silenced_set {reporter other : Reporter} (same : other.silenced = reporter.silenced)
    (path : String) (line otherLine : Option TrailLine) :
    Reporter.silenced { other with trail := other.trail.set path otherLine } =
      Reporter.silenced { reporter with trail := reporter.trail.set path line } := by
  obtain ⟨fatal, traced, trail⟩ := (silenced_eq_iff reporter other).mp same
  refine (silenced_eq_iff _ _).mpr ⟨fatal, traced, ?_⟩
  simp only [forgetLines] at trail
  simp only [forgetLines, OrderedMap.mapValues_set, trail]

end Reporter

namespace Session

/-- A session is like itself. -/
theorem Alike.refl (session : Session) : session.Alike session :=
  ⟨session.reporter, rfl, rfl⟩

/-- Sessions that are alike stay so if both only print something. -/
theorem Alike.printed {session other : Session} (alike : session.Alike other)
    (change otherChange : Reporter → Reporter)
    (prints : ∀ reporter, (change reporter).silenced = reporter.silenced)
    (otherPrints : ∀ reporter, (otherChange reporter).silenced = reporter.silenced) :
    (session.withReporter change).Alike (other.withReporter otherChange) := by
  obtain ⟨reporter, silent, rfl⟩ := alike
  exact ⟨otherChange reporter, (otherPrints reporter).trans (silent.trans (prints _).symm), rfl⟩

/-- Evaluating or binding a term has the same effect on sessions that are alike, whatever text
    the term was read from. -/
theorem execute_alike (load : String → Session → Outcome) {session other : Session}
    (alike : session.Alike other) {statement counterpart : Statement}
    (same : counterpart.action = statement.action) (plain : statement.action.term? ≠ none) :
    (session.execute load statement).Alike (other.execute load counterpart) := by
  obtain ⟨reporter, silent, rfl⟩ := alike
  obtain ⟨action, source⟩ := statement
  obtain ⟨otherAction, otherSource⟩ := counterpart
  obtain rfl : otherAction = action := same
  cases otherAction with
  | evaluate term =>
    have resolves : ({ session with reporter } : Session).resolve term [] =
        session.resolve term [] := rfl
    simp only [execute, evaluate, resolves]
    cases session.resolve term [] with
    | error fault => exact ⟨⟨reporter, silent, rfl⟩, .inr ⟨_, _, rfl, rfl⟩⟩
    | ok resolved =>
      have queued : Alike
          { session with
            results := session.results ++ [session.strategy.reduce session.limit resolved] }
          { session with
            results := session.results ++ [session.strategy.reduce session.limit resolved]
            reporter } := ⟨reporter, silent, rfl⟩
      have prints (quoted : String) (before : Reporter) (steps : List Markup) :
          (announce (before.print steps) (session.strategy.reduce session.limit resolved) quoted
            session.limit).silenced = before.silenced :=
        Reporter.silenced_announce ..
      exact ⟨queued.printed _ _ (fun before => prints _ before _) (fun before => prints _ before _),
        .inl ⟨rfl, rfl⟩⟩
  | bind name term =>
    simp only [execute, bind]
    change Outcome.Alike _ (if name ∈ session.dependencies term then _ else _)
    have bound : Alike { session with environment := session.environment.set name term }
        { session with environment := session.environment.set name term, reporter } :=
      ⟨reporter, silent, rfl⟩
    have announced := bound.printed (noticeOf "binding " name " added")
      (noticeOf "binding " name " added") (fun _ => rfl) (fun _ => rfl)
    have warns (report : Report) (before : Reporter) :
        (before.warn report).silenced = before.silenced :=
      rfl
    split
    · exact ⟨⟨reporter, silent, rfl⟩, .inr ⟨_, _, rfl, rfl⟩⟩
    · split
      · exact ⟨announced.printed _ _ (warns _) (warns _), .inl ⟨rfl, rfl⟩⟩
      · exact ⟨announced, .inl ⟨rfl, rfl⟩⟩
  | exit | limit | strategy | listBindings | load => exact absurd rfl plain

end Session

/-- Going on is alike if both parts are. -/
theorem Outcome.Alike.andThen {outcome other : Outcome} (alike : outcome.Alike other)
    {next otherNext : Session → Outcome}
    (goesOn : ∀ session otherSession, session.Alike otherSession →
      (next session).Alike (otherNext otherSession)) :
    (outcome.andThen next).Alike (other.andThen otherNext) := by
  obtain ⟨session, failure⟩ := outcome
  obtain ⟨otherSession, otherFailure⟩ := other
  obtain ⟨sessions, ⟨none, otherNone⟩ | ⟨fault, otherFault, failed, otherFailed⟩⟩ := alike
  · obtain rfl : failure = .none := none
    obtain rfl : otherFailure = .none := otherNone
    exact goesOn session otherSession sessions
  · obtain rfl : failure = some (.fault fault) := failed
    obtain rfl : otherFailure = some (.fault otherFault) := otherFailed
    exact ⟨sessions, .inr ⟨fault, otherFault, rfl, rfl⟩⟩

/-- Bindings bind. -/
theorem Grammar.Bindings.binds {words : List Word} {actions : List Action}
    (bindings : Bindings words actions) :
    ∀ action ∈ actions, ∃ name term, action = .bind name term := by
  have binds {words : List Word} {action : Action} (binding : Binding words action) :
      ∃ name term, action = .bind name term := by
    obtain ⟨name, equals, named, isEquals, derives⟩ := binding
    exact ⟨name.content, _, rfl⟩
  induction bindings with
  | last binding => exact List.forall_mem_singleton.mpr (binds binding)
  | more separator binding separates _ inductionHypothesis =>
    exact List.forall_mem_cons.mpr ⟨binds binding, inductionHypothesis⟩

/-- A line that does not begin with a colon binds and evaluates terms. -/
theorem Grammar.Line.term?_ne_none {words : List Word} {actions : List Action}
    (line : Line words actions)
    (noColon : ∀ word ∈ words.head?, word.kind ≠ .colon) :
    ∀ action ∈ actions, action.term? ≠ none := by
  have terms {words : List Word} (bindings : Bindings words actions) :
      ∀ action ∈ actions, action.term? ≠ none := by
    intro action member
    obtain ⟨name, term, rfl⟩ := bindings.binds action member
    simp [Action.term?]
  cases line with
  | empty => simp
  | command colon isColon command => exact absurd isColon (noColon colon rfl)
  | bindings bindings => exact terms bindings
  | closed separator bindings separates => exact terms bindings
  | term derives => simp [Action.term?]

namespace Session

/-- Statements that evaluate or bind the same terms have the same effect on sessions that are
    alike. -/
theorem executeAll_alike (load : String → Session → Outcome) {session other : Session}
    (alike : session.Alike other) {statements counterparts : List Statement}
    (same : counterparts.map Statement.action = statements.map Statement.action)
    (plain : ∀ action ∈ statements.map Statement.action, action.term? ≠ none) :
    (session.executeAll load statements).Alike (other.executeAll load counterparts) := by
  induction statements generalizing session other counterparts with
  | nil =>
    obtain rfl := List.map_eq_nil_iff.mp same
    exact ⟨alike, .inl ⟨rfl, rfl⟩⟩
  | cons statement statements inductionHypothesis =>
    obtain ⟨counterpart, others, rfl, first, rest⟩ := List.map_eq_cons_iff.mp same
    rw [List.map_cons, List.forall_mem_cons] at plain
    exact (execute_alike load alike first plain.1).andThen fun next otherNext nextAlike =>
      inductionHypothesis nextAlike rest plain.2

/-- Lines of the same words have the same effect on sessions that are alike, unless they are
    commands. -/
theorem add_alike (load : String → Session → Outcome) {session other : Session}
    (alike : session.Alike other) {line counterpart : String}
    (same : Token.words counterpart = Token.words line)
    (noColon : ∀ word ∈ (Token.words line).head?, word.kind ≠ .colon) (number : Option Int)
    (path : String) :
    (session.add load line number path).Alike (other.add load counterpart number path) := by
  have registers (place : String) (text otherText : TrailLine) :
      Alike (session.withReporter (·.registerLine place text))
        (other.withReporter (·.registerLine place otherText)) := by
    obtain ⟨reporter, silent, rfl⟩ := alike
    exact ⟨_, Reporter.silenced_set silent place (some text) (some otherText), rfl⟩
  have samePath : other.path = session.path := by
    obtain ⟨reporter, silent, rfl⟩ := alike
    rfl
  unfold add
  rw [samePath]
  obtain ⟨statements, others, parsed, otherParsed, actions⟩ |
      ⟨error, otherError, parsed, otherParsed⟩ :=
    Statement.parse_of_words_eq same
  · simp only [parsed, otherParsed]
    have derives := (Statement.parse_iff_derives line _).mp ⟨statements, parsed, rfl⟩
    refine (executeAll_alike load (registers _ _ _) actions
      (derives.term?_ne_none noColon)).andThen ?_
    rintro next _ ⟨reporter, silent, rfl⟩
    exact ⟨⟨_, Reporter.silenced_set silent _ none none, rfl⟩, .inl ⟨rfl, rfl⟩⟩
  · simp only [parsed, otherParsed]
    exact ⟨registers _ _ _, .inr ⟨_, _, rfl, rfl⟩⟩

end Session

/-- Reporters that agree once they are silenced deal alike with faults. -/
theorem Reporter.guard_fault {reporter other : Reporter} (same : other.silenced = reporter.silenced)
    (fault otherFault : Fault) :
    (other.guard (.fault otherFault)).1.silenced = (reporter.guard (.fault fault)).1.silenced ∧
      (other.guard (.fault otherFault)).2 = (reporter.guard (.fault fault)).2 := by
  obtain ⟨fatal, traced, trail⟩ := (silenced_eq_iff reporter other).mp same
  simp only [guard, throw, print, fatal]
  split
  · exact ⟨(silenced_eq_iff _ _).mpr ⟨rfl, traced, trail⟩, rfl⟩
  · refine ⟨(silenced_eq_iff _ _).mpr ⟨rfl, traced, ?_⟩, rfl⟩
    simp only [forgetLines] at trail ⊢
    rw [trail]

/-- Whatever is left of outcomes that are alike is the same. -/
theorem Outcome.Alike.guarded {outcome other : Outcome} (alike : outcome.Alike other) :
    outcome.guarded.session.Alike other.guarded.session ∧
    other.guarded.failure = outcome.guarded.failure := by
  obtain ⟨session, failure⟩ := outcome
  obtain ⟨otherSession, otherFailure⟩ := other
  obtain ⟨sessions, ⟨none, otherNone⟩ | ⟨fault, otherFault, failed, otherFailed⟩⟩ := alike
  · obtain rfl : failure = .none := none
    obtain rfl : otherFailure = .none := otherNone
    exact ⟨sessions, rfl⟩
  · obtain rfl : failure = some (.fault fault) := failed
    obtain rfl : otherFailure = some (.fault otherFault) := otherFailed
    obtain ⟨reporter, silent, rfl⟩ := sessions
    have deals := Reporter.guard_fault silent fault otherFault
    exact ⟨⟨_, deals.1, rfl⟩, deals.2⟩

/-- Answers in sessions that are alike, with the same verdict, in shells that wait for the same
    words to be completed. -/
structure Answer.Alike (answer other : Answer) : Prop where
  session : answer.shell.session.Alike other.shell.session
  pending : Token.words other.shell.pending = Token.words answer.shell.pending
  lineNumber : other.shell.lineNumber = answer.shell.lineNumber
  prompt : other.shell.prompt = answer.shell.prompt
  verdict : other.verdict = answer.verdict

/-- Entering lines of the same words has the same effect, unless they are commands. -/
theorem Shell.enter_alike (load : String → Session → Outcome) (shell : Shell)
    {line counterpart : String}
    (same : Token.words (Layout.joined shell.pending counterpart) =
      Token.words (Layout.joined shell.pending line))
    (noColon : ∀ word ∈ (Token.words (Layout.joined shell.pending line)).head?,
      word.kind ≠ .colon) :
    (shell.enter load line).Alike (shell.enter load counterpart) := by
  have continued : Layout.isContinued (Layout.joined shell.pending counterpart) =
      Layout.isContinued (Layout.joined shell.pending line) := Layout.isContinued_of_words_eq same
  unfold enter
  dsimp only
  rw [continued]
  split
  · exact ⟨.refl _, same, rfl, rfl, rfl⟩
  · have added := Session.add_alike load (.refl shell.session) same noColon
      (some (shell.lineNumber + 1 : Nat)) ""
    have dropped : Outcome.Alike
        ((shell.session.add load (Layout.joined shell.pending line)
          (some (shell.lineNumber + 1 : Nat)) "").andThen fun next =>
            .done (dropResults next))
        ((shell.session.add load (Layout.joined shell.pending counterpart)
          (some (shell.lineNumber + 1 : Nat)) "").andThen fun next =>
            .done (dropResults next)) := by
      refine added.andThen ?_
      rintro next _ ⟨reporter, silent, rfl⟩
      exact ⟨⟨reporter, silent, rfl⟩, .inl ⟨rfl, rfl⟩⟩
    obtain ⟨sessions, failure⟩ := dropped.guarded
    rw [failure]
    split
    · obtain ⟨reporter, silent, isOther⟩ := sessions
      refine ⟨⟨reporter, silent, isOther⟩, rfl, rfl, rfl, ?_⟩
      dsimp only
      rw [isOther]
    · exact ⟨sessions, rfl, rfl, rfl, rfl⟩

end UntypedLambda
