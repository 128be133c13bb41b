import UntypedLambda.Proofs.SessionChanges

/-!
# What every session keeps

A session is reached from a new one by typing lines, by binding and evaluating
terms, and by loading files, in any order and whether or not any of it fails. Two
things happen to its bindings and results on the way: a name is bound to a term
that does not reach it, and the reduction of a resolved term is queued. A property
of bindings and results that survives these two survives everything, through all
statements of a line, all lines of a script and all scripts that scripts load.
-/

namespace UntypedLambda

/-- The term that an action evaluates or binds. -/
def Action.term? : Action → Option Term
  | evaluate term => some term
  | bind _ term => some term
  | _ => none

namespace OrderedMap

variable {κ α : Type} [DecidableEq κ]

/-- What a map has after setting keys one after the other was set, or it was there
    before. -/
theorem get?_foldl_set (entries : List (κ × α)) (map : OrderedMap κ α) (key : κ) (value : α)
    (found : (entries.foldl (fun map (key, value) => map.set key value) map).get? key =
      some value) :
    (key, value) ∈ entries ∨ map.get? key = some value := by
  induction entries generalizing map with
  | nil => exact .inr found
  | cons entry rest inductionHypothesis =>
    obtain ⟨other, given⟩ := entry
    rcases inductionHypothesis (map.set other given) found with later | now
    · exact .inl (List.mem_cons_of_mem _ later)
    · rw [get?_set] at now
      split at now
      · rename_i same
        obtain rfl : given = value := Option.some.inj now
        exact .inl (same ▸ List.mem_cons_self)
      · exact .inr now

/-- A map made of entries has nothing else. -/
theorem mem_of_get?_ofList (entries : List (κ × α)) (key : κ) (value : α)
    (found : (ofList entries).get? key = some value) : (key, value) ∈ entries := by
  rcases get?_foldl_set entries empty key value found with given | before
  · exact given
  · simp [get?, empty] at before

end OrderedMap

namespace Session

/-- Sessions that can be reached from a new one. Terms that are bound or evaluated
    otherwise than by typing them have to be allowed. In between, the reporter may
    be told anything. -/
inductive Reachable (allowed : Term → Prop) : Session → Prop where
  | created (reporter : Reporter) (settings : Settings) {session : Session}
      (creates : create reporter settings = .ok session) : Reachable allowed session
  | reported (change : Reporter → Reporter) {session : Session}
      (reachable : Reachable allowed session) : Reachable allowed (session.withReporter change)
  | added (files : Files) (depth : Nat) (line : String) (number : Option Int) (path : String)
      {session : Session} (reachable : Reachable allowed session) :
      Reachable allowed (session.add (Script.run files depth) line number path).session
  | bound (name : Name) (term : Term) (source : String) {session : Session}
      (reachable : Reachable allowed session) (permitted : allowed term) :
      Reachable allowed (session.bind name term source).session
  | evaluated (term : Term) (source : String) {session : Session}
      (reachable : Reachable allowed session) (permitted : allowed term) :
      Reachable allowed (session.evaluate term source).session
  | loaded (files : Files) (depth : Nat) (path : String) {session : Session}
      (reachable : Reachable allowed session) :
      Reachable allowed (Script.run files depth path session).session

/-- A session that was reached by lines and scripts only has evolved from a new one. -/
theorem Reachable.exists_evolves {session : Session}
    (reachable : session.Reachable fun _ => False) :
    ∃ reporter settings start, create reporter settings = .ok start ∧ Evolves start session := by
  induction reachable with
  | created reporter settings creates => exact ⟨reporter, settings, _, creates, .refl⟩
  | reported change _ inductionHypothesis =>
    obtain ⟨reporter, settings, start, creates, evolves⟩ := inductionHypothesis
    exact ⟨reporter, settings, start, creates, evolves.reported change⟩
  | added files depth line number path _ inductionHypothesis =>
    obtain ⟨reporter, settings, start, creates, evolves⟩ := inductionHypothesis
    exact ⟨reporter, settings, start, creates,
      evolves.trans (evolves_add files depth _ line number path)⟩
  | bound _ _ _ _ permitted => exact permitted.elim
  | evaluated _ _ _ permitted => exact permitted.elim
  | loaded files depth path _ inductionHypothesis =>
    obtain ⟨reporter, settings, start, creates, evolves⟩ := inductionHypothesis
    exact ⟨reporter, settings, start, creates, evolves.trans (evolves_run files depth path _)⟩

/-- A property of sessions that depends on bindings and results only, and that
    survives binding and evaluating. The terms of typed lines are allowed. -/
structure Invariant (allowed : Term → Prop) (holds : Session → Prop) : Prop where
  typed (line : String) (statements : List Statement)
    (parsed : Statement.parse line = .ok statements) :
    ∀ statement ∈ statements, ∀ term ∈ statement.action.term?, allowed term
  frame (session other : Session) (held : holds session)
    (environment : other.environment = session.environment)
    (results : other.results = session.results) :
    holds other
  bind (session : Session) (held : holds session) (name : Name) (term : Term)
    (permitted : allowed term)
    (unreached : name ∉ session.dependencies term) :
    holds { session with environment := session.environment.set name term }
  evaluate (session : Session) (held : holds session) (term resolved : Term)
    (permitted : allowed term)
    (resolves : session.resolve term [] = .ok resolved) :
    holds { session with
      results := session.results ++ [session.strategy.reduce session.limit resolved] }

namespace Invariant

variable {allowed : Term → Prop} {holds : Session → Prop} (invariant : Invariant allowed holds)
include invariant

/-- What the reporter is told does not matter. -/
theorem withReporter (session : Session) (held : holds session) (change : Reporter → Reporter) :
    holds (session.withReporter change) :=
  invariant.frame session _ held rfl rfl

/-- Binding a name keeps the property, if the term is allowed. A refused binding
    changes nothing. -/
theorem of_bind (session : Session) (held : holds session) (name : Name) (term : Term)
    (source : String)
    (permitted : allowed term) : holds (session.bind name term source).session := by
  unfold Session.bind
  split
  · exact held
  · rename_i unreached
    have bound := invariant.bind session held name term permitted unreached
    split
    · exact invariant.frame _ _ bound rfl rfl
    · exact invariant.frame _ _ bound rfl rfl

/-- Evaluating keeps the property, if the term is allowed. A term that cannot be
    resolved changes nothing. -/
theorem of_evaluate (session : Session) (held : holds session) (term : Term) (source : String)
    (permitted : allowed term) : holds (session.evaluate term source).session := by
  unfold Session.evaluate
  split
  · exact held
  · rename_i resolved resolves
    exact invariant.frame _ _
      (invariant.evaluate session held term resolved permitted resolves) rfl rfl

/-- Every change of a session keeps the property, as typed terms are allowed. -/
theorem of_changes {session next : Session} (held : holds session)
    (changes : Changes session next) :
    holds next := by
  cases changes with
  | reported change => exact invariant.withReporter session held change
  | @bound name term typed unreached =>
    obtain ⟨line, statements, parsed, statement, member, isBind⟩ := typed
    refine invariant.bind session held name term ?_ unreached
    exact invariant.typed line statements parsed statement member term (by rw [isBind]; rfl)
  | @evaluated term resolved typed resolves =>
    obtain ⟨line, statements, parsed, statement, member, isEvaluate⟩ := typed
    refine invariant.evaluate session held term resolved ?_ resolves
    exact invariant.typed line statements parsed statement member term (by rw [isEvaluate]; rfl)
  | limited limit => exact invariant.frame session _ held rfl rfl
  | chosen strategy => exact invariant.frame session _ held rfl rfl
  | left => exact invariant.frame session _ held rfl rfl

/-- Whatever becomes of a session keeps the property. -/
theorem of_evolves {session next : Session} (held : holds session)
    (evolves : Evolves session next) :
    holds next :=
  evolves.keeps (fun _ _ changes held => invariant.of_changes held changes) held

/-- A property that every new session has is one of every session that can be
    reached. -/
theorem of_reachable
    (new : ∀ reporter settings session, create reporter settings = .ok session → holds session)
    {session : Session} (reachable : Reachable allowed session) : holds session := by
  induction reachable with
  | created reporter settings creates => exact new reporter settings _ creates
  | reported change _ held => exact invariant.withReporter _ held change
  | added files depth line number path _ held =>
    exact invariant.of_evolves held (evolves_add files depth _ line number path)
  | bound name term source _ permitted held =>
    exact invariant.of_bind _ held name term source permitted
  | evaluated term source _ permitted held =>
    exact invariant.of_evaluate _ held term source permitted
  | loaded files depth path _ held =>
    exact invariant.of_evolves held (evolves_run files depth path _)

end Invariant

/-- A session is created if its limit and its strategy pass their checks, and then it has them. -/
theorem exists_of_create {reporter : Reporter} {settings : Settings} {session : Session}
    (creates : create reporter settings = .ok session) :
    ∃ limit strategy, checkLimit settings.limit = .ok limit ∧
      firstStrategy settings.strategy = .ok strategy ∧
      session = {
        path := settings.path
        environment := .ofList (if settings.combinators then Combinators.named else [])
        limit
        strategy
        results := []
        exited := false
        reporter := { reporter.registerFile settings.path with
          fatal := (reporter.registerFile settings.path).fatal && !settings.interactive } } := by
  unfold create at creates
  cases checked : checkLimit settings.limit with
  | error fault =>
    rw [checked] at creates
    cases creates
  | ok limit =>
    cases chosen : firstStrategy settings.strategy with
    | error failure =>
      rw [checked, chosen] at creates
      cases creates
    | ok strategy =>
      rw [checked, chosen] at creates
      cases creates
      exact ⟨limit, strategy, rfl, rfl, rfl⟩

/-- A new session binds the combinators or nothing, and it has no results. -/
theorem environment_of_create (reporter : Reporter) (settings : Settings) (session : Session)
    (creates : create reporter settings = .ok session) :
    session.environment = .ofList (if settings.combinators then Combinators.named else []) ∧
      session.results = [] := by
  obtain ⟨limit, strategy, _, _, rfl⟩ := exists_of_create creates
  exact ⟨rfl, rfl⟩

/-- Whatever a new session binds is a combinator. -/
theorem mem_named_of_create (reporter : Reporter) (settings : Settings) (session : Session)
    (creates : create reporter settings = .ok session) {name : Name} {definition : Term}
    (bound : session.environment.get? name = some definition) :
    (name, definition) ∈ Combinators.named := by
  rw [(environment_of_create reporter settings session creates).1] at bound
  have member := OrderedMap.mem_of_get?_ofList _ name definition bound
  split at member
  · exact member
  · exact absurd member List.not_mem_nil

end Session

end UntypedLambda
