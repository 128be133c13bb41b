import Mathlib.Logic.Relation
import UntypedLambda.Proofs.Executions

/-!
# What becomes of a session

A statement makes at most one small change to what a session holds, and apart from that it
prints and registers. So whatever lines, scripts and the scripts that they load do to a
session is a sequence of small changes, whether or not something fails on the way. A
property that every small change keeps is kept by all of them, and a relation that holds of
every small change and can be composed holds between a session and what becomes of it.
-/

namespace UntypedLambda

namespace Session

/-- One change of a session. What is bound or evaluated was typed; a name is bound only to a
    term that does not reach it, and only what a term is resolved to is reduced. -/
inductive Changes : Session → Session → Prop where
  | reported (session : Session) (change : Reporter → Reporter) :
      Changes session (session.withReporter change)
  | bound (session : Session) {name : Name} {term : Term} (typed : (Action.bind name term).Typed)
      (unreached : name ∉ session.dependencies term) :
      Changes session { session with environment := session.environment.set name term }
  | evaluated (session : Session) {term resolved : Term} (typed : (Action.evaluate term).Typed)
      (resolves : session.resolve term [] = .ok resolved) :
      Changes session { session with
        results := session.results ++ [session.strategy.reduce session.limit resolved] }
  | limited (session : Session) (limit : Nat) : Changes session { session with limit }
  | chosen (session : Session) (strategy : Strategy) : Changes session { session with strategy }
  | left (session : Session) : Changes session { session with exited := true }

/-- Any number of changes, one after the other. -/
abbrev Evolves : Session → Session → Prop :=
  Relation.ReflTransGen Changes

/-- What every change keeps is kept by any number of them. -/
theorem Evolves.keeps {holds : Session → Prop} {session next : Session}
    (evolves : Evolves session next)
    (kept : ∀ before after, Changes before after → holds before → holds after)
    (held : holds session) :
    holds next := by
  induction evolves with
  | refl => exact held
  | tail _ changes inductionHypothesis => exact kept _ _ changes inductionHypothesis

/-- Telling the reporter something is one change. -/
theorem Evolves.reported {session next : Session} (evolves : Evolves session next)
    (change : Reporter → Reporter) : Evolves session (next.withReporter change) :=
  evolves.tail (.reported next change)

/-- A change only ever adds to the queue of results. -/
theorem Changes.results_prefix {session next : Session} (changes : Changes session next) :
    session.results <+: next.results := by
  cases changes with
  | evaluated => exact List.prefix_append _ _
  | reported | bound | limited | chosen | left => exact List.prefix_refl _

/-- Whatever becomes of a session, the results that it had come first. -/
theorem Evolves.results_prefix {session next : Session} (evolves : Evolves session next) :
    session.results <+: next.results := by
  have begins (before after : Session) (changes : Changes before after)
      (earlier : session.results <+: before.results) : session.results <+: after.results :=
    earlier.trans changes.results_prefix
  exact evolves.keeps begins (List.prefix_refl _)

/-- Binding a typed term makes one change, or none if it is refused. -/
theorem evolves_bind (session : Session) {name : Name} {term : Term}
    (typed : (Action.bind name term).Typed) (source : String) :
    Evolves session (session.bind name term source).session := by
  unfold bind
  split
  · exact .refl
  · rename_i unreached
    have bound : Evolves session _ := .single (.bound session typed unreached)
    split <;> dsimp only [Outcome.done]
    · exact (bound.reported _).reported _
    · exact bound.reported _

/-- Evaluating a typed term makes one change, or none if it cannot be resolved. -/
theorem evolves_evaluate (session : Session) {term : Term} (typed : (Action.evaluate term).Typed)
    (source : String) : Evolves session (session.evaluate term source).session := by
  unfold evaluate
  split
  · exact .refl
  · rename_i resolved resolves
    have evaluated : Evolves session _ := .single (.evaluated session typed resolves)
    exact evaluated.reported fun _ =>
      announce (session.reporter.print (session.tracedSteps resolved))
      (session.strategy.reduce session.limit resolved) (quotation source term) session.limit

/-- A typed statement makes changes, whether or not it fails, if what it loads does. -/
theorem evolves_execute {load : String → Session → Outcome} (session : Session)
    {statement : Statement} (typed : statement.action.Typed)
    (loads : ∀ path, statement.action = .load path →
      Evolves session (load path session).session) :
    Evolves session (session.execute load statement).session := by
  obtain ⟨action, source⟩ := statement
  cases action with
  | evaluate term => exact session.evolves_evaluate typed source
  | bind name term => exact session.evolves_bind typed source
  | exit => exact .single (.left session)
  | limit value =>
    cases value with
    | none => exact .single (.reported session _)
    | some limit => exact Evolves.reported (.single (.limited session limit)) _
  | strategy name =>
    cases name with
    | none => exact .single (.reported session _)
    | some name =>
      simp only [execute]
      split
      · exact .refl
      · rename_i strategy _
        exact Evolves.reported (.single (.chosen session strategy)) _
  | listBindings =>
    dsimp only [execute, Outcome.done]
    exact .single (.reported session _)
  | load path => exact loads path rfl

/-- Registering a line is one change. -/
theorem evolves_enter (session : Session) (path : String) (line : TrailLine) :
    Evolves session (session.enter path line) :=
  .single (.reported session _)

/-- What is told to the reporter before an activity, and after it if it is done, are two more
    changes. -/
theorem Evolves.between {session : Session} {outcome : Outcome} {before after : Reporter → Reporter}
    (evolves : Evolves (session.withReporter before) outcome.session) :
    Evolves session (outcome.andThen fun next => .done (next.withReporter after)).session := by
  obtain ⟨next, rfl, both⟩ | ⟨final, failure, rfl, both⟩ := outcome.andThen_cases _ <;> rw [both]
  · exact Evolves.reported (.head (.reported session before) evolves) after
  · exact .head (.reported session before) evolves

/-- Statements, lines and files make changes. -/
theorem evolves_steps (files : Files) :
    let evolves (_ : String) (session : Session) (outcome : Outcome) :=
      Evolves session outcome.session
    Script.Steps files evolves evolves evolves where
  composeStatements _ := ⟨fun _ => .refl, fun first second => first.trans second⟩
  composeLines _ := ⟨fun _ => .refl, fun first second => first.trans second⟩
  statement typed session loads := session.evolves_execute typed loads
  malformed path session line _ := session.evolves_enter path line
  line executed := .between executed
  unread _ _ _ := .refl
  file _ executed := .between executed
  inner _ loaded := loaded

/-- Loading a file makes changes, however deep loads nest. -/
theorem evolves_run (files : Files) (depth : Nat) (path : String) (session : Session) :
    Evolves session (Script.run files depth path session).session :=
  (evolves_steps files).run depth path session

/-- A line makes changes, whether or not it can be read, and whatever files it loads. -/
theorem evolves_add (files : Files) (depth : Nat) (session : Session) (line : String)
    (number : Option Int) (path : String) :
    Evolves session (session.add (Script.run files depth) line number path).session :=
  (evolves_steps files).add (fun inner _ => evolves_run files depth inner) session number

end Session

end UntypedLambda
