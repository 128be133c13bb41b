import UntypedLambda.Environment
import UntypedLambda.Reduction
import UntypedLambda.Reporter
import UntypedLambda.Statement

/-!
# Sessions and what becomes of them

A session holds what its statements have set: bindings, a step limit, a strategy,
the results that nobody has taken yet, and whether it was left. Its reporter
holds what was printed.

An activity of a session has an outcome, which is a session in every case. If
the activity was cut short, the outcome says by what, and the session is the one
at that moment; nothing is rolled back.
-/

namespace UntypedLambda

/-- The state of a session. The path is the one that statements are reported
    under unless they come from a script of their own. -/
structure Session where
  path : String
  environment : Environment
  limit : Nat
  strategy : Strategy
  results : List Reduction
  exited : Bool
  reporter : Reporter

/-- A session after an activity, and what cut the activity short, if anything. -/
structure Outcome where
  session : Session
  failure : Option Failure

namespace Outcome

/-- Everything went well. -/
def done (session : Session) : Outcome :=
  ⟨session, none⟩

/-- The activity ended early. -/
def failed (session : Session) (failure : Failure) : Outcome :=
  ⟨session, some failure⟩

/-- Go on unless the activity has ended early. -/
def andThen (outcome : Outcome) (next : Session → Outcome) : Outcome :=
  match outcome.failure with
  | none => next outcome.session
  | some _ => outcome

/-- Let the reporter deal with what cut the activity short. What it does not
    deal with remains. -/
def guarded (outcome : Outcome) : Outcome :=
  match outcome.failure with
  | none => outcome
  | some failure =>
    let (reporter, remaining) := outcome.session.reporter.guard failure
    ⟨{ outcome.session with reporter }, remaining⟩

end Outcome

end UntypedLambda
