import UntypedLambda.Term

/-!
# Statements

What a line can ask for: to evaluate a term, to bind a name, or one of the
commands that begin with a colon. A statement keeps the text that it was read
from; two statements with the same action mean the same.
-/

namespace UntypedLambda

/-- What a statement does. A limit or strategy that is not given is asked for. -/
inductive Action where
  | evaluate (term : Term)
  | bind (name : Name) (term : Term)
  | exit
  | limit (value : Option Nat)
  | strategy (name : Option Name)
  | listBindings
  | load (path : String)
  deriving DecidableEq, Repr

/-- An action and the text that asks for it. -/
structure Statement where
  action : Action
  source : String
  deriving DecidableEq, Repr

end UntypedLambda
