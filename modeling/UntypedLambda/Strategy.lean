import UntypedLambda.Term

/-!
# Reduction strategies

A strategy chooses one redex of a term and contracts it. Both strategies look at
the function of an application before its argument and reduce under binders.
They differ in when an application that is itself a redex is contracted: before
its parts are looked at, or after both are in normal form.
-/

namespace UntypedLambda

/-- Normal order takes the leftmost outermost redex, applicative order the
    leftmost innermost one. -/
inductive Strategy where
  | normal
  | applicative
  deriving DecidableEq, Repr, Inhabited

namespace Strategy

/-- All strategies, in the order in which they are offered. -/
def all : List Strategy := [normal, applicative]

/-- The name by which a strategy is chosen. -/
def name : Strategy → Name
  | normal => "normal"
  | applicative => "applicative"

/-- The strategy of a name, if there is one. -/
def ofName? (candidate : Name) : Option Strategy :=
  all.find? fun strategy => strategy.name = candidate

/-- Contract the leftmost outermost redex. A term without a redex has no step. -/
def normalStep : Term → Option Term
  | .var _ => none
  | .lam param body => (normalStep body).map (.lam param)
  | .app function argument =>
    function.appliedTo? argument <|>
      (normalStep function).map (.app · argument) <|>
      (normalStep argument).map (.app function)

/-- Contract the leftmost innermost redex. A term without a redex has no step. -/
def applicativeStep : Term → Option Term
  | .var _ => none
  | .lam param body => (applicativeStep body).map (.lam param)
  | .app function argument =>
    (applicativeStep function).map (.app · argument) <|>
      (applicativeStep argument).map (.app function) <|>
      function.appliedTo? argument

/-- One step of a strategy. -/
def step : Strategy → Term → Option Term
  | normal => normalStep
  | applicative => applicativeStep

/-- Whether a strategy finds nothing to contract. -/
def isNormal (strategy : Strategy) (term : Term) : Bool :=
  (strategy.step term).isNone

end Strategy

end UntypedLambda
