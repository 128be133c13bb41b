import UntypedLambda.Strategy

/-!
# Bounded reduction

Reduction repeats a step until there is none or a limit is reached. Everything
here is stated for an arbitrary step function: counting, stopping and recording
do not depend on the strategy.

A term that becomes normal on the very last permitted step is not exhausted.
-/

namespace UntypedLambda

/-- The outcome of a bounded reduction. It is exhausted if the limit ran out
    while a further step was still possible. -/
structure Reduction where
  term : Term
  steps : Nat
  exhausted : Bool
  deriving DecidableEq, Repr

namespace Reduction

/-- How many steps a reduction may take if nothing else is asked for. -/
def defaultLimit : Nat := 1000

/-- Continue a reduction that has taken some steps already. The first number
    bounds the steps still permitted. -/
def continued (step : Term → Option Term) :
    (limit : Nat) → (term : Term) → (taken : Nat) → Reduction
  | 0, term, taken => ⟨term, taken, (step term).isSome⟩
  | limit + 1, term, taken =>
    match step term with
    | none => ⟨term, taken, false⟩
    | some reduct => continued step limit reduct (taken + 1)

/-- Reduce a term by at most `limit` steps. -/
def run (step : Term → Option Term) (limit : Nat) (term : Term) : Reduction :=
  continued step limit term 0

/-- The first terms of a reduction sequence, the starting term left out. There
    are fewer than `count` of them only if the sequence ends. -/
def reducts (step : Term → Option Term) : (count : Nat) → (term : Term) → List Term
  | 0, _ => []
  | count + 1, term =>
    match step term with
    | none => []
    | some reduct => reduct :: reducts step count reduct

/-- The steps of a bounded reduction as they are reported: each reduct with its
    number, counted from one. -/
def trace (step : Term → Option Term) (limit : Nat) (term : Term) : List (Nat × Term) :=
  (reducts step limit term).zipIdx 1 |>.map fun (reduct, number) => (number, reduct)

end Reduction

/-- Reduce a term by a strategy, with a limit on the steps. -/
def Strategy.reduce (strategy : Strategy) (limit : Nat) (term : Term) : Reduction :=
  Reduction.run strategy.step limit term

/-- The reported steps of that reduction. -/
def Strategy.trace (strategy : Strategy) (limit : Nat) (term : Term) : List (Nat × Term) :=
  Reduction.trace strategy.step limit term

end UntypedLambda
