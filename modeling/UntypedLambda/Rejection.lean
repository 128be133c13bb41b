import UntypedLambda.Combinators
import UntypedLambda.Numeral
import UntypedLambda.Reduction
import UntypedLambda.Scalar
import UntypedLambda.Term.Display
import UntypedLambda.Text.Quoted

/-!
# Requests that are rejected

Some functions of this library are defined for part of what they can be asked.
Here they are put together with the reason that is given for the rest.
-/

namespace UntypedLambda

/-- Why a request cannot be answered. -/
inductive Rejection where
  | notRedex (term : Term)
  | noTerms
  | unnatural (given : Scalar)
  | negativeLimit (limit : Int)
  | unknownStrategy (given : Scalar)
  | unknownCombinator (name : Name)

/-- A rejection in words. -/
def Rejection.message : Rejection → String
  | notRedex term => "'" ++ term.display ++ "' is not a redex"
  | noTerms => "application needs at least one term"
  | unnatural given => "expected natural number, got '" ++ given.toText ++ "'"
  | negativeLimit limit =>
    "reduction limit must be a natural number, got " ++ Decimal.integerText limit
  | unknownStrategy given =>
    "unknown strategy '" ++ given.toText ++ "' (expected one of: " ++
      ", ".intercalate (Strategy.all.map Strategy.name) ++ ")"
  | unknownCombinator name => Quoted.quote name

/-- Contract a term that has to be a redex. -/
def Term.contract (term : Term) : Except Rejection Term :=
  match term.contract? with
  | some reduct => .ok reduct
  | none => .error (.notRedex term)

/-- Apply the first of some terms to the others. There has to be one. -/
def Term.application (terms : List Term) : Except Rejection Term :=
  match Term.application? terms with
  | some term => .ok term
  | none => .error .noTerms

/-- The numeral of a scalar, which has to be a natural number. -/
def Numeral.ofScalar (given : Scalar) : Except Rejection Term :=
  match given.natural? with
  | some number => .ok (church number)
  | none => .error (.unnatural given)

/-- The strategy of a scalar, which has to be the name of one. -/
def Strategy.choose (given : Scalar) : Except Rejection Strategy :=
  match given.strategy? with
  | some strategy => .ok strategy
  | none => .error (.unknownStrategy given)

/-- A limit that has to be natural. -/
def Reduction.checkLimit (limit : Int) : Except Rejection Nat :=
  match limit with
  | .ofNat limit => .ok limit
  | .negSucc _ => .error (.negativeLimit limit)

/-- The combinator with a name. -/
def Combinators.find (name : Name) : Except Rejection Term :=
  match named.lookup name with
  | some term => .ok term
  | none => .error (.unknownCombinator name)

end UntypedLambda
