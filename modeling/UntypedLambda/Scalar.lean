import UntypedLambda.Strategy
import UntypedLambda.Text.ShortestDecimal

/-!
# Scalar settings

A setting may be given as any scalar, and only some scalars are acceptable: a
limit has to be a natural number, and a truth value is not one; a strategy has
to be the name of one. What is refused is quoted in the refusal, so every scalar
has a text, and so has the value of a setting whose value was dropped.
-/

namespace UntypedLambda

/-- A value that a setting is given. -/
inductive Scalar where
  | nothing
  | dropped
  | truth (value : Bool)
  | integer (value : Int)
  | real (value : Float)
  | text (value : String)

namespace Scalar

/-- Reals are written positionally from 10 ^ (-4) up to below 10 ^ 16, and
    otherwise with an exponent of at least two digits. -/
def realLayout : DecimalLayout :=
  ⟨-4, 15, 2⟩

/-- The shortest decimal of a real, with its sign. Zero has a sign, too. -/
def realText (value : Float) : String :=
  let sign := if value.toBits.toNat ≥ Nat.pow 2 63 then "-" else ""
  if value.isNaN then "nan"
  else if value.isInf then sign ++ "inf"
  else match (BinaryFraction.ofFloat value).shortest? with
    | none => sign ++ "0.0"
    | some fraction => sign ++ fraction.text realLayout

/-- A scalar as it is quoted in a message. -/
def toText : Scalar → String
  | nothing => "None"
  | dropped => "[]"
  | truth true => "True"
  | truth false => "False"
  | integer value => Decimal.integerText value
  | real value => realText value
  | text value => value

/-- The natural number that a scalar is, if it is one. -/
def natural? : Scalar → Option Nat
  | integer (.ofNat value) => some value
  | _ => none

/-- The strategy that a scalar names, if it names one. -/
def strategy? : Scalar → Option Strategy
  | text name => Strategy.ofName? name
  | _ => none

end Scalar

end UntypedLambda
