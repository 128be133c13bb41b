/-!
# Decimal notation

A natural number is written as a list of digit values, most significant first,
and a list of digit values is read back by Horner's rule. Both directions are
stated on numbers and not on characters, so the same two functions serve plain
digits, subscript digits and the digits of other scripts.
-/

namespace UntypedLambda.Decimal

/-- The digits of a number, most significant first, without superfluous zeros.
    Zero itself has the one digit zero. -/
def digits (number : Nat) : List Nat :=
  if number < 10 then [number] else digits (number / 10) ++ [number % 10]
termination_by number
decreasing_by omega

/-- The number that a list of digits denotes. The empty list denotes zero, and
    leading zeros do not matter. -/
def value (ds : List Nat) : Nat :=
  ds.foldl (fun number digit => 10 * number + digit) 0

/-- One more digit on the right multiplies by ten and adds it. -/
theorem value_concat (ds : List Nat) (digit : Nat) :
    value (ds ++ [digit]) = 10 * value ds + digit := by
  simp [value, List.foldl_append]

/-- Writing a number and reading it back loses nothing. -/
theorem value_digits (number : Nat) : value (digits number) = number := by
  induction number using digits.induct with
  | case1 number small => simp [digits, small, value]
  | case2 number large inductionHypothesis =>
    rw [digits, if_neg large, value_concat, inductionHypothesis]
    omega

/-- The value of an ASCII digit, and nothing for any other character. -/
def digit? (c : Char) : Option Nat :=
  if '0' ≤ c ∧ c ≤ '9' then some (c.toNat - '0'.toNat) else none

/-- The ASCII digit of a value below ten. -/
def digitChar (digit : Nat) : Char :=
  Char.ofNat ('0'.toNat + digit)

/-- A number in ASCII digits. -/
def text (number : Nat) : String :=
  String.ofList ((digits number).map digitChar)

/-- An integer in ASCII digits, with a minus sign if it is negative. -/
def integerText : Int → String
  | .ofNat number => text number
  | .negSucc number => "-" ++ text (number + 1)

/-- The number that the ASCII digits of a text denote, other characters
    skipped. Callers hand over digits only. -/
def read (characters : List Char) : Nat :=
  value (characters.filterMap digit?)

end UntypedLambda.Decimal
