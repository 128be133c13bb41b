import UntypedLambda.Text.Blank
import UntypedLambda.Text.DecimalDigit
import UntypedLambda.Text.Decimal

/-!
# Integers as they are typed

An integer may stand between blanks and begin with one sign. Its digits are
decimal digits of any script, and single underscores may separate them.
-/

namespace UntypedLambda.Integer

/-- The blanks around a number. The four ASCII separators, which are blank
    elsewhere, are not permitted here. -/
def isMargin (c : Char) : Bool :=
  Blank.isBlank c && !(0x1C ≤ c.toNat && c.toNat ≤ 0x1F)

/-- Digits, with at most one underscore between any two of them. -/
def digits? : List Char → Option (List Nat)
  | [] => none
  | [c] => (DecimalDigit.value? c).map ([·])
  | c :: '_' :: rest => do
    let digit ← DecimalDigit.value? c
    let others ← digits? rest
    pure (digit :: others)
  | c :: rest => do
    let digit ← DecimalDigit.value? c
    let others ← digits? rest
    pure (digit :: others)

/-- The characters of a number without the blanks around them. -/
def withoutMargins (characters : List Char) : List Char :=
  ((characters.dropWhile isMargin).reverse.dropWhile isMargin).reverse

/-- The integer that a text denotes, if it denotes one. -/
def read? (text : String) : Option Int :=
  match withoutMargins text.toList with
  | '-' :: digits => (digits? digits).map fun ds => -(Decimal.value ds : Int)
  | '+' :: digits => (digits? digits).map fun ds => (Decimal.value ds : Int)
  | digits => (digits? digits).map fun ds => (Decimal.value ds : Int)

end UntypedLambda.Integer
