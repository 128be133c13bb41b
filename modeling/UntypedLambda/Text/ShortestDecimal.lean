import UntypedLambda.Text.Decimal

/-!
# The shortest decimal of a binary fraction

A finite nonzero floating-point number stands for all reals that round to it.
Its shortest decimal is the one with the fewest digits among those reals, and of
two such the nearer. The search goes from coarse powers of ten to fine ones: if
a multiple of a power lies in the interval, then so does one of the two
multiples next to the number itself.

The arithmetic is exact. No floating-point operation takes part in it.
-/

namespace UntypedLambda

/-- The number `significand * 2 ^ exponent`. The interval of reals that round
    to it is narrower below if `atPowerOfTwo` holds. -/
structure BinaryFraction where
  significand : Nat
  exponent : Int
  atPowerOfTwo : Bool

/-- The number `significand * 10 ^ exponent`. -/
structure DecimalFraction where
  significand : Nat
  exponent : Int
  deriving DecidableEq, Repr

namespace BinaryFraction

/-- So many quarters of the spacing between neighbouring numbers, on the scale on
    which they are compared with multiples of a power of ten. On that scale both
    are natural numbers. -/
def scaledQuarters (fraction : BinaryFraction) (power : Int) (quarters : Nat) : Nat :=
  quarters * Nat.pow 2 (fraction.exponent - 2).toNat * Nat.pow 10 (-power).toNat

/-- The distance between two multiples of a power of ten, on the same scale. -/
def gridUnit (fraction : BinaryFraction) (power : Int) : Nat :=
  Nat.pow 10 power.toNat * Nat.pow 2 (2 - fraction.exponent).toNat

/-- Whether a multiple of a power of ten rounds to the number. The ends of the
    interval do exactly if the significand is even. -/
def roundsTo (fraction : BinaryFraction) (power : Int) (multiple : Nat) : Bool :=
  let point := multiple * fraction.gridUnit power
  let quarters := 4 * fraction.significand
  let low := fraction.scaledQuarters power (quarters - if fraction.atPowerOfTwo then 1 else 2)
  let high := fraction.scaledQuarters power (quarters + 2)
  if fraction.significand % 2 = 0 then low ≤ point && point ≤ high
  else low < point && point < high

/-- The multiple of a power of ten that is nearest to the number among its two
    neighbours that round to it. A tie goes to the even one. -/
def onGrid? (fraction : BinaryFraction) (power : Int) : Option Nat :=
  let unit := fraction.gridUnit power
  let exact := fraction.scaledQuarters power (4 * fraction.significand)
  let below := exact / unit
  let above := below + 1
  match fraction.roundsTo power below, fraction.roundsTo power above with
  | false, false => none
  | true, false => some below
  | false, true => some above
  | true, true =>
    let down := exact - below * unit
    let up := above * unit - exact
    some (if down < up || (down = up && below % 2 = 0) then below else above)

/-- Search `count` powers of ten, coarsest first. The last of them is
    `10 ^ (-325)`. -/
def shortestWithin (fraction : BinaryFraction) : (count : Nat) → Option DecimalFraction
  | 0 => none
  | count + 1 =>
    let power := (count : Int) - 325
    match fraction.onGrid? power with
    | some multiple => some ⟨multiple, power⟩
    | none => shortestWithin fraction count

/-- The shortest decimal of a double-precision number. The powers of ten from
    `10 ^ 309` down to `10 ^ (-325)` suffice for every one of them but zero,
    which has none: no power of ten is the coarsest one to reach it. -/
def shortest? (fraction : BinaryFraction) : Option DecimalFraction :=
  if fraction.significand = 0 then none else fraction.shortestWithin 635

end BinaryFraction

/-- The magnitude of a finite double-precision number, read off its bits. -/
def BinaryFraction.ofFloat (number : Float) : BinaryFraction :=
  let bits : Nat := number.toBits.toNat
  let fractionBits : Nat := bits % Nat.pow 2 52
  let exponentBits : Nat := bits / Nat.pow 2 52 % Nat.pow 2 11
  if exponentBits = 0 then ⟨fractionBits, -1074, false⟩
  else ⟨Nat.pow 2 52 + fractionBits, (exponentBits : Int) - 1075,
    fractionBits == 0 && exponentBits != 1⟩

/-- How the digits of a decimal are laid out. The exponent is that of the first
    digit; inside the bounds the decimal is written positionally. -/
structure DecimalLayout where
  leastPositional : Int
  greatestPositional : Int
  exponentDigits : Nat

namespace DecimalFraction

/-- Zeros in front of a text until it has a given length. -/
def padded (width : Nat) (text : String) : String :=
  String.ofList (List.replicate (width - text.length) '0') ++ text

/-- A positive decimal in digits, with a point or an exponent or both. -/
def text (layout : DecimalLayout) (fraction : DecimalFraction) : String :=
  let digits := (Decimal.text fraction.significand).toList
  let leading := fraction.exponent + digits.length - 1
  if layout.leastPositional ≤ leading ∧ leading ≤ layout.greatestPositional then
    if fraction.exponent ≥ 0 then
      String.ofList (digits ++ List.replicate fraction.exponent.toNat '0') ++ ".0"
    else if leading ≥ 0 then
      let whole := leading.toNat + 1
      String.ofList (digits.take whole) ++ "." ++ String.ofList (digits.drop whole)
    else "0." ++ String.ofList (List.replicate (-leading - 1).toNat '0' ++ digits)
  else
    let sign := if leading < 0 then "-" else "+"
    let exponent := padded layout.exponentDigits (Decimal.text leading.natAbs)
    let fractional := match digits.drop 1 with
      | [] => ""
      | others => "." ++ String.ofList others
    String.ofList (digits.take 1) ++ fractional ++ "e" ++ sign ++ exponent

end DecimalFraction

end UntypedLambda
