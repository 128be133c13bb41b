import UntypedLambda.Term

/-!
# Church numerals

The numeral of a number applies its first parameter that many times to its
second. Reading a numeral accepts any two different parameter names; a term that
binds the same name twice is not read, even where it is a numeral up to renaming.
-/

namespace UntypedLambda.Numeral

/-- A function applied a number of times to a term. -/
def iterate (function : Term) : Nat → Term → Term
  | 0, term => term
  | count + 1, term => .app function (iterate function count term)

/-- The numeral of a number, with the parameters `f` and `x`. -/
def church (number : Nat) : Term :=
  .lam "f" (.lam "x" (iterate (.var "f") number (.var "x")))

/-- How often `function` is applied to `base`, if the term is nothing else. -/
def countApplications (function base : Name) : Term → Option Nat
  | .var name => if name = base then some 0 else none
  | .lam _ _ => none
  | .app head argument =>
    if head = .var function then (countApplications function base argument).map (· + 1) else none

/-- The number that a term denotes, if it is a numeral. -/
def number? : Term → Option Nat
  | .lam function (.lam base body) =>
    if function = base then none else countApplications function base body
  | _ => none

end UntypedLambda.Numeral
